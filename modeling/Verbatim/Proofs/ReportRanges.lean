/-
  Every report points into the source.

  Ranges come about in several ways: from a token, from the end of the significant text
  read last, from a comment or a string that does not end, from the position of a review
  and the trivia in front of a token, and from the end of a list and the width of its
  separator.  What they have in common is `Text.HoldsRange`: a range is that of a part of a
  text that starts at some offset.  A part of a part is a part, so ranges that are found in
  a piece of trivia, in a token or in a subtree are ranges of the whole source.
-/
import Verbatim.Workspace
import Verbatim.Proofs.Conservation
import Verbatim.Proofs.RoundTrip
import Verbatim.Proofs.ScanRuns
import Verbatim.Proofs.TextParts
import Verbatim.Proofs.TokenOrder

set_option autoImplicit false

namespace Verbatim

/-! ## Reports and the source -/

/-- A report whose range is one of the source: it ends in the source and not before it
starts, and both ends fall between characters. -/
structure Diagnostic.PointsInto (d : Diagnostic) (source : Text) : Prop where
  start_le_stop : d.start ≤ d.stop
  stop_le_width : d.stop ≤ source.width
  start_boundary : source.IsBoundary d.start
  stop_boundary : source.IsBoundary d.stop

theorem Diagnostic.pointsInto_of_holdsRange {d : Diagnostic} {source : Text}
    (h : source.HoldsRange 0 d.start d.stop) : d.PointsInto source := by
  obtain ⟨before, inner, after, rfl, hstart, hstop⟩ := h
  rw [Nat.zero_add] at hstart
  have hend : d.stop = Text.width (before ++ inner) := by rw [hstop, hstart, Text.width_append]
  constructor
  · omega
  · rw [hend, Text.width_append _ after]
    exact Nat.le_add_right _ _
  · rw [hstart, List.append_assoc]
    exact Text.isBoundary_append _ _
  · rw [hend]
    exact Text.isBoundary_append _ _

/-! ## Reports of a scan -/

/-- Skipped pieces of a run of trivia are parts of its text. -/
theorem holdsRange_skippedRanges (offset : Nat) (items : List Trivia) :
    ∀ r ∈ skippedRanges offset (items.map Trivia.piece),
      Text.HoldsRange (items.flatMap Trivia.text) offset r.1 r.2 := by
  induction items generalizing offset with
  | nil => exact List.forall_mem_nil _
  | cons p rest ih =>
      rw [List.map_cons, skippedRanges, List.flatMap_cons]
      refine List.forall_mem_append.mpr ⟨?_, fun r hr => (ih _ r hr).append_left p.text⟩
      split
      · exact List.forall_mem_singleton.mpr ((p.text.holdsRange_whole offset).append_right _)
      · exact List.forall_mem_nil _

theorem TriviaList.Regular.holdsRange {l : TriviaList} (h : l.Regular) (offset : Nat) :
    ∀ r ∈ skippedRanges offset l.pieces, l.text.HoldsRange offset r.1 r.2 := by
  rw [← h.map_piece_toList, ← h.flatMap_text_toList]
  exact holdsRange_skippedRanges offset l.toList

namespace Scanner

variable {source before : Text} {s : Scanner} {step : ScanStep}

/-- The significant text of a token is a part of the source. -/
theorem At.holdsRange_token (h : At source before s) (hparts : s.Parts step) :
    source.HoldsRange 0 step.token.start step.token.stop := by
  obtain ⟨hsource, hstart, hstop⟩ := h.token hparts
  exact ⟨_, step.token.text, step.behind, hsource, by rw [hstart, Nat.zero_add],
    by rw [hstop, hstart]⟩

/-- Comments that do not end are parts of the trivia on either side of a token, and an open
string is the token. -/
theorem At.holdsRange_reports (h : At source before s) (hparts : s.Parts step) :
    ∀ d ∈ step.diagnostics, source.HoldsRange 0 d.start d.stop := by
  have hformed := hparts.takes.formed
  obtain ⟨hsource, hstart, hstop⟩ := h.token hparts
  rw [hparts.reports]
  refine List.forall_mem_append.mpr ⟨List.forall_mem_append.mpr ⟨?_, ?_⟩, ?_⟩
  · refine List.forall_mem_map.mpr fun r hr => ?_
    have hinner := hformed.leading.holdsRange s.offset r hr
    rw [h.offset_eq, ← Nat.zero_add before.width] at hinner
    rw [hsource, List.append_assoc _ step.token.text]
    exact (hinner.append_left before).append_right _
  · refine List.forall_mem_map.mpr fun t ht => ?_
    obtain rfl := List.mem_singleton.mp (List.mem_filter.mp ht).1
    exact h.holdsRange_token hparts
  · refine List.forall_mem_map.mpr fun r hr => ?_
    have hinner := hformed.trailing.holdsRange step.token.stop r hr
    rw [hstop, ← Text.width_append, ← Nat.zero_add (Text.width _)] at hinner
    rw [hsource, ScanStep.behind]
    exact (hinner.append_right _).append_left _

/-- The tokens and the reports of a run that starts at a place of a source are parts of
it. -/
theorem Scans.holdsRange {steps : List ScanStep} (h : Scans s steps) (hs : At source before s) :
    ∀ step ∈ steps, source.HoldsRange 0 step.token.start step.token.stop ∧
      ∀ d ∈ step.diagnostics, source.HoldsRange 0 d.start d.stop := by
  intro step hstep
  obtain ⟨_, _, hplace, hparts⟩ := h.exists_parts (fun _ _ _ => At.next) hs step hstep
  exact ⟨hplace.holdsRange_token hparts, hplace.holdsRange_reports hparts⟩

end Scanner

/-! ## Reports of a parser -/

namespace ParseState

/-- The tokens to come, the end of the significant text read last and the reports are
ranges of the source. -/
structure Anchored (source : Text) (s : ParseState) : Prop where
  tokens : ∀ t ∈ s.tokens, source.HoldsRange 0 t.start t.stop
  lastEnd : source.HoldsRange 0 s.lastEnd s.lastEnd
  reports : ∀ d ∈ s.diagnostics, source.HoldsRange 0 d.start d.stop

variable {source : Text} {s t : ParseState}

theorem Anchored.peek (h : s.Anchored source) : source.HoldsRange 0 s.peek.start s.peek.stop := by
  unfold ParseState.peek
  split
  · rename_i htokens
    exact h.tokens _ (htokens ▸ List.mem_cons_self)
  · exact h.lastEnd

theorem Anchored.report (h : s.Anchored source) {d : Diagnostic}
    (hd : source.HoldsRange 0 d.start d.stop) :
    Anchored source { s with diagnostics := s.diagnostics ++ [d] } where
  tokens := h.tokens
  lastEnd := h.lastEnd
  reports := List.forall_mem_append.mpr ⟨h.reports, List.forall_mem_singleton.mpr hd⟩

/-- The end of a token that is taken off is the end of the significant text read last. -/
theorem Anchored.consume (h : s.Anchored source) (skipped : TriviaList) :
    Anchored source { s.consume with skipped } where
  tokens := fun t ht => h.tokens t (List.mem_of_mem_tail ht)
  lastEnd := h.peek.at_stop
  reports := h.reports

/-- An action reports at the end of the significant text read last or at the next token. -/
theorem Allows.anchored_act {a : Action} (ha : s.Allows a) (h : s.Anchored source) :
    (s.act a).Anchored source := by
  cases a with
  | read => exact h.consume .empty
  | fill kind => exact h
  | complain message => exact h.report h.peek
  | skip message => exact (h.report h.peek).consume s.skippedWithNext
  | supply kind d =>
      refine h.report ?_
      obtain ⟨_, _, ⟨hstart, hstop⟩ | ⟨hstart, hstop⟩⟩ := ha
      · rw [hstart, hstop]
        exact h.lastEnd
      · rw [hstart, hstop]
        exact h.peek

end ParseState

theorem Steps.anchored {source : Text} {s t : ParseState} {actions : List Action}
    {leaves : List Token} (h : Steps s actions leaves t) (hs : s.Anchored source) :
    t.Anchored source := by
  induction h with
  | refl s => exact hs
  | cons ha _ ih => exact ih (ha.anchored_act hs)

/-! ## Reports of a review -/

theorem Token.holdsRange_reportToken (t : Token) (start : Nat) (message : String) :
    t.fullText.HoldsRange start (reportToken (some t) start message).start
      (reportToken (some t) start message).stop :=
  ⟨t.leading.text, t.text, t.trailing.text, rfl, rfl, rfl⟩

/-- Tokens without text can be left out of a text. -/
theorem Token.flatMap_fullText_present {ts : List Token}
    (h : ∀ t ∈ ts, t.isZeroWidth = true → t.fullText = []) :
    (ts.filter fun t => !t.isZeroWidth).flatMap Token.fullText = ts.flatMap Token.fullText := by
  induction ts with
  | nil => rfl
  | cons t rest ih =>
      obtain ⟨ht, hrest⟩ := List.forall_mem_cons.mp h
      rw [List.filter_cons, List.flatMap_cons, ← ih hrest]
      cases hzero : t.isZeroWidth with
      | false => rfl
      | true => simp [ht hzero]

namespace Element

/-- A finished element whose absent leaves have no text at all. -/
structure Plain (e : Element) : Prop where
  made : e.Made
  absent : ∀ t ∈ e.leaves, t.isZeroWidth = true → t.fullText = []

theorem Plain.children {e : Element} (h : e.Plain) (htoken : e.isToken = false) :
    ∀ c ∈ e.children, c.Plain := by
  have habsent := h.absent
  rw [leaves_eq_children htoken, forall_mem_leavesAll] at habsent
  exact fun c hc => ⟨h.made.children c hc, habsent c hc⟩

/-- The first token that the source has stands at the start of the element. -/
theorem Plain.holdsRange_reportToken {e : Element} (h : e.Plain) (start : Nat)
    (message : String) :
    e.fullText.HoldsRange start (reportToken e.firstToken? start message).start
      (reportToken e.firstToken? start message).stop := by
  have htext := Token.flatMap_fullText_present h.absent
  rw [← fullText_eq_leaves] at htext
  rw [firstToken?_eq, presentLeaves, ← htext]
  cases e.leaves.filter fun t => !t.isZeroWidth with
  | nil => exact Text.holdsRange_start _ start
  | cons t rest =>
      rw [List.flatMap_cons]
      exact (t.holdsRange_reportToken start message).append_right _

theorem holdsRange_uninitialized {slots : List Element} (h : ∀ c ∈ slots, c.Plain) (start : Nat) :
    ∀ d ∈ uninitialized slots start, (fullTextAll slots).HoldsRange start d.start d.stop := by
  induction slots generalizing start with
  | nil => exact List.forall_mem_nil _
  | cons slot rest ih =>
      obtain ⟨hslot, hrest⟩ := List.forall_mem_cons.mp h
      rw [uninitialized, fullTextAll]
      refine List.forall_mem_append.mpr ⟨?_, fun d hd => ?_⟩
      · split
        · exact List.forall_mem_singleton.mpr
            ((hslot.holdsRange_reportToken start _).append_right _)
        · exact List.forall_mem_nil _
      · rw [hslot.made.width_eq] at hd
        exact (ih hrest _ d hd).append_left _

/-- A separator behind the last node is the last slot. -/
theorem exists_front_of_separatorAt {slots : List Element} {e : Element}
    (htrailing : Separated.hasTrailingSeparator slots = true)
    (h : Separated.separatorAt slots (Separated.count slots - 1) = .ok e) :
    ∃ front, slots = front ++ [e] := by
  simp only [Separated.hasTrailingSeparator, Bool.and_eq_true, bne_iff_ne, ne_eq,
    beq_iff_eq] at htrailing
  have hindex : 2 * (Separated.count slots - 1) + 1 = slots.length - 1 := by
    unfold Separated.count
    omega
  rw [Separated.separatorAt_eq_ite, hindex, ← List.getLast?_eq_getElem?] at h
  split at h
  · cases h
  · split at h
    · rename_i hlast
      split at h
      · cases h
        exact List.getLast?_eq_some_iff.mp hlast
      · cases h
    · cases h

/-- The start of a trailing separator is found from the end of its list. -/
theorem holdsRange_trailingComma (slots : List Element) (start : Nat) :
    ∀ d ∈ trailingComma slots start (fullTextAll slots).width,
      (fullTextAll slots).HoldsRange start d.start d.stop := by
  unfold trailingComma
  split
  · rename_i htrailing
    split
    · rename_i separator hseparator
      obtain ⟨front, rfl⟩ := exists_front_of_separatorAt htrailing hseparator
      have htext : fullTextAll (front ++ [.token separator]) =
          fullTextAll front ++ separator.fullText := by
        rw [fullTextAll_append]
        exact congrArg _ (List.append_nil _)
      -- The list ends where the separator ends, so its width leads back to its start.
      have hstart : start + (fullTextAll front ++ separator.fullText).width -
          separator.fullWidth = start + (fullTextAll front).width := by
        rw [Text.width_append, Token.width_fullText]
        omega
      rw [htext, hstart]
      exact List.forall_mem_singleton.mpr
        ((separator.holdsRange_reportToken _ _).append_left _)
    · exact List.forall_mem_nil _
  · exact List.forall_mem_nil _

theorem holdsRange_reviewDeclarators (isConst : Bool) {cs : List Element}
    (h : ∀ c ∈ cs, c.Plain) (start : Nat) :
    ∀ d ∈ reviewDeclarators isConst cs start,
      (fullTextAll cs).HoldsRange start d.start d.stop := by
  induction cs generalizing start with
  | nil => exact List.forall_mem_nil _
  | cons c rest ih =>
      obtain ⟨hc, hrest⟩ := List.forall_mem_cons.mp h
      unfold reviewDeclarators
      rw [fullTextAll]
      refine List.forall_mem_append.mpr ⟨fun d hd => ?_, fun d hd => ?_⟩
      · refine Text.HoldsRange.append_right ?_ _
        cases c with
        | separated m slots =>
            have hwidth : m.width = (fullTextAll slots).width := hc.made.width_eq
            simp only [hwidth] at hd
            rcases List.mem_append.mp hd with hd | hd
            · split at hd
              · exact holdsRange_uninitialized (hc.children rfl) start d hd
              · cases hd
            · exact holdsRange_trailingComma slots start d hd
        | token _ | node _ _ _ | list _ _ => cases hd
      · rw [hc.made.width_eq] at hd
        exact (ih hrest _ d hd).append_left _

/-- The reports are ranges of a text that starts at a position, and the position behind is
that behind the text. -/
structure Reviews (t : Text) (start : Nat) (found : List Diagnostic × Nat) : Prop where
  reports : ∀ d ∈ found.1, t.HoldsRange start d.start d.stop
  stop_eq : found.2 = start + t.width

theorem reviews_reviewAllFrom {es : List Element}
    (h : ∀ e ∈ es, ∀ start, Reviews e.fullText start (e.reviewFrom start)) (start : Nat) :
    Reviews (fullTextAll es) start (reviewAllFrom es start) := by
  induction es generalizing start with
  | nil => exact ⟨List.forall_mem_nil _, rfl⟩
  | cons e rest ih =>
      obtain ⟨he, hrest⟩ := List.forall_mem_cons.mp h
      have hfirst := he start
      have hsecond := ih hrest (start + e.fullText.width)
      rw [← hfirst.stop_eq] at hsecond
      rw [reviewAllFrom, fullTextAll]
      constructor
      · refine List.forall_mem_append.mpr ⟨fun d hd => (hfirst.reports d hd).append_right _,
          fun d hd => ?_⟩
        have hrange := hsecond.reports d hd
        rw [hfirst.stop_eq] at hrange
        exact hrange.append_left _
      · rw [hsecond.stop_eq, hfirst.stop_eq, Text.width_append, Nat.add_assoc]

/-- A review reports parts of the text of a tree. -/
theorem Plain.reviews {e : Element} (h : e.Plain) (start : Nat) :
    Reviews e.fullText start (e.reviewFrom start) := by
  induction e using Element.induction generalizing start with
  | token t =>
      refine ⟨List.forall_mem_nil _, ?_⟩
      rw [fullText, Token.width_fullText]
      rfl
  | node kind measure children ih =>
      -- The reports on the node itself come first; those below it come with the position.
      have hchildren := h.children rfl
      have hinner := reviews_reviewAllFrom (fun c hc => ih c hc (hchildren c hc)) start
      rw [reviewFrom, fullText]
      refine ⟨List.forall_mem_append.mpr ⟨fun d hd => ?_, hinner.reports⟩, hinner.stop_eq⟩
      split at hd
      · exact holdsRange_reviewDeclarators _ hchildren start d hd
      · cases hd
  | list measure nodes ih | separated measure slots ih =>
      have hchildren := h.children rfl
      exact reviews_reviewAllFrom (fun c hc => ih c hc (hchildren c hc)) start

end Element

/-! ## Whole texts -/

namespace ParseRun

variable {source : Text} {options : ParseOptions} (run : ParseRun source options)

/-- A leaf that the source does not have has no text, since no trivia is given to it. -/
theorem plain_root : run.root.Plain := by
  obtain ⟨_, _, hconserves⟩ :=
    run.reads.reading.steps.exists_conserves (ParseState.holds_start run.regular)
  refine ⟨run.made_root, fun t ht hzero => ?_⟩
  have htext := ((run.regular_root.leaves t ht).token_zeroWidth_iff.mp hzero).1
  rw [run.leaves_root] at ht
  have hbare : t.BareIfAbsent := by
    rcases List.mem_append.mp ht with ht | ht
    · exact hconserves.bare t ht
    · obtain rfl := List.mem_singleton.mp ht
      rw [Token.isZeroWidth, ParseState.nextLeaf] at hzero
      simp [Token.make, show run.last.peek.kind = .eof from run.reads.peekKind] at hzero
  obtain ⟨hleading, htrailing⟩ := hbare hzero
  rw [Token.fullText, hleading, htrailing, htext]
  rfl

/-- The scan and the parser report ranges of the source. -/
theorem holdsRange_diagnostics :
    ∀ d ∈ run.result.diagnostics, source.HoldsRange 0 d.start d.stop := by
  obtain ⟨steps, hscans, htokens, hreports⟩ := Scanner.exists_scans_of_scanFrom run.scan_eq
  have hscan := hscans.holdsRange (Scanner.at_start source)
  have hstart : (ParseState.start run.scanned.tokens).Anchored source := by
    refine ⟨?_, source.holdsRange_start 0, List.forall_mem_nil _⟩
    change ∀ t ∈ run.scanned.tokens, _
    rw [htokens]
    exact List.forall_mem_map.mpr fun step hstep => (hscan step hstep).1
  have hlast := run.reads.reading.steps.anchored hstart
  intro d hd
  rcases List.mem_append.mp ((Diagnostic.sort_perm _).mem_iff.mp hd) with hd | hd
  · rw [hreports] at hd
    obtain ⟨step, hstep, hd⟩ := List.mem_flatMap.mp hd
    exact (hscan step hstep).2 d hd
  · exact hlast.reports d hd

theorem holdsRange_review : ∀ d ∈ run.root.review, source.HoldsRange 0 d.start d.stop := by
  have hreviews := run.plain_root.reviews 0
  rw [run.fullText_root] at hreviews
  exact hreviews.reports

end ParseRun

/-- A file that nothing has been derived for is checked by a parse. -/
theorem SourceFile.check_new {path : Path} {text : Text} {options : ParseOptions} {p : Parse}
    (h : Verbatim.parse text options = .ok p) (revision now : Nat) :
    ∃ file, (SourceFile.new path text options revision).check now =
      .ok (⟨checkParse p, now⟩, file) := by
  simp [SourceFile.check, SourceFile.checkWith, SourceFile.parseWith, SourceFile.new, h, bind,
    Except.bind, pure, Except.pure]

/-- Every text that offsets can count is parsed and checked, and whatever is reported, by
the scan, by the parser, by a review of the tree or by a check of a file, has a range of
the text. -/
theorem parse_reports_point_into_source (source : Text) (options : ParseOptions)
    (h : source.width < Offset.limit) :
    ∃ p, parse source options = .ok p ∧
      (∀ d ∈ p.diagnostics, d.PointsInto source) ∧
      (∀ d ∈ p.root.review, d.PointsInto source) ∧
      ∀ path revision now, ∃ checked file,
        (SourceFile.new path source options revision).check now = .ok (checked, file) ∧
          ∀ d ∈ checked.value, d.PointsInto source := by
  obtain ⟨run⟩ := exists_parseRun source options h
  have hreported : ∀ d ∈ run.result.diagnostics, d.PointsInto source :=
    fun d hd => Diagnostic.pointsInto_of_holdsRange (run.holdsRange_diagnostics d hd)
  have hreviewed : ∀ d ∈ run.root.review, d.PointsInto source :=
    fun d hd => Diagnostic.pointsInto_of_holdsRange (run.holdsRange_review d hd)
  refine ⟨run.result, run.parse_eq, hreported, hreviewed, fun path revision now => ?_⟩
  obtain ⟨file, hcheck⟩ := SourceFile.check_new run.parse_eq revision now
  refine ⟨_, file, hcheck, fun d hd => ?_⟩
  rcases List.mem_append.mp ((Diagnostic.sort_perm _).mem_iff.mp hd) with hd | hd
  · exact hreported d hd
  · exact hreviewed d hd

/-- A text that is reported in every way: constants without a value, of which one has a name
of two bytes, a comma behind them, a string and a comment that do not end, and a loop without
its parts. -/
def faultySource : Text :=
  "const é, b,;\n'y\nwhile (/*".toList

theorem width_faultySource : faultySource.width < Offset.limit := by
  decide

theorem parse_faultySource_reports :
    faultySource.width < Offset.limit ∧
      ∃ p, parse faultySource ⟨true⟩ = .ok p ∧
        (∀ d ∈ p.diagnostics, d.PointsInto faultySource) ∧
        (∀ d ∈ p.root.review, d.PointsInto faultySource) ∧
        ∀ path revision now, ∃ checked file,
          (SourceFile.new path faultySource ⟨true⟩ revision).check now = .ok (checked, file) ∧
            ∀ d ∈ checked.value, d.PointsInto faultySource :=
  ⟨width_faultySource, parse_reports_point_into_source faultySource ⟨true⟩ width_faultySource⟩

end Verbatim
