/-
  How a scan hands out trivia.

  Behind a token its trivia goes on up to and including the first line break, so a line
  break is the last piece there, and a next token has trivia in front of it only behind a
  line break.  Every piece fits its kind where it stands.  Stretches of blanks cannot stand
  next to each other, since each of them goes on as far as it can, and only the last piece
  of a text can be a comment that is not closed.
-/
import Verbatim.Proofs.Seams

set_option autoImplicit false

namespace Verbatim

/-! ## Pieces one behind the other -/

/-- No two stretches of blanks stand next to each other. -/
def BlanksApart (items : List Trivia) : Prop :=
  ∀ xs p q ys, items = xs ++ p :: q :: ys → ¬(p.kind = .whitespace ∧ q.kind = .whitespace)

/-- Number of pieces that are comments which are not closed. -/
def openCount (items : List Trivia) : Nat :=
  items.countP fun p => p.kind == .skippedText

namespace Scan

variable {t rest : Text} {items : List Trivia}

/-- A stretch of blanks goes on as far as it can, so no blank comes next. -/
theorem Peels.blanksApart (h : Peels t items rest) : BlanksApart items := by
  rintro xs ⟨_, text⟩ ⟨_, text'⟩ ys rfl ⟨rfl, rfl⟩
  obtain ⟨middle, _, hrest⟩ := h.of_append
  obtain ⟨back, hfirst, _, hmore⟩ := hrest.of_cons
  obtain ⟨back', hsecond, rfl, _⟩ := hmore.of_cons
  cases triviaForm_of_trivia? hfirst with
  | whitespace _ _ hend =>
      cases triviaForm_of_trivia? hsecond with
      | whitespace hne hblank _ =>
          obtain ⟨c, tail, rfl⟩ := List.exists_cons_of_ne_nil hne
          have hnot := hend c rfl
          rw [hblank c List.mem_cons_self] at hnot
          cases hnot

/-- Nothing comes behind a comment that is not closed. -/
theorem Peels.openCount_le (h : Peels t items rest) :
    openCount items = 0 ∨ (openCount items = 1 ∧ rest = []) := by
  induction h with
  | nil => exact .inl rfl
  | @cons t rest kind cut items htrivia hrest ih =>
      rw [openCount, List.countP_cons]
      by_cases hkind : kind = .skippedText
      · subst hkind
        have hback : cut.back = [] := by
          have hform := triviaForm_of_trivia? htrivia
          generalize cut.front = front, cut.back = back at hform
          cases hform
          rfl
        rw [hback] at hrest
        have hnil := hrest.spells
        rw [hrest.eq_nil rfl] at hnil ⊢
        exact .inr ⟨rfl, hnil.symm⟩
      · rw [if_neg (by simpa using hkind), Nat.add_zero]
        exact ih

/-- A line break is the last piece behind a token. -/
theorem RunEnds.newline_last (h : RunEnds true items rest) {xs ys : List Trivia} {p : Trivia}
    (hitems : items = xs ++ p :: ys) (hkind : p.kind = .newline) : ys = [] := by
  cases h with
  | stopped _ hnone =>
      refine absurd hkind (hnone rfl p ?_)
      rw [hitems]
      exact List.mem_append_right _ List.mem_cons_self
  | @broken front last _ hlast _ hnone =>
      rcases List.eq_nil_or_concat ys with hnil | ⟨ys, z, rfl⟩
      · exact hnil
      · have heq : front ++ [last] = (xs ++ p :: ys) ++ [z] := by
          rw [← hlast, hitems]
          simp
        refine absurd hkind (hnone p ?_)
        rw [(List.append_inj' heq rfl).1]
        exact List.mem_append_right _ List.mem_cons_self

/-- Where trivia goes on behind the trivia of a token, that ended with a line break. -/
theorem RunEnds.exists_newline (h : RunEnds true items rest) {more : List Trivia} {last : Text}
    (hmore : Peels rest more last) (hne : more ≠ []) :
    ∃ xs p, items = xs ++ [p] ∧ p.kind = .newline := by
  cases h with
  | stopped hnone _ => exact absurd (hmore.eq_nil hnone) hne
  | broken _ hitems hlast _ => exact ⟨_, _, hitems, hlast⟩

end Scan

/-! ## Reports of comments -/

namespace ScannedToken

/-- The pieces of trivia around a token, each with the offset where it starts. -/
def placedTrivia (t : ScannedToken) : List (Nat × Trivia) :=
  placedFrom t.fullStart t.leading.toList ++ placedFrom t.stop t.trailing.toList

/-- The ranges of the comments around a token that are not closed. -/
def openComments (t : ScannedToken) : List (Nat × Nat) :=
  (t.placedTrivia.filter fun place => place.2.kind == .skippedText).map
    fun place => (place.1, place.1 + place.2.width)

end ScannedToken

theorem openComments_placedFrom (offset : Nat) (items : List Trivia) :
    ((placedFrom offset items).filter fun place => place.2.kind == .skippedText).map
        (fun place => (place.1, place.1 + place.2.width)) =
      skippedRanges offset (items.map Trivia.piece) := by
  induction items generalizing offset with
  | nil => rfl
  | cons p rest ih =>
      have hrest := ih (offset + p.width)
      rw [placedFrom, List.map_cons, skippedRanges]
      by_cases hkind : p.kind = .skippedText
      · rw [List.filter_cons_of_pos (by simpa using hkind), List.map_cons, hrest,
          if_pos (show p.piece.kind = .skippedText from hkind)]
        rfl
      · rw [List.filter_cons_of_neg (by simpa using hkind), hrest,
          if_neg (show ¬p.piece.kind = .skippedText from hkind)]
        rfl

/-- What is in a list of one element at most is there once. -/
theorem count_eq_one {α : Type} [BEq α] [LawfulBEq α] {l : List α} {a : α} (h : l.length ≤ 1)
    (ha : a ∈ l) : l.count a = 1 := by
  match l, h, ha with
  | [b], _, ha => rw [List.mem_singleton.mp ha, List.count_singleton_self]

namespace Scanner

variable {s : Scanner} {step : ScanStep} {steps : List ScanStep} {source before : Text}

theorem Parts.fullStart_eq (h : s.Parts step) : step.token.fullStart = s.offset := by
  rw [ScannedToken.fullStart, h.takes.start_eq, Nat.add_sub_cancel]

theorem Parts.openComments_eq (h : s.Parts step) :
    step.token.openComments =
      skippedRanges s.offset step.token.leading.pieces ++
        skippedRanges step.token.stop step.token.trailing.pieces := by
  have hformed := h.takes.formed
  rw [ScannedToken.openComments, ScannedToken.placedTrivia, List.filter_append, List.map_append,
    openComments_placedFrom, openComments_placedFrom, hformed.leading.map_piece_toList,
    hformed.trailing.map_piece_toList, h.fullStart_eq]

/-- Of the reports of a step, those about comments. -/
theorem Parts.comments (h : s.Parts step) :
    step.diagnostics.filter (fun d => d.message == "unterminated comment") =
      step.token.openComments.map Scan.unterminatedComment := by
  have hcomment (ranges : List (Nat × Nat)) : (ranges.map Scan.unterminatedComment).filter
      (fun d => d.message == "unterminated comment") = ranges.map Scan.unterminatedComment :=
    filter_message_eq Scan.unterminatedComment (fun _ => rfl) ranges
  have hstring (tokens : List ScannedToken) :
      (tokens.map ScannedToken.unterminatedString).filter
        (fun d => d.message == "unterminated comment") = [] :=
    filter_message_ne ScannedToken.unterminatedString
      (fun _ => by simp [ScannedToken.unterminatedString]) tokens
  rw [h.reports, List.filter_append, List.filter_append, hcomment, hcomment, hstring,
    List.append_nil, h.openComments_eq, List.map_append]

/-- The reports about comments are those of the ones that are not closed, in order. -/
theorem Scans.comments (h : Scans s steps) :
    (steps.flatMap ScanStep.diagnostics).filter
        (fun d => d.message == "unterminated comment") =
      ((steps.map ScanStep.token).flatMap ScannedToken.openComments).map
        Scan.unterminatedComment := by
  induction h with
  | last hstep =>
      rw [List.flatMap_singleton, (parts_of_next hstep).comments, List.map_singleton,
        List.flatMap_singleton]
  | cons hstep _ _ ih =>
      rw [List.flatMap_cons, List.filter_append, ih, (parts_of_next hstep).comments,
        List.map_cons, List.flatMap_cons, List.map_append]

theorem Parts.length_openComments (h : s.Parts step) :
    step.token.openComments.length =
      openCount step.token.leading.toList + openCount step.token.trailing.toList := by
  have hformed := h.takes.formed
  have hlength (offset : Nat) {l : TriviaList} (hl : l.Regular) :
      (skippedRanges offset l.pieces).length = openCount l.toList := by
    rw [length_skippedRanges, ← hl.map_piece_toList, List.countP_map]
    rfl
  rw [h.openComments_eq, List.length_append, hlength _ hformed.leading,
    hlength _ hformed.trailing]

/-- A step takes off one comment that is not closed at most, and nothing is left behind it. -/
theorem Parts.openComments_le (h : s.Parts step) :
    step.token.openComments.length = 0 ∨
      (step.token.openComments.length = 1 ∧ step.after.rest = []) := by
  rw [h.length_openComments]
  have htrailing := h.trailing.openCount_le
  rcases h.leading.openCount_le with hleading | ⟨hleading, hnil⟩
  · rw [hleading, Nat.zero_add]
    exact htrailing
  · -- Nothing is left for the token and what is behind it.
    obtain ⟨_, hbehind⟩ := List.append_eq_nil_iff.mp hnil
    have hpeels := h.trailing
    rw [hbehind] at hpeels
    have hspells := hpeels.spells
    rw [hpeels.eq_nil rfl] at hspells ⊢
    exact .inr ⟨by rw [hleading]; rfl, hspells.symm⟩

/-- At the end of the text there are no comments. -/
theorem Parts.openComments_eq_zero (h : s.Parts step) (hnil : s.rest = []) :
    step.token.openComments.length = 0 := by
  have hleading := h.leading
  have htrailing := h.trailing
  rw [hnil] at hleading
  have hspells := hleading.spells
  rw [hleading.eq_nil rfl, List.flatMap_nil, List.nil_append] at hspells
  obtain ⟨_, hbehind⟩ := List.append_eq_nil_iff.mp hspells.symm
  rw [hbehind] at htrailing
  rw [h.length_openComments, hleading.eq_nil rfl, htrailing.eq_nil rfl]
  rfl

/-- At the end of the text a run is one step. -/
theorem Scans.openComments_eq_zero (h : Scans s steps) (hnil : s.rest = []) :
    ((steps.map ScanStep.token).flatMap ScannedToken.openComments).length = 0 := by
  cases h with
  | last hstep _ =>
      rw [List.map_singleton, List.flatMap_singleton]
      exact (parts_of_next hstep).openComments_eq_zero hnil
  | cons hstep heof _ =>
      have htakes := takes_of_next hstep
      have hrest := htakes.rest_eq
      rw [hnil, ScannedToken.fullText] at hrest
      simp only [List.nil_eq, List.append_eq_nil_iff] at hrest
      exact absurd (htakes.formed.text_eq_nil_iff.mp hrest.1.1.2) heof

/-- A run has one comment that is not closed at most. -/
theorem Scans.openComments_le (h : Scans s steps) :
    ((steps.map ScanStep.token).flatMap ScannedToken.openComments).length ≤ 1 := by
  induction h with
  | last hstep _ =>
      rw [List.map_singleton, List.flatMap_singleton]
      have hone := (parts_of_next hstep).openComments_le
      omega
  | cons hstep _ hmore ih =>
      rw [List.map_cons, List.flatMap_cons, List.length_append]
      rcases (parts_of_next hstep).openComments_le with hzero | ⟨hone, hnil⟩
      · omega
      · have hnone := hmore.openComments_eq_zero hnil
        omega

/-- A comment that is not closed is reported once. -/
theorem Scans.count_comment (h : Scans s steps) {range : Nat × Nat}
    (hrange : range ∈ (steps.map ScanStep.token).flatMap ScannedToken.openComments) :
    (steps.flatMap ScanStep.diagnostics).count (Scan.unterminatedComment range) = 1 := by
  have hone : (((steps.map ScanStep.token).flatMap ScannedToken.openComments).map
      Scan.unterminatedComment).count (Scan.unterminatedComment range) = 1 := by
    refine count_eq_one ?_ (List.mem_map_of_mem hrange)
    rw [List.length_map]
    exact h.openComments_le
  rw [← h.comments, List.count_filter rfl] at hone
  exact hone

/-- The pieces of trivia that a step at a seam takes off fit their kinds where they stand. -/
theorem AtSeam.standIn (h : AtSeam source before s) (hparts : s.Parts step) :
    ∀ place ∈ step.token.placedTrivia, place.2.StandsIn source place.1 := by
  obtain ⟨hsource, hstart, hstop⟩ := h.token hparts
  refine List.forall_mem_append.mpr ⟨?_, ?_⟩
  · have hleading := hparts.leading.standIn h.seam
    rwa [← h.source_eq, ← h.offset_eq, ← hparts.fullStart_eq] at hleading
  · have htrailing := hparts.trailing.standIn (hparts.seams before).1
    rwa [← hsource, Text.width_append, ← hstop] at htrailing

end Scanner

/-! ## Whole texts -/

/-- What holds of the trivia of a scanned source.  Every run consists of its pieces.  A line
break is the last piece behind a token, and a token has trivia in front of it only if it is
the first one or a line break comes before it.  Every piece has text and fits its kind where
it stands, and stretches of blanks do not stand next to each other.  A comment that is not
closed is reported once, at its range, and nothing else is reported as one. -/
structure TriviaConvention (source : Text) (scanned : Scan) : Prop where
  runs : ∀ t ∈ scanned.tokens,
    t.leading = .ofList t.leading.toList ∧ t.trailing = .ofList t.trailing.toList
  newline_last : ∀ t ∈ scanned.tokens, ∀ xs p ys,
    t.trailing.toList = xs ++ p :: ys → p.kind = .newline → ys = []
  leading : ∀ front t u rest, scanned.tokens = front ++ t :: u :: rest →
    u.leading.toList ≠ [] → ∃ xs p, t.trailing.toList = xs ++ [p] ∧ p.kind = .newline
  pieces : ∀ t ∈ scanned.tokens, ∀ place ∈ t.placedTrivia,
    place.2.text ≠ [] ∧ place.2.StandsIn source place.1
  blanks : ∀ t ∈ scanned.tokens, BlanksApart t.leading.toList
  blanks_between : ∀ front t u rest, scanned.tokens = front ++ t :: u :: rest →
    BlanksApart (t.trailing.toList ++ u.leading.toList)
  reported : ∀ t ∈ scanned.tokens, ∀ place ∈ t.placedTrivia, place.2.kind = .skippedText →
    scanned.diagnostics.count
      ⟨place.1, place.1 + place.2.width, "unterminated comment"⟩ = 1
  reports : scanned.diagnostics.filter (fun d => d.message == "unterminated comment") =
    (scanned.tokens.flatMap ScannedToken.openComments).map Scan.unterminatedComment

/-- The steps of a run keep the convention. -/
theorem Scanner.Scans.triviaConvention {source : Text} {steps : List ScanStep} {scanned : Scan}
    (h : Scans (.start source) steps) (htokens : scanned.tokens = steps.map ScanStep.token)
    (hreports : scanned.diagnostics = steps.flatMap ScanStep.diagnostics) :
    TriviaConvention source scanned := by
  have hparts : ∀ t ∈ scanned.tokens, ∃ before place step, AtSeam source before place ∧
      place.Parts step ∧ step.token = t := by
    rw [htokens]
    refine List.forall_mem_map.mpr fun step hstep => ?_
    obtain ⟨before, place, hplace, hparts⟩ :=
      h.exists_parts (fun _ _ _ => AtSeam.next) (atSeam_start source) step hstep
    exact ⟨before, place, step, hplace, hparts, rfl⟩
  constructor
  case runs =>
    intro t ht
    obtain ⟨_, _, _, _, hstep, rfl⟩ := hparts t ht
    have hformed := hstep.takes.formed
    exact ⟨hformed.leading.ofList_toList.symm, hformed.trailing.ofList_toList.symm⟩
  case newline_last =>
    intro t ht xs p ys hitems hkind
    obtain ⟨_, _, _, _, hstep, rfl⟩ := hparts t ht
    exact hstep.trailing_ends.newline_last hitems hkind
  case leading =>
    intro front t u rest heq hne
    obtain ⟨_, _, step, next, _, hstep, rfl, _, hnext, rfl⟩ :=
      h.of_neighbours (fun _ _ _ => AtSeam.next) (atSeam_start source) (htokens.symm.trans heq)
    exact (parts_of_next hstep).trailing_ends.exists_newline (parts_of_next hnext).leading hne
  case pieces =>
    intro t ht place hplace
    obtain ⟨_, _, _, hseam, hstep, rfl⟩ := hparts t ht
    have hstands := hseam.standIn hstep place hplace
    obtain ⟨_, _, _, _, hfits⟩ := id hstands
    exact ⟨hfits.form.text_ne_nil, hstands⟩
  case blanks =>
    intro t ht
    obtain ⟨_, _, _, _, hstep, rfl⟩ := hparts t ht
    exact hstep.leading.blanksApart
  case blanks_between =>
    intro front t u rest heq
    obtain ⟨_, _, step, next, _, hstep, rfl, _, hnext, rfl⟩ :=
      h.of_neighbours (fun _ _ _ => AtSeam.next) (atSeam_start source) (htokens.symm.trans heq)
    exact ((parts_of_next hstep).trailing.append (parts_of_next hnext).leading).blanksApart
  case reported =>
    intro t ht place hplace hkind
    have hopen : (place.1, place.1 + place.2.width) ∈ t.openComments :=
      List.mem_map.mpr ⟨place, List.mem_filter.mpr ⟨hplace, by simpa using hkind⟩, rfl⟩
    have hmem := List.mem_flatMap.mpr ⟨t, ht, hopen⟩
    rw [htokens] at hmem
    rw [hreports]
    exact h.count_comment hmem
  case reports => rw [hreports, htokens, h.comments]

/-- Every text that offsets can count is scanned into tokens that carry their trivia as the
convention says. -/
theorem scan_keeps_triviaConvention (source : Text) (h : source.width < Offset.limit) :
    ∃ scanned, scan source = .ok scanned ∧ TriviaConvention source scanned := by
  obtain ⟨scanned, steps, hscan, hscans, htokens, hreports⟩ := exists_scans source h
  exact ⟨scanned, hscan, hscans.triviaConvention htokens hreports⟩

/-- A text with blanks around line breaks of all forms, comments of all forms, and a comment
that is not closed. -/
def commentedSource : Text :=
  "\t// é\u2028\r\nx /* \r */ \t// y\r= 1 \u2029  // z\n\r/* */ /*/ 😀 ".toList

theorem width_commentedSource : commentedSource.width < Offset.limit := by
  decide

theorem scan_commentedSource_keeps_triviaConvention :
    commentedSource.width < Offset.limit ∧
      ∃ scanned, scan commentedSource = .ok scanned ∧
        TriviaConvention commentedSource scanned :=
  ⟨width_commentedSource, scan_keeps_triviaConvention commentedSource width_commentedSource⟩

end Verbatim
