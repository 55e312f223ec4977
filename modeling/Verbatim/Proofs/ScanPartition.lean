/-
  Scanning step by step partitions the source.

  A session hands out the tokens that a scan of the whole text has, one by one, and
  comes to the end of the file after as many calls.  The ranges of the tokens, trivia
  included, follow one another from the start of the text to its end, and what a token
  carries is what the source has at its range.  Every run of trivia is covered by the
  pieces that it is cut into, so the run of a token is made without a fault.
-/
import Verbatim.Proofs.ScanTiling
import Verbatim.Scan.Session

set_option autoImplicit false

namespace Verbatim

/-! ## Ranges -/

/-- Tokens whose full ranges follow one another from `start` to `stop`. -/
def Contiguous : Nat → List ScannedToken → Nat → Prop
  | start, [], stop => start = stop
  | start, t :: rest, stop => t.fullStart = start ∧ Contiguous t.fullStop rest stop

/-- The source has the text of a token at its range, and has it with the trivia on both
sides at its full range.  The full range does not start before the text. -/
structure ScannedToken.FullSliceOf (t : ScannedToken) (source : Text) : Prop where
  leading_le : t.leading.width ≤ t.start
  text : source.slice? t.start t.stop = some t.text
  full : source.slice? t.fullStart t.fullStop = some (t.leading.text ++ t.text ++ t.trailing.text)

/-- A well-formed token spans its text and its trivia. -/
theorem ScannedToken.WellFormed.fullStop_eq {t : ScannedToken} (h : t.WellFormed) {offset : Nat}
    (hstart : t.start = offset + t.leading.width) : t.fullStop = offset + t.fullText.width := by
  rw [ScannedToken.fullStop, h.stop_eq, hstart, ScannedToken.width_fullText]
  omega

theorem Tiles.contiguous {offset : Nat} {tokens : List ScannedToken} (h : Tiles offset tokens) :
    Contiguous offset tokens (offset + Text.width (tokens.flatMap ScannedToken.fullText)) := by
  induction tokens generalizing offset with
  | nil => exact (Nat.add_zero offset).symm
  | cons t rest ih =>
      obtain ⟨hformed, hstart, hrest⟩ := h
      have hstop := hformed.fullStop_eq hstart
      refine ⟨by rw [ScannedToken.fullStart, hstart, Nat.add_sub_cancel], ?_⟩
      rw [hstop, List.flatMap_cons, Text.width_append, ← Nat.add_assoc]
      exact ih hrest

/-- The last of contiguous ranges ends where they all end. -/
theorem Contiguous.fullStop_last {start stop : Nat} {front : List ScannedToken}
    {last : ScannedToken} (h : Contiguous start (front ++ [last]) stop) : last.fullStop = stop := by
  induction front generalizing start with
  | nil => exact h.2
  | cons t rest ih => exact ih h.2

/-- Every tile stands somewhere in the text that the tiles spell. -/
theorem Tiles.exists_place {tokens : List ScannedToken} {before : Text}
    (h : Tiles before.width tokens) :
    ∀ t ∈ tokens, ∃ front back,
      before ++ tokens.flatMap ScannedToken.fullText = front ++ t.fullText ++ back ∧
        t.start = front.width + t.leading.width := by
  induction tokens generalizing before with
  | nil => exact List.forall_mem_nil _
  | cons head rest ih =>
      obtain ⟨_, hstart, hrest⟩ := h
      refine List.forall_mem_cons.mpr
        ⟨⟨before, rest.flatMap ScannedToken.fullText, ?_, hstart⟩, fun t ht => ?_⟩
      · rw [List.flatMap_cons, List.append_assoc]
      · rw [← Text.width_append] at hrest
        obtain ⟨front, back, hplace, htstart⟩ := ih hrest t ht
        refine ⟨front, back, ?_, htstart⟩
        rw [← hplace, List.flatMap_cons, List.append_assoc]

theorem Tiles.fullSliceOf {tokens : List ScannedToken} (h : Tiles 0 tokens) :
    ∀ t ∈ tokens, t.FullSliceOf (tokens.flatMap ScannedToken.fullText) := by
  intro t ht
  have hformed := h.wellFormed t ht
  have htiles : Tiles (Text.width []) tokens := h
  obtain ⟨front, back, hplace, hstart⟩ := htiles.exists_place t ht
  have hsource : tokens.flatMap ScannedToken.fullText = front ++ t.fullText ++ back := hplace
  have hfullStart : t.fullStart = front.width := by
    rw [ScannedToken.fullStart, hstart, Nat.add_sub_cancel]
  rw [hsource]
  refine ⟨by rw [hstart]; exact Nat.le_add_left _ _, (hformed.sliceOf hstart back).text, ?_⟩
  rw [hfullStart, hformed.fullStop_eq hstart]
  exact Text.slice?_append front t.fullText back

/-! ## Runs of trivia -/

/-- The pieces of a run have the width of the text that the run takes off. -/
theorem Scan.widthAll_triviaRun (trailing : Bool) (budget offset : Nat) (t : Text) :
    TriviaPiece.widthAll (triviaRun trailing budget offset t).pieces =
      (triviaRun trailing budget offset t).cut.front.width := by
  obtain ⟨items, hfront, hpieces, _⟩ := triviaRun_spec trailing budget offset t
  rw [hfront, hpieces, width_flatMap_text]

/-! ## The end of the file -/

namespace Scanner

/-- Nothing comes behind the end of the file, not even a piece without text. -/
theorem trailing_eq_empty_of_eof {s : Scanner} {step : ScanStep} (h : s.next = .ok step)
    (heof : step.token.kind = .eof) : step.token.trailing = .empty := by
  obtain ⟨leading, trailing, _, htrailing, rfl⟩ := next_eq_ok_iff.mp h
  have hkind : s.anatomy.kind = .eof := heof
  have hbehind : s.anatomy.behind.cut.front = [] ∧ s.anatomy.behind.pieces = [] := by
    have hnone (stop : Nat) (t : Text) : behind .eof stop t = ⟨[], .none t, []⟩ := if_pos rfl
    rw [show s.anatomy.behind = behind s.anatomy.kind _ _ from rfl, hkind, hnone]
    exact ⟨rfl, rfl⟩
  rw [hbehind.1, hbehind.2] at htrailing
  exact (Except.ok.inj htrailing).symm

end Scanner

/-! ## Sessions -/

namespace ScanSession

/-- Hands out so many tokens, one after the other. -/
def nextMany : Nat → ScanSession → Except Fault (List ScannedToken × ScanSession)
  | 0, s => .ok ([], s)
  | count + 1, s => do
      let (t, s) ← s.next
      let (tokens, s) ← nextMany count s
      return (t :: tokens, s)

/-- The session has scanned the token at a place and stands behind it. -/
structure AheadOf (s : ScanSession) (place : Scanner) (step : ScanStep) : Prop where
  next_eq : place.next = .ok step
  current_eq : s.current = step.token
  place_eq : s.place = step.after

theorem AheadOf.next {s : ScanSession} {place : Scanner} {step step' : ScanStep}
    (h : s.AheadOf place step) (hnext : step.after.next = .ok step') :
    ∃ s', s.next = .ok (step.token, s') ∧ s'.AheadOf step.after step' := by
  refine ⟨⟨step'.token, step'.after, s.pending ++ step'.diagnostics⟩, ?_, hnext, rfl, rfl⟩
  unfold ScanSession.next
  rw [h.place_eq, hnext, h.current_eq]
  rfl

end ScanSession

/-! ## Whole texts -/

namespace Scanner

theorem trailing_eq_empty_of_scanFrom {budget : Nat} {place : Scanner} {scanned : Scan}
    (h : scanFrom budget place = .ok scanned) :
    ∀ t ∈ scanned.tokens, t.kind = .eof → t.trailing = .empty := by
  induction budget generalizing place scanned with
  | zero => cases h
  | succ budget ih =>
      obtain ⟨step, hstep, ⟨_, rfl⟩ | ⟨_, more, hmore, rfl⟩⟩ := exists_of_scanFrom h
      · exact List.forall_mem_singleton.mpr (trailing_eq_empty_of_eof hstep)
      · exact List.forall_mem_cons.mpr ⟨trailing_eq_empty_of_eof hstep, ih hmore⟩

end Scanner

namespace ScanSession

/-- A session hands out the tokens of a scan, up to the end of the file.  To hand that
out it scans once more, at the end of the text. -/
theorem AheadOf.nextMany {budget : Nat} {place : Scanner} {step : ScanStep} {s : ScanSession}
    {scanned : Scan} (h : s.AheadOf place step) (hwidth : place.rest.width < Offset.limit)
    (hscan : Scanner.scanFrom budget place = .ok scanned) :
    ∃ s', s.nextMany scanned.tokens.length = .ok (scanned.tokens, s') := by
  induction budget generalizing place step s scanned with
  | zero => cases hscan
  | succ budget ih =>
      obtain ⟨found, hfound, hcases⟩ := Scanner.exists_of_scanFrom hscan
      have hsame : found = step := Except.ok.inj (hfound.symm.trans h.next_eq)
      subst hsame
      -- What is left behind the token is no wider than the text in front of it.
      have hrest := congrArg Text.width (Scanner.takes_of_next hfound).rest_eq
      rw [Text.width_append] at hrest
      obtain ⟨step', hstep', _⟩ := Scanner.next_takes found.after (by omega)
      obtain ⟨s', hnext, hahead⟩ := h.next hstep'
      rcases hcases with ⟨_, rfl⟩ | ⟨_, more, hmore, rfl⟩
      · refine ⟨s', ?_⟩
        rw [List.length_singleton, ScanSession.nextMany, hnext]
        rfl
      · obtain ⟨last, hlast⟩ := ih hahead (by omega) hmore
        refine ⟨last, ?_⟩
        rw [List.length_cons, ScanSession.nextMany, hnext]
        simp only [bind, Except.bind, hlast]
        rfl

/-- A session starts ahead of the text. -/
theorem exists_start {source : Text} (h : source.width < Offset.limit) :
    ∃ s step, start source = .ok s ∧ s.AheadOf (.start source) step := by
  obtain ⟨step, hstep, _⟩ := Scanner.next_takes (.start source) h
  refine ⟨⟨step.token, step.after, step.diagnostics⟩, step, ?_, hstep, rfl, rfl⟩
  rw [start, hstep]
  rfl

end ScanSession

/-- Tokens that partition a source: full ranges that follow one another over the whole
text, each token with what the source has there and with pieces that cover its trivia.
All but the last have text; the last is the end of the file, at the end of the text and
with nothing behind it. -/
structure Partitions (source : Text) (front : List ScannedToken) (eof : ScannedToken) : Prop where
  contiguous : Contiguous 0 (front ++ [eof]) source.width
  slices : ∀ t ∈ front ++ [eof], t.FullSliceOf source
  covered : ∀ t ∈ front ++ [eof],
    TriviaPiece.widthAll t.leading.pieces = t.leading.width ∧
      TriviaPiece.widthAll t.trailing.pieces = t.trailing.width
  significant : ∀ t ∈ front, t.kind ≠ .eof ∧ t.start < t.stop
  eof_kind : eof.kind = .eof
  eof_start : eof.start = source.width
  eof_stop : eof.stop = source.width
  eof_trailing : eof.trailing = .empty

theorem ScannedToken.WellFormed.start_lt_stop {t : ScannedToken} (h : t.WellFormed)
    (hkind : t.kind ≠ .eof) : t.start < t.stop := by
  have htext : t.text ≠ [] := fun hnil => hkind (h.text_eq_nil_iff.mp hnil)
  have hwidth : t.text.width ≠ 0 := fun hzero => htext (Text.width_eq_zero_iff.mp hzero)
  rw [h.stop_eq]
  omega

/-- The tokens of a scan partition the text. -/
theorem exists_partitions_of_scan {source : Text} {scanned : Scan}
    (hscan : scan source = .ok scanned) :
    ∃ front eof, scanned.tokens = front ++ [eof] ∧ Partitions source front eof := by
  have h : Scanner.Covers 0 source scanned := Scanner.covers_of_scanFrom hscan
  obtain ⟨front, eof, htokens, hkind, hfront⟩ := h.ends
  have hformed := h.tiles.wellFormed
  have hcontiguous := h.tiles.contiguous
  have hslices := h.tiles.fullSliceOf
  have htrailing := Scanner.trailing_eq_empty_of_scanFrom hscan
  rw [h.spells, Nat.zero_add] at hcontiguous
  rw [h.spells] at hslices
  rw [htokens] at hformed hcontiguous hslices htrailing
  have hmem : eof ∈ front ++ [eof] := List.mem_append_right _ (List.mem_singleton_self _)
  have hempty := htrailing eof hmem hkind
  have htext : eof.text = [] := (hformed eof hmem).text_eq_nil_iff.mpr hkind
  have hstop : eof.stop = source.width := by
    have hlast := hcontiguous.fullStop_last
    rw [ScannedToken.fullStop, hempty] at hlast
    exact hlast
  have hstart : eof.start = source.width := by
    have hrange := (hformed eof hmem).stop_eq
    rw [htext, hstop] at hrange
    exact hrange.symm
  refine ⟨front, eof, htokens, hcontiguous, hslices, fun t ht => ?_, fun t ht => ?_, hkind, hstart,
    hstop, hempty⟩
  · exact ⟨(hformed t ht).leading.width_eq.symm, (hformed t ht).trailing.width_eq.symm⟩
  · exact ⟨hfront t ht, (hformed t (List.mem_append_left _ ht)).start_lt_stop (hfront t ht)⟩

/-- Every text that offsets can count is scanned step by step without a fault: after
finitely many calls the end of the file is handed out, and the tokens up to it are those
of the whole scan and partition the text.  Whatever run of trivia a step takes off a
text, its pieces cover it. -/
theorem scanSession_partitions_source (source : Text) (h : source.width < Offset.limit) :
    (∃ first last scanned front eof,
      ScanSession.start source = .ok first ∧
      first.nextMany (front.length + 1) = .ok (front ++ [eof], last) ∧
      scan source = .ok scanned ∧ scanned.tokens = front ++ [eof] ∧
      Partitions source front eof) ∧
    ∀ (trailing : Bool) (budget offset : Nat) (t : Text),
      TriviaPiece.widthAll (Scan.triviaRun trailing budget offset t).pieces =
        (Scan.triviaRun trailing budget offset t).cut.front.width := by
  obtain ⟨scanned, hscan, _⟩ := scan_covers source h
  obtain ⟨front, eof, htokens, hpartitions⟩ := exists_partitions_of_scan hscan
  obtain ⟨first, step, hfirst, hahead⟩ := ScanSession.exists_start h
  obtain ⟨last, hlast⟩ := hahead.nextMany h hscan
  rw [htokens, List.length_append, List.length_singleton] at hlast
  exact ⟨⟨first, last, scanned, front, eof, hfirst, hlast, hscan, htokens, hpartitions⟩,
    Scan.widthAll_triviaRun⟩

/-- A text with a byte order mark, line breaks of several forms, characters of several
widths, an escaped line break, and a string and a comment that do not end. -/
def raggedSource : Text :=
  "\uFEFF// é\u2028\r\nx\r= 'a\\\r\n☃\n\x00 /* 😀".toList

theorem width_raggedSource : raggedSource.width < Offset.limit := by
  decide

theorem scanSession_partitions_raggedSource :
    raggedSource.width < Offset.limit ∧
      (∃ first last scanned front eof,
        ScanSession.start raggedSource = .ok first ∧
        first.nextMany (front.length + 1) = .ok (front ++ [eof], last) ∧
        scan raggedSource = .ok scanned ∧ scanned.tokens = front ++ [eof] ∧
        Partitions raggedSource front eof) ∧
      ∀ (trailing : Bool) (budget offset : Nat) (t : Text),
        TriviaPiece.widthAll (Scan.triviaRun trailing budget offset t).pieces =
          (Scan.triviaRun trailing budget offset t).cut.front.width :=
  ⟨width_raggedSource, scanSession_partitions_source raggedSource width_raggedSource⟩

end Verbatim
