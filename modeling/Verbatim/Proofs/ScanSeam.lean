/-
  Scanning a text behind another one.

  A token of a text whose last line is ended is scanned in the same way with more text
  behind, if something of the text is left behind the token or the line break is the
  trivia behind it.  A scanner only ever looks ahead, and the position where it starts is
  added to all positions that it finds.  So where a text ends with a token and a line
  break behind it, the scan of that text and the scan of what comes behind it, further
  on, are the scan of both.
-/
import Verbatim.Proofs.Lookahead
import Verbatim.Proofs.Shifting

set_option autoImplicit false

namespace Verbatim

/-! ## Positions further on -/

/-- The place in the same text, further on. -/
def Scanner.shift (n : Nat) (s : Scanner) : Scanner :=
  ⟨s.rest, s.offset + n⟩

/-- The step further on. -/
def ScanStep.shift (n : Nat) (step : ScanStep) : ScanStep :=
  ⟨step.token.shift n, step.diagnostics.map (Diagnostic.shift n), step.after.shift n⟩

/-- The scan of a text that stands further on. -/
def Scan.shift (n : Nat) (scanned : Scan) : Scan :=
  ⟨scanned.tokens.map (ScannedToken.shift n), scanned.diagnostics.map (Diagnostic.shift n)⟩

namespace Scan

/-- The run further on. -/
def Run.shift (n : Nat) (run : Run) : Run :=
  { run with diagnostics := run.diagnostics.map (Diagnostic.shift n) }

theorem triviaRun_shift (trailing : Bool) (budget offset n : Nat) (t : Text) :
    triviaRun trailing budget (offset + n) t = (triviaRun trailing budget offset t).shift n := by
  induction budget generalizing offset t with
  | zero => rfl
  | succ budget ih =>
      simp only [triviaRun]
      cases trivia? t with
      | none => rfl
      | some found =>
          obtain ⟨kind, cut⟩ := found
          have hmore := ih (offset + cut.front.width) cut.back
          rw [Nat.add_right_comm] at hmore
          simp only [hmore]
          by_cases hskipped : kind = .skippedText <;>
            by_cases hstop : trailing && kind == .newline <;>
              simp [hskipped, hstop, Run.shift, Diagnostic.shift, Nat.add_right_comm]

end Scan

namespace Scanner

theorem significant_shift (start n : Nat) (t : Text) :
    significant (start + n) t =
      ((significant start t).1, (significant start t).2.1,
        (significant start t).2.2.map (Diagnostic.shift n)) := by
  cases t with
  | nil => rfl
  | cons c tail =>
      simp only [significant]
      split
      · rfl
      · simp [Diagnostic.shift, Nat.add_right_comm]

/-- The parts further on. -/
def Anatomy.shift (n : Nat) (parts : Anatomy) : Anatomy :=
  { parts with
    before := parts.before.shift n
    problems := parts.problems.map (Diagnostic.shift n)
    behind := parts.behind.shift n }

theorem anatomy_shift (n : Nat) (s : Scanner) : (s.shift n).anatomy = s.anatomy.shift n := by
  have hbefore := Scan.triviaRun_shift false s.rest.length s.offset n s.rest
  have hstart (w : Nat) : s.offset + n + w = s.offset + w + n := Nat.add_right_comm _ _ _
  have hbehind (kind : Kind) (stop : Nat) (t : Text) :
      behind kind (stop + n) t = (behind kind stop t).shift n := by
    unfold behind
    split
    · rfl
    · exact Scan.triviaRun_shift true t.length stop n t
  simp only [anatomy, shift, hbefore, Scan.Run.shift, hstart, significant_shift]
  rw [Nat.add_right_comm, hbehind]
  rfl

/-- A token further on is scanned from further on. -/
theorem next_shift {s : Scanner} {step : ScanStep} (h : s.next = .ok step) (n : Nat) :
    (s.shift n).next = .ok (step.shift n) := by
  obtain ⟨leading, trailing, hleading, htrailing, rfl⟩ := next_eq_ok_iff.mp h
  refine next_eq_ok_iff.mpr ⟨leading, trailing, ?_, ?_, ?_⟩
  · rw [anatomy_shift]
    exact hleading
  · rw [anatomy_shift]
    exact htrailing
  · rw [anatomy_shift]
    simp [ScanStep.shift, Anatomy.step, Anatomy.shift, Scan.Run.shift, shift, ScannedToken.shift,
      Nat.add_right_comm]

/-- A scan is put together from a step and the scan of what is left. -/
theorem scanFrom_cons {s : Scanner} {step : ScanStep} (h : s.next = .ok step)
    (heof : step.token.kind ≠ .eof) {budget : Nat} {more : Scan}
    (hmore : scanFrom budget step.after = .ok more) :
    scanFrom (budget + 1) s =
      .ok ⟨step.token :: more.tokens, step.diagnostics ++ more.diagnostics⟩ := by
  rw [scanFrom, h]
  simp only [bind, Except.bind, if_neg heof, hmore]
  rfl

/-- A scan ends with a step at the end of the file. -/
theorem scanFrom_eof {s : Scanner} {step : ScanStep} (h : s.next = .ok step)
    (heof : step.token.kind = .eof) (budget : Nat) :
    scanFrom (budget + 1) s = .ok ⟨[step.token], step.diagnostics⟩ := by
  rw [scanFrom, h]
  simp only [bind, Except.bind, if_pos heof]
  rfl

/-- A text further on has the same tokens and reports, further on. -/
theorem scanFrom_shift {budget : Nat} {s : Scanner} {scanned : Scan}
    (h : scanFrom budget s = .ok scanned) (n : Nat) :
    scanFrom budget (s.shift n) = .ok (scanned.shift n) := by
  induction budget generalizing s scanned with
  | zero => cases h
  | succ budget ih =>
      obtain ⟨step, hstep, ⟨heof, rfl⟩ | ⟨heof, more, hmore, rfl⟩⟩ := exists_of_scanFrom h
      · exact scanFrom_eof (next_shift hstep n) heof budget
      · rw [scanFrom_cons (next_shift hstep n) heof (ih hmore)]
        simp [Scan.shift, ScanStep.shift]

/-- More budget than enough changes nothing. -/
theorem scanFrom_mono {budget budget' : Nat} {s : Scanner} {scanned : Scan}
    (h : scanFrom budget s = .ok scanned) (hle : budget ≤ budget') :
    scanFrom budget' s = .ok scanned := by
  induction budget generalizing budget' s scanned with
  | zero => cases h
  | succ budget ih =>
      cases budget' with
      | zero => cases hle
      | succ budget' =>
          obtain ⟨step, hstep, ⟨heof, rfl⟩ | ⟨heof, more, hmore, rfl⟩⟩ := exists_of_scanFrom h
          · exact scanFrom_eof hstep heof budget'
          · exact scanFrom_cons hstep heof (ih hmore (Nat.le_of_succ_le_succ hle))

/-- With enough budget for both, two scans are the same. -/
theorem scanFrom_det {budget budget' : Nat} {s : Scanner} {scanned scanned' : Scan}
    (h : scanFrom budget s = .ok scanned) (h' : scanFrom budget' s = .ok scanned') :
    scanned = scanned' := by
  have hleft := scanFrom_mono h (Nat.le_max_left budget budget')
  have hright := scanFrom_mono h' (Nat.le_max_right budget budget')
  exact Except.ok.inj (hleft.symm.trans hright)

end Scanner

/-! ## More text behind -/

/-- The place with more text behind what is left. -/
def Scanner.before (s : Scanner) (t : Text) : Scanner :=
  ⟨s.rest ++ t, s.offset⟩

/-- The step with more text behind what is left. -/
def ScanStep.before (step : ScanStep) (t : Text) : ScanStep :=
  { step with after := step.after.before t }

namespace Scanner

/-- Significant text that something is left over behind is cut off in the same way with
more text behind. -/
theorem significant_append {start : Nat} {t : Text} (hback : (significant start t).2.1.back ≠ [])
    (more : Text) :
    significant start (t ++ more) =
      ((significant start t).1, (significant start t).2.1.before more,
        (significant start t).2.2) := by
  cases t with
  | nil => exact absurd rfl hback
  | cons c tail =>
      simp only [significant, List.cons_append, Scan.lexeme_append (.inl hback) (.inr hback)]
      rfl

/-- The parts with more text behind. -/
def Anatomy.followedBy (parts : Anatomy) (t : Text) : Anatomy :=
  { parts with
    before := parts.before.before t
    cut := parts.cut.before t
    behind := parts.behind.before t }

/-- The run behind a token, with more text behind what is left. -/
theorem behind_append {kind : Kind} (hkind : kind ≠ .eof) {stop : Nat} {t : Text}
    (hends : Scan.EndsLine t) (hsilent : (behind kind stop t).diagnostics = []) (more : Text) :
    behind kind stop (t ++ more) = (behind kind stop t).before more := by
  simp only [behind, if_neg hkind] at hsilent ⊢
  exact Scan.triviaRun_append hends (Nat.le_refl _) (by simp) hsilent (.inl rfl) more

/-- A token that something is left over behind is cut into the same parts with more text
behind, if nothing is reported of the trivia on both sides. -/
theorem anatomy_append {s : Scanner} (hends : Scan.EndsLine s.rest) (hkind : s.anatomy.kind ≠ .eof)
    (hbefore : s.anatomy.before.diagnostics = []) (hbehind : s.anatomy.behind.diagnostics = [])
    (hback : s.anatomy.cut.back ≠ []) (more : Text) :
    (s.before more).anatomy = s.anatomy.followedBy more := by
  generalize hrun : Scan.triviaRun false s.rest.length s.offset s.rest = before
  obtain ⟨kind, cut, problems, hfound, hwhole, _⟩ :=
    significant_spec (s.offset + before.cut.front.width) before.cut.back
  rw [anatomy_eq hrun hfound] at hkind hbefore hbehind hback ⊢
  dsimp only at hkind hbefore hbehind hback
  have hne : before.cut.back ≠ [] := by
    intro hnil
    rw [hnil] at hfound
    exact hkind (congrArg Prod.fst hfound).symm
  have hspells : before.cut.whole = s.rest := by
    rw [← hrun]
    exact Scan.whole_triviaRun false s.rest.length s.offset s.rest
  have hends' : Scan.EndsLine before.cut.back := by
    rw [← hspells] at hends
    exact hends.back hne
  have hends'' : Scan.EndsLine cut.back := by
    rw [← hwhole] at hends'
    exact hends'.back hback
  have hrun' : Scan.triviaRun false (s.rest ++ more).length s.offset (s.rest ++ more) =
      before.before more := by
    rw [← hrun] at hbefore hne ⊢
    exact Scan.triviaRun_append hends (Nat.le_refl _) (by simp) hbefore (.inr hne) more
  have hfound' : significant (s.offset + before.cut.front.width) (before.cut.back ++ more) =
      (kind, cut.before more, problems) := by
    rw [significant_append (by rw [hfound]; exact hback), hfound]
  rw [anatomy_eq hrun' hfound']
  exact congrArg (Anatomy.mk (before.before more) kind (cut.before more) problems)
    (behind_append hkind hends'' hbehind more)

/-- A token is scanned in the same way with more text behind a text whose last line is
ended, if something of that text comes behind the token and nothing is reported. -/
theorem next_append {s : Scanner} {step : ScanStep} (h : s.next = .ok step)
    (hends : Scan.EndsLine s.rest) (heof : step.token.kind ≠ .eof)
    (hsilent : step.diagnostics = [])
    (hbehind : step.token.trailing.text ++ step.after.rest ≠ []) (more : Text) :
    (s.before more).next = .ok (step.before more) := by
  obtain ⟨leading, trailing, hleading, htrailing, rfl⟩ := next_eq_ok_iff.mp h
  obtain ⟨hsilent, hquiet⟩ := List.append_eq_nil_iff.mp hsilent
  have hback : s.anatomy.cut.back ≠ [] := by
    have hwhole : s.anatomy.behind.cut.whole = s.anatomy.cut.back := (behind_spec _ _ _).1
    obtain ⟨items, hfront, _, rfl⟩ := TriviaList.exists_of_ofPieces htrailing
    rw [← TriviaList.ofList_text] at hfront
    rw [← hwhole, Cut.whole, hfront]
    exact hbehind
  have hparts := anatomy_append hends heof (List.append_eq_nil_iff.mp hsilent).1 hquiet hback more
  refine next_eq_ok_iff.mpr ⟨leading, trailing, ?_, ?_, ?_⟩
  · rw [hparts]
    exact hleading
  · rw [hparts]
    exact htrailing
  · rw [hparts]
    rfl

/-- Where a text ends with a token and the line break behind it, the tokens of the text
are scanned, and then what comes behind. -/
theorem scanFrom_append {budget budget' : Nat} {s : Scanner} {front : List ScannedToken}
    {last eof : ScannedToken} (h : scanFrom budget s = .ok ⟨front ++ [last, eof], []⟩)
    (hends : Scan.EndsLine s.rest) (htrailing : last.trailing.text ≠ []) (heof : eof.fullText = [])
    {more : Text} {scanned : Scan}
    (hmore : scanFrom budget' ⟨more, s.offset + s.rest.width⟩ = .ok scanned) :
    scanFrom (front.length + 1 + budget') (s.before more) =
      .ok ⟨front ++ last :: scanned.tokens, scanned.diagnostics⟩ := by
  induction front generalizing budget s with
  | nil =>
      obtain ⟨step, behind, hstep, rfl, hkind, hsilent, hbehind⟩ :=
        exists_step_of_scanFrom h (List.cons_ne_nil _ _)
      have htakes := takes_of_next hstep
      have hrest : step.after.rest = [] := by
        rw [← (covers_of_scanFrom hbehind).spells]
        simpa using heof
      have hnext := next_append hstep hends hkind hsilent
        (fun hnil => htrailing (List.append_eq_nil_iff.mp hnil).1) more
      have hplace : (step.before more).after = ⟨more, s.offset + s.rest.width⟩ := by
        rw [htakes.rest_eq, hrest, List.append_nil, ← htakes.offset_eq, ScanStep.before, before,
          hrest]
        rfl
      rw [← hplace] at hmore
      have hscan := scanFrom_cons hnext hkind hmore
      rw [ScanStep.before, hsilent] at hscan
      rw [Nat.add_comm]
      exact hscan
  | cons t front ih =>
      obtain ⟨step, behind, hstep, rfl, hkind, hsilent, hbehind⟩ :=
        exists_step_of_scanFrom h (by simp)
      have htakes := takes_of_next hstep
      -- The last line is ended behind the token, because a token comes behind it.
      have hrest : step.after.rest ≠ [] := by
        rw [← (covers_of_scanFrom hbehind).spells]
        simp [ScannedToken.fullText, htrailing]
      have hleft : Scan.EndsLine step.after.rest := by
        have hwhole : Scan.EndsLine (Cut.mk step.token.fullText step.after.rest).whole := by
          rw [Cut.whole, ← htakes.rest_eq]
          exact hends
        exact hwhole.back hrest
      have hplace : step.after.offset + step.after.rest.width = s.offset + s.rest.width := by
        rw [htakes.offset_eq, htakes.rest_eq, Text.width_append, Nat.add_assoc]
      rw [← hplace] at hmore
      have hnext := next_append hstep hends hkind hsilent
        (fun hnil => hrest (List.append_eq_nil_iff.mp hnil).2) more
      have hscan := scanFrom_cons hnext hkind (ih hbehind hleft hmore)
      rw [ScanStep.before, hsilent] at hscan
      rw [List.length_cons, Nat.add_right_comm _ 1 1, Nat.add_right_comm _ 1 budget']
      exact hscan

end Scanner

/-! ## Two texts -/

/-- A token of a row of tokens ends behind the text of all tokens up to it. -/
theorem Tiles.fullStop_eq {offset : Nat} {front rest : List ScannedToken} {t : ScannedToken}
    (h : Tiles offset (front ++ t :: rest)) :
    t.fullStop = offset + Text.width ((front ++ [t]).flatMap ScannedToken.fullText) := by
  induction front generalizing offset with
  | nil =>
      obtain ⟨hformed, hstart, _⟩ := h
      rw [List.nil_append, List.flatMap_singleton, ScannedToken.width_fullText,
        ScannedToken.fullStop, hformed.stop_eq, hstart]
      omega
  | cons head front ih =>
      rw [ih h.2.2, List.cons_append, List.flatMap_cons, Text.width_append, Nat.add_assoc]

/-- Where the first text ends with the line break behind its last token, the tokens of both
texts are the tokens of the one without the end of the file and those of the other,
further on. -/
theorem scan_append {a b : Text} (hwidth : (a ++ b).width < Offset.limit)
    {front : List ScannedToken} {last eof : ScannedToken}
    (h : scan a = .ok ⟨front ++ [last, eof], []⟩) (hstop : last.fullStop = a.width)
    (hline : Scan.EndsLine last.trailing.text) {scanned : Scan} (hb : scan b = .ok scanned) :
    scan (a ++ b) = .ok ⟨front ++ last :: (scanned.shift a.width).tokens,
      (scanned.shift a.width).diagnostics⟩ := by
  have hcovers : Scanner.Covers 0 a _ := Scanner.covers_of_scanFrom h
  have hspells : (front ++ [last]).flatMap ScannedToken.fullText ++ eof.fullText = a := by
    rw [← hcovers.spells]
    simp
  have heof : eof.fullText = [] := by
    have hwidth := congrArg Text.width hspells
    rw [Text.width_append, ← hstop, hcovers.tiles.fullStop_eq] at hwidth
    exact Text.width_eq_zero_iff.mp (by omega)
  have hends : Scan.EndsLine a := by
    rw [← hspells, heof, List.append_nil, List.flatMap_append, List.flatMap_singleton]
    exact (hline.append _).append _
  have hmore := Scanner.scanFrom_shift hb a.width
  have hscan := Scanner.scanFrom_append h hends hline.ne_nil heof hmore
  obtain ⟨whole, hwhole, _⟩ := scan_covers (a ++ b) hwidth
  have hsame := Scanner.scanFrom_det hwhole hscan
  rw [hwhole, hsame]

end Verbatim
