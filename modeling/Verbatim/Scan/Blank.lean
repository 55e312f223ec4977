/-
  Trivia between the significant parts of tokens.

  A run of trivia is cut into pieces from the left: a line break, a line comment
  up to the end of its line, a block comment, or a stretch of blanks that holds no
  line break.  A block comment that is never closed takes the rest of the text; it
  is kept as skipped text and reported.
-/
import Verbatim.Diagnostic
import Verbatim.Text.CharClass
import Verbatim.Text.Cut
import Verbatim.Trivia.Basic

set_option autoImplicit false

namespace Verbatim.Scan

open Text

/-- The cut behind the first `*/`. -/
def closedCut? : Text → Option Cut
  | [] => none
  | '*' :: '/' :: rest => some ⟨['*', '/'], rest⟩
  | c :: rest => (closedCut? rest).map (Cut.after [c])

theorem whole_closedCut? {t : Text} {cut : Cut} (h : closedCut? t = some cut) :
    cut.whole = t := by
  fun_induction closedCut? t generalizing cut with
  | case1 => cases h
  | case2 rest => cases h; rfl
  | case3 c rest _ ih =>
      obtain ⟨inner, hinner, rfl⟩ := Option.map_eq_some_iff.mp h
      rw [Cut.whole_after, ih hinner, List.singleton_append]

/-- Kind of the trivia that a text starts with, and the cut behind it. -/
def trivia? (t : Text) : Option (TriviaKind × Cut) :=
  match t with
  | [] => none
  | '\r' :: '\n' :: rest => some (.newline, ⟨['\r', '\n'], rest⟩)
  | '/' :: '/' :: _ => some (.singleLineComment, .span (fun c => !isLineBreak c) t)
  | '/' :: '*' :: rest =>
      match closedCut? rest with
      | some cut => some (.multiLineComment, cut.after ['/', '*'])
      | none => some (.skippedText, .all t)
  | c :: rest =>
      if isLineBreak c then some (.newline, ⟨[c], rest⟩)
      else if isBlank c then
        some (.whitespace, .span (fun c => isBlank c && !isLineBreak c) t)
      else none

theorem whole_trivia? {t : Text} {kind : TriviaKind} {cut : Cut}
    (h : trivia? t = some (kind, cut)) : cut.whole = t := by
  unfold trivia? at h
  split at h
  · cases h
  · cases h; rfl
  · cases h; exact Cut.whole_span _ _
  · split at h
    · rename_i inner hinner
      cases h
      rw [Cut.whole_after, whole_closedCut? hinner]
      rfl
    · cases h; exact Cut.whole_all _
  · split at h
    · cases h; rfl
    · split at h
      · cases h; exact Cut.whole_span _ _
      · cases h

/-- A run of trivia: its pieces, the cut behind it, and the problems found in it. -/
structure Run where
  pieces : List TriviaPiece
  cut : Cut
  diagnostics : List Diagnostic
  deriving DecidableEq, Repr, Inhabited

/-- Scans at most `budget` pieces from an absolute offset on.  A run behind a
token ends with the first line break. -/
def triviaRun (trailing : Bool) : Nat → Nat → Text → Run
  | 0, _, t => ⟨[], .none t, []⟩
  | budget + 1, offset, t =>
      match trivia? t with
      | none => ⟨[], .none t, []⟩
      | some (kind, cut) =>
          let stop := offset + cut.front.width
          let piece : TriviaPiece := ⟨kind, cut.front.width⟩
          let problems : List Diagnostic :=
            if kind = .skippedText then [⟨offset, stop, "unterminated comment"⟩] else []
          if trailing && kind == .newline then ⟨[piece], cut, problems⟩
          else
            let more := triviaRun trailing budget stop cut.back
            ⟨piece :: more.pieces, more.cut.after cut.front, problems ++ more.diagnostics⟩

/-- A run takes its pieces off the front and leaves the rest as it is. -/
theorem whole_triviaRun (trailing : Bool) (budget offset : Nat) (t : Text) :
    (triviaRun trailing budget offset t).cut.whole = t := by
  fun_induction triviaRun trailing budget offset t with
  | case1 => rfl
  | case2 => rfl
  | case3 budget offset t kind cut h _ _ _ _ => exact whole_trivia? h
  | case4 budget offset t kind cut h stop _ _ _ more ih =>
      rw [Cut.whole_after, ih]
      exact whole_trivia? h

end Verbatim.Scan
