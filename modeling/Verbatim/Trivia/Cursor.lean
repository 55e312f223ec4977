/-
  Iterating a run of trivia from both ends.

  A cursor holds what has not been handed out yet: the middle of the run's text
  and the middle of its pieces.  Each step cuts one piece off one end.
-/
import Verbatim.Trivia.Basic

set_option autoImplicit false

namespace Verbatim

/-- What remains of a run of trivia between its two ends. -/
structure TriviaCursor where
  text : Text
  pieces : List TriviaPiece
  deriving DecidableEq, Repr, Inhabited

namespace TriviaCursor

/-- Pieces that have not been handed out. -/
def remaining (c : TriviaCursor) : Nat :=
  c.pieces.length

/-- Hands out the first remaining piece. -/
def next (c : TriviaCursor) : Except Fault (Option Trivia × TriviaCursor) :=
  match c.pieces with
  | [] => .ok (none, c)
  | p :: rest =>
      match c.text.splitAt? p.length with
      | none => .error .cut
      | some (front, back) => .ok (some ⟨p.kind, front⟩, ⟨back, rest⟩)

/-- Hands out the last remaining piece. -/
def nextBack (c : TriviaCursor) : Except Fault (Option Trivia × TriviaCursor) :=
  match c.pieces.getLast? with
  | none => .ok (none, c)
  | some p =>
      if p.length ≤ c.text.width then
        match c.text.splitAt? (c.text.width - p.length) with
        | none => .error .cut
        | some (front, back) => .ok (some ⟨p.kind, back⟩, ⟨front, c.pieces.dropLast⟩)
      else .error .cut

end TriviaCursor

namespace TriviaList

/-- A cursor over the whole run. -/
def cursor (l : TriviaList) : TriviaCursor :=
  ⟨l.text, l.pieces⟩

/-- The piece at an index. -/
def get (l : TriviaList) (index : Nat) : Except LookupError Trivia :=
  match l.toList[index]? with
  | some t => .ok t
  | none => .error (.indexOutOfRange index l.count)

/-- The last piece. -/
def last? (l : TriviaList) : Option Trivia :=
  match l.cursor.nextBack with
  | .ok (t, _) => t
  | .error _ => none

end TriviaList

end Verbatim
