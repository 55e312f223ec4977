/-
  Texts in byte order, and sets of texts kept in that order.

  UTF-8 preserves the order of code points, so comparing character by character
  orders texts as their bytes do.
-/
import Verbatim.Text.Basic

set_option autoImplicit false

namespace Verbatim.Text

/-- A text comes strictly before another one in byte order. -/
def before : Text → Text → Bool
  | _, [] => false
  | [], _ :: _ => true
  | c :: s, d :: t => if c = d then before s t else decide (c.toNat < d.toNat)

/-- Adds a text to an ascending list without repetition. -/
def insertSorted (t : Text) : List Text → List Text
  | [] => [t]
  | s :: rest =>
      if t = s then s :: rest
      else if before t s then t :: s :: rest
      else s :: insertSorted t rest

/-- The distinct texts of a list in ascending order. -/
def sortedSet (ts : List Text) : List Text :=
  ts.foldl (fun set t => insertSorted t set) []

end Verbatim.Text
