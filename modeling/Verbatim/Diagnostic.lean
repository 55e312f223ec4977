/-
  Diagnostics: problems of the source, each anchored to a byte range.

  Diagnostics are ordered by where they start.  Sorting is stable, so problems
  that start at one place keep the order in which they were found.
-/
import Verbatim.Text.Basic

set_option autoImplicit false

namespace Verbatim

/-- A problem found in the source. -/
structure Diagnostic where
  start : Nat
  stop : Nat
  message : String
  deriving DecidableEq, Repr, Inhabited

namespace Diagnostic

/-- Puts a diagnostic in front of the first one that does not start before it. -/
def insert (d : Diagnostic) : List Diagnostic → List Diagnostic
  | [] => [d]
  | e :: rest => if d.start ≤ e.start then d :: e :: rest else e :: insert d rest

/-- Orders diagnostics by their start, keeping the order of those that start at
one place. -/
def sort (ds : List Diagnostic) : List Diagnostic :=
  ds.foldr insert []

/-- Putting a diagnostic in keeps all others. -/
theorem insert_perm (d : Diagnostic) (ds : List Diagnostic) : (insert d ds).Perm (d :: ds) := by
  induction ds with
  | nil => exact .refl _
  | cons e rest ih =>
    simp only [insert]
    split
    · exact .refl _
    · exact (List.Perm.cons e ih).trans (.swap d e rest)

/-- Sorting loses and invents nothing. -/
theorem sort_perm (ds : List Diagnostic) : (sort ds).Perm ds := by
  induction ds with
  | nil => exact .refl _
  | cons d rest ih => exact (insert_perm d _).trans (.cons d ih)

end Diagnostic

end Verbatim
