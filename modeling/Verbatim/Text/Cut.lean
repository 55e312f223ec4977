/-
  Cutting a text in two.

  A cut is the front and the back of a text.  Scanning functions answer cuts, and
  each of them has the law that front and back together are the text again.
-/
import Verbatim.Text.Basic

set_option autoImplicit false

namespace Verbatim

/-- The front and the back of a text. -/
structure Cut where
  front : Text
  back : Text
  deriving DecidableEq, Repr, Inhabited

namespace Cut

/-- The text that was cut. -/
def whole (c : Cut) : Text :=
  c.front ++ c.back

/-- Nothing in front. -/
def none (t : Text) : Cut := ⟨[], t⟩

/-- Everything in front. -/
def all (t : Text) : Cut := ⟨t, []⟩

/-- The longest front whose characters all satisfy a predicate. -/
def span (p : Char → Bool) (t : Text) : Cut :=
  ⟨t.takeWhile p, t.dropWhile p⟩

/-- More text in front. -/
def after (t : Text) (c : Cut) : Cut :=
  ⟨t ++ c.front, c.back⟩

/-- Cuts on in the back. -/
def andThen (c : Cut) (f : Text → Cut) : Cut :=
  after c.front (f c.back)

@[simp] theorem whole_none (t : Text) : (none t).whole = t := rfl

@[simp] theorem whole_all (t : Text) : (all t).whole = t := by
  simp [whole, all]

@[simp] theorem whole_span (p : Char → Bool) (t : Text) : (Cut.span p t).whole = t := by
  simp [whole, Cut.span]

@[simp] theorem whole_after (t : Text) (c : Cut) : (after t c).whole = t ++ c.whole := by
  simp [whole, after]

theorem whole_andThen {c : Cut} {f : Text → Cut} (h : (f c.back).whole = c.back) :
    (c.andThen f).whole = c.whole := by
  rw [andThen, whole_after, h, whole]

end Cut

end Verbatim
