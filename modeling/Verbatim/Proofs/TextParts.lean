/-
  Parts of a text.

  A part of a text is given by the text in front of it and the text behind it; its place is
  the width of the former, counted from where the whole text starts.  A part of a part is a
  part, and the ends of a part are boundaries, at which the text can be cut.
-/
import Verbatim.Text.Basic

set_option autoImplicit false

namespace Verbatim.Text

/-! ## Ranges and boundaries -/

/-- The bytes `start..stop` are those of a part of a text that starts at an offset. -/
def HoldsRange (t : Text) (offset start stop : Nat) : Prop :=
  ∃ before inner after, t = before ++ inner ++ after ∧ start = offset + before.width ∧
    stop = start + inner.width

/-- A text can be cut at a boundary: it falls between two characters. -/
def IsBoundary (t : Text) (offset : Nat) : Prop :=
  (t.splitAt? offset).isSome = true

instance (t : Text) (offset : Nat) : Decidable (t.IsBoundary offset) :=
  inferInstanceAs (Decidable (_ = true))

theorem isBoundary_append (front back : Text) : IsBoundary (front ++ back) front.width := by
  rw [IsBoundary, splitAt?_append]
  rfl

theorem isBoundary_iff {t : Text} {offset : Nat} :
    t.IsBoundary offset ↔ ∃ front back, t = front ++ back ∧ width front = offset := by
  constructor
  · intro h
    obtain ⟨⟨front, back⟩, hcut⟩ := Option.isSome_iff_exists.mp h
    exact ⟨front, back, eq_append_of_splitAt? hcut⟩
  · rintro ⟨front, back, rfl, rfl⟩
    exact isBoundary_append front back

/-- Behind the front of a text, the boundaries are those of what is left. -/
theorem isBoundary_append_iff {front back : Text} {n : Nat} :
    IsBoundary (front ++ back) (front.width + n) ↔ back.IsBoundary n := by
  rw [isBoundary_iff, isBoundary_iff]
  constructor
  · rintro ⟨a, b, hcut, hwidth⟩
    rcases List.append_eq_append_iff.mp hcut with ⟨rest, rfl, hback⟩ | ⟨rest, rfl, rfl⟩
    · rw [width_append] at hwidth
      exact ⟨rest, b, hback, by omega⟩
    · -- The cut is not behind the front, so nothing of the front is left.
      rw [width_append] at hwidth
      exact ⟨[], back, rfl, by rw [width_nil]; omega⟩
  · rintro ⟨a, b, rfl, rfl⟩
    exact ⟨front ++ a, b, (List.append_assoc front a b).symm, width_append front a⟩

section Ranges

variable {t : Text} {offset start stop : Nat}

theorem holdsRange_whole (t : Text) (offset : Nat) :
    t.HoldsRange offset offset (offset + t.width) :=
  ⟨[], t, [], by simp, rfl, rfl⟩

theorem holdsRange_start (t : Text) (offset : Nat) : t.HoldsRange offset offset offset :=
  ⟨[], [], t, rfl, rfl, rfl⟩

theorem HoldsRange.append_right (h : t.HoldsRange offset start stop) (back : Text) :
    (t ++ back).HoldsRange offset start stop := by
  obtain ⟨before, inner, after, rfl, hstart, hstop⟩ := h
  exact ⟨before, inner, after ++ back, by simp, hstart, hstop⟩

theorem HoldsRange.append_left (front : Text) (h : t.HoldsRange (offset + front.width) start stop) :
    (front ++ t).HoldsRange offset start stop := by
  obtain ⟨before, inner, after, rfl, hstart, hstop⟩ := h
  exact ⟨front ++ before, inner, after, by simp, by rw [hstart, width_append, Nat.add_assoc], hstop⟩

/-- The empty range at the end of a part. -/
theorem HoldsRange.at_stop (h : t.HoldsRange offset start stop) :
    t.HoldsRange offset stop stop := by
  obtain ⟨before, inner, after, rfl, rfl, rfl⟩ := h
  exact ⟨before ++ inner, [], after, by simp, by rw [width_append, Nat.add_assoc], rfl⟩

/-- A range of a text lies in it. -/
theorem HoldsRange.within (h : t.HoldsRange offset start stop) :
    offset ≤ start ∧ start ≤ stop ∧ stop ≤ offset + t.width := by
  obtain ⟨before, middle, after, rfl, rfl, rfl⟩ := h
  rw [width_append, width_append]
  omega

end Ranges

/-! ## Places -/

/-- A text that starts at an offset has a part at a position. -/
def HasAt (t : Text) (offset position : Nat) (part : Text) : Prop :=
  ∃ before after, t = before ++ part ++ after ∧ position = offset + before.width

section Places

variable {t part inner : Text} {offset position inside : Nat}

theorem hasAt_whole (t : Text) (offset : Nat) : t.HasAt offset offset t :=
  ⟨[], [], by simp, rfl⟩

theorem HasAt.append_right (h : t.HasAt offset position part) (back : Text) :
    (t ++ back).HasAt offset position part := by
  obtain ⟨before, after, rfl, hposition⟩ := h
  exact ⟨before, after ++ back, by simp, hposition⟩

theorem HasAt.append_left (front : Text) (h : t.HasAt (offset + front.width) position part) :
    (front ++ t).HasAt offset position part := by
  obtain ⟨before, after, rfl, hposition⟩ := h
  exact ⟨front ++ before, after, by simp, by rw [hposition, width_append, Nat.add_assoc]⟩

/-- A part of a part is a part. -/
theorem HasAt.trans (h : t.HasAt offset position part) (h' : part.HasAt position inside inner) :
    t.HasAt offset inside inner := by
  obtain ⟨before, after, rfl, rfl⟩ := h
  exact (h'.append_left before).append_right after

theorem HasAt.slice?_eq (h : t.HasAt 0 position part) :
    t.slice? position (position + part.width) = some part := by
  obtain ⟨before, after, rfl, rfl⟩ := h
  rw [Nat.zero_add]
  exact slice?_append before part after

end Places

end Verbatim.Text
