/-
  Source text and its byte measure.

  A text is a list of Unicode characters.  Every width, offset and range of
  the library counts bytes of the UTF-8 form, so cutting a text at a byte
  offset is partial: the offset has to fall between two characters.  The two
  facts that the rest of the library leans on are that widths add up over
  concatenation and that a cut, where it exists, loses nothing.
-/
set_option autoImplicit false

namespace Verbatim

/-- Source text: a sequence of Unicode characters. -/
abbrev Text := List Char

namespace Text

/-! ## Width -/

/-- Number of bytes of the UTF-8 form. -/
def width : Text → Nat
  | [] => 0
  | c :: rest => c.utf8Size + width rest

@[simp] theorem width_nil : width [] = 0 := rfl

@[simp] theorem width_cons (c : Char) (rest : Text) :
    width (c :: rest) = c.utf8Size + width rest := rfl

@[simp] theorem width_append (s t : Text) : width (s ++ t) = width s + width t := by
  induction s with
  | nil => simp
  | cons c rest ih => simp [ih, Nat.add_assoc]

theorem width_eq_zero_iff {t : Text} : width t = 0 ↔ t = [] := by
  cases t with
  | nil => simp
  | cons c rest =>
    have := c.utf8Size_pos
    simp only [width_cons, reduceCtorEq, iff_false]
    omega

/-! ## Cutting -/

/-- Cuts a text at a byte offset.  There is no cut inside a character or past
the end. -/
def splitAt? : Text → Nat → Option (Text × Text)
  | t, 0 => some ([], t)
  | [], _ + 1 => none
  | c :: rest, n + 1 =>
      if c.utf8Size ≤ n + 1 then
        (splitAt? rest (n + 1 - c.utf8Size)).map fun cut => (c :: cut.1, cut.2)
      else none

/-- The bytes `start..stop` of a text, where both ends fall between characters. -/
def slice? (t : Text) (start stop : Nat) : Option Text := do
  let (_, rest) ← t.splitAt? start
  let (middle, _) ← splitAt? rest (stop - start)
  return middle

@[simp] theorem splitAt?_zero (t : Text) : t.splitAt? 0 = some ([], t) := by
  cases t <;> rfl

/-- A cut keeps every character, and the part before it has the width asked for. -/
theorem eq_append_of_splitAt? {t front back : Text} {n : Nat}
    (h : t.splitAt? n = some (front, back)) : t = front ++ back ∧ width front = n := by
  induction t generalizing n front with
  | nil =>
    cases n with
    | zero => simp_all [splitAt?]
    | succ n => simp [splitAt?] at h
  | cons c rest ih =>
    cases n with
    | zero => simp_all [splitAt?]
    | succ n =>
      simp only [splitAt?] at h
      split at h
      · obtain ⟨⟨a, b⟩, hcut, hpair⟩ := Option.map_eq_some_iff.mp h
        simp only [Prod.mk.injEq] at hpair
        obtain ⟨rfl, rfl⟩ := hpair
        obtain ⟨heq, hw⟩ := ih hcut
        exact ⟨by simp [heq], by simp only [width_cons, hw]; omega⟩
      · simp at h

/-- Every seam of a concatenation can be cut. -/
theorem splitAt?_append (front back : Text) :
    splitAt? (front ++ back) (width front) = some (front, back) := by
  induction front with
  | nil => simp
  | cons c rest ih =>
    have hpos := c.utf8Size_pos
    obtain ⟨n, hn⟩ : ∃ n, c.utf8Size + width rest = n + 1 :=
      ⟨c.utf8Size + width rest - 1, by omega⟩
    rw [List.cons_append, width_cons, hn, splitAt?, if_pos (by omega), ← hn,
      Nat.add_sub_cancel_left, ih]
    rfl

/-- The middle of a concatenation is a slice of it. -/
theorem slice?_append (front middle back : Text) :
    slice? (front ++ middle ++ back) (width front) (width front + width middle) = some middle := by
  simp [slice?, List.append_assoc, splitAt?_append]

/-! ## Lines -/

/-- Characters after the last line feed. -/
def lastLine (t : Text) : Text :=
  (t.reverse.takeWhile (· != '\n')).reverse

/-- Zero-based line and byte column of an offset, where lines end at a line
feed only.  An offset outside the text or inside a character has none. -/
def lineColumn? (t : Text) (offset : Nat) : Option (Nat × Nat) := do
  let (before, _) ← t.splitAt? offset
  return (before.count '\n', width (lastLine before))

/-! ## Numbers in text -/

/-- Decimal digits of a natural number. -/
def decimal (n : Nat) : Text :=
  Nat.toDigits 10 n

/-- A byte range in the form `start..stop`. -/
def range (start stop : Nat) : Text :=
  decimal start ++ "..".toList ++ decimal stop

end Text

end Verbatim
