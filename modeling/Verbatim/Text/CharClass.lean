/-
  Character classes of the scanned language.

  Letters, numerals and blanks follow version 16.0 of Unicode; ASCII is decided
  directly and the rest by range tables.  A line break is one of four characters,
  and every line break is also a blank.
-/
import Verbatim.Text.LetterTable
import Verbatim.Text.NumeralTable
import Verbatim.Text.HiddenTable

set_option autoImplicit false

namespace Verbatim.Text

/-- Membership in inclusive ranges that are given in ascending order. -/
def inRanges (n : Nat) : List (Nat × Nat) → Bool
  | [] => false
  | (low, high) :: rest => if n < low then false else n ≤ high || inRanges n rest

/-- Unicode White_Space. -/
def isSpace (c : Char) : Bool :=
  let n := c.toNat
  (9 ≤ n && n ≤ 13) || n == 0x20 || n == 0x85 || n == 0xA0 || n == 0x1680 ||
    (0x2000 ≤ n && n ≤ 0x200A) || n == 0x2028 || n == 0x2029 || n == 0x202F || n == 0x205F ||
    n == 0x3000

/-- Unicode Alphabetic. -/
def isLetter (c : Char) : Bool :=
  if c.toNat < 0x80 then c.isAlpha else inRanges c.toNat letterRanges

/-- A character of one of the Unicode number categories. -/
def isNumeral (c : Char) : Bool :=
  if c.toNat < 0x80 then c.isDigit else inRanges c.toNat numeralRanges

/-- The characters that end a line. -/
def isLineBreak (c : Char) : Bool :=
  c == '\n' || c == '\r' || c == '\u2028' || c == '\u2029'

/-- White space of the scanned language, line breaks included.  A byte order
mark counts as white space. -/
def isBlank (c : Char) : Bool :=
  isSpace c || c == '\uFEFF'

/-- Characters that can start a name. -/
def isNameStart (c : Char) : Bool :=
  isLetter c || c == '_' || c == '$'

/-- Characters that can continue a name. -/
def isNamePart (c : Char) : Bool :=
  isLetter c || isNumeral c || c == '_' || c == '$'

/-- Digits of a number, and the underscore that may separate them. -/
def isDigitPart (c : Char) : Bool :=
  c == '_' || c.isDigit

/-- Digits of a hexadecimal number, and the underscore that may separate them. -/
def isHexPart (c : Char) : Bool :=
  isDigitPart c || ('a' ≤ c && c ≤ 'f') || ('A' ≤ c && c ≤ 'F')

/-- Characters that a quoted text does not copy as they are. -/
def isHidden (c : Char) : Bool :=
  let n := c.toNat
  if n < 0x80 then n < 0x20 || n == 0x7F else inRanges n hiddenRanges

theorem isBlank_of_isLineBreak {c : Char} (h : isLineBreak c = true) : isBlank c = true := by
  simp only [isLineBreak, Bool.or_eq_true, beq_iff_eq] at h
  rcases h with ((rfl | rfl) | rfl) | rfl <;> decide

end Verbatim.Text
