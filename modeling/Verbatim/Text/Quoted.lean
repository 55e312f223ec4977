/-
  Quoted text, the form in which dumps show a piece of source.

  The text stands between double quotes.  The quote itself, the backslash and
  four controls have short escapes; every other character without a glyph of its
  own is written by its code point in hexadecimal.
-/
import Verbatim.Text.Basic
import Verbatim.Text.CharClass

set_option autoImplicit false

namespace Verbatim.Text

/-- One character of a quoted text. -/
def quotedChar (c : Char) : Text :=
  match c with
  | '"' => "\\\"".toList
  | '\\' => "\\\\".toList
  | '\n' => "\\n".toList
  | '\r' => "\\r".toList
  | '\t' => "\\t".toList
  | '\x00' => "\\0".toList
  | c => if isHidden c then "\\u\x7b".toList ++ Nat.toDigits 16 c.toNat ++ "\x7d".toList else [c]

/-- A text between double quotes, with escapes. -/
def quoted (t : Text) : Text :=
  "\"".toList ++ t.flatMap quotedChar ++ "\"".toList

end Verbatim.Text
