/-
  The significant part of a token.

  Each function takes the text that follows the first character of a token and
  cuts it behind the token.  The longest spelling wins among operators.  A string
  literal runs to its quote, and stops unterminated in front of a line break or at
  the end of the text; an escaped line break continues it.
-/
import Verbatim.Kind
import Verbatim.Text.CharClass
import Verbatim.Text.Cut

set_option autoImplicit false

namespace Verbatim.Scan

open Text

/-! ## String literals -/

/-- The cut behind a string literal, and whether its closing quote is there. -/
def stringCut (quote : Char) : Text → Cut × Bool
  | [] => (.none [], false)
  | '\\' :: '\r' :: '\n' :: rest =>
      let (cut, closed) := stringCut quote rest
      (cut.after ['\\', '\r', '\n'], closed)
  | '\\' :: c :: rest =>
      let (cut, closed) := stringCut quote rest
      (cut.after ['\\', c], closed)
  | c :: rest =>
      if isLineBreak c then (.none (c :: rest), false)
      else if c = quote then (⟨[c], rest⟩, true)
      else
        let (cut, closed) := stringCut quote rest
        (cut.after [c], closed)

/-- A string literal takes its text off the front. -/
theorem whole_stringCut (quote : Char) (t : Text) : (stringCut quote t).1.whole = t := by
  fun_induction stringCut quote t with
  | case1 => rfl
  | case2 rest cut closed h ih =>
      rw [h] at ih
      exact (Cut.whole_after _ cut).trans (congrArg _ ih)
  | case3 c rest _ cut closed h ih =>
      rw [h] at ih
      exact (Cut.whole_after _ cut).trans (congrArg _ ih)
  | case4 => rfl
  | case5 => rfl
  | case6 c rest _ _ _ _ cut closed h ih =>
      rw [h] at ih
      exact (Cut.whole_after _ cut).trans (congrArg _ ih)

/-! ## Numeric literals -/

/-- Digits with separators. -/
def digitsCut (t : Text) : Cut :=
  .span isDigitPart t

@[simp] theorem whole_digitsCut (t : Text) : (digitsCut t).whole = t :=
  Cut.whole_span isDigitPart t

/-- An exponent, if there is one. -/
def exponentCut (t : Text) : Cut :=
  match t with
  | 'e' :: '-' :: rest => (digitsCut rest).after ['e', '-']
  | 'e' :: '+' :: rest => (digitsCut rest).after ['e', '+']
  | 'e' :: rest => (digitsCut rest).after ['e']
  | 'E' :: '-' :: rest => (digitsCut rest).after ['E', '-']
  | 'E' :: '+' :: rest => (digitsCut rest).after ['E', '+']
  | 'E' :: rest => (digitsCut rest).after ['E']
  | _ => .none t

@[simp] theorem whole_exponentCut (t : Text) : (exponentCut t).whole = t := by
  unfold exponentCut
  split <;> simp

/-- A fraction, if there is one.  A point that another point follows does not start
a fraction. -/
def fractionCut (t : Text) : Cut :=
  match t with
  | '.' :: '.' :: _ => .none t
  | '.' :: rest => (digitsCut rest).after ['.']
  | _ => .none t

@[simp] theorem whole_fractionCut (t : Text) : (fractionCut t).whole = t := by
  unfold fractionCut
  split <;> simp

/-- A numeric literal with the given first character, a digit or a point, in decimal
notation. -/
def decimalCut (first : Char) (t : Text) : Cut :=
  let digits := digitsCut t
  (if first = '.' then digits else digits.andThen fractionCut).andThen exponentCut

@[simp] theorem whole_decimalCut (first : Char) (t : Text) : (decimalCut first t).whole = t := by
  unfold decimalCut
  rw [Cut.whole_andThen (whole_exponentCut _)]
  split
  · exact whole_digitsCut t
  · rw [Cut.whole_andThen (whole_fractionCut _), whole_digitsCut]

/-- A numeric literal with the given first character, a digit or a point. -/
def numberCut (first : Char) (t : Text) : Cut :=
  if first = '0' then
    match t with
    | 'x' :: rest => (Cut.span isHexPart rest).after ['x']
    | 'X' :: rest => (Cut.span isHexPart rest).after ['X']
    | 'b' :: rest => (digitsCut rest).after ['b']
    | 'B' :: rest => (digitsCut rest).after ['B']
    | 'o' :: rest => (digitsCut rest).after ['o']
    | 'O' :: rest => (digitsCut rest).after ['O']
    | _ => decimalCut first t
  else decimalCut first t

@[simp] theorem whole_numberCut (first : Char) (t : Text) : (numberCut first t).whole = t := by
  unfold numberCut
  split
  · split <;> simp
  · exact whole_decimalCut first t

/-! ## All lexemes -/

/-- Kind of a significant text, the cut behind it, and whether it is whole. -/
structure Lexeme where
  kind : Kind
  cut : Cut
  complete : Bool
  deriving DecidableEq, Repr, Inhabited

/-- A lexeme of one character. -/
def single (kind : Kind) (t : Text) : Lexeme :=
  ⟨kind, .none t, true⟩

/-- A name or a keyword. -/
def wordLexeme (first : Char) (t : Text) : Lexeme :=
  let cut := Cut.span isNamePart t
  ⟨(Kind.ofKeyword? (first :: cut.front)).getD .identifier, cut, true⟩

/-- A lexeme that does not start like an operator. -/
def otherLexeme (first : Char) (t : Text) : Lexeme :=
  if first = '"' ∨ first = '\'' then
    let (cut, closed) := stringCut first t
    ⟨.stringLiteral, cut, closed⟩
  else if first.isDigit then ⟨.numericLiteral, numberCut first t, true⟩
  else if isNameStart first then wordLexeme first t
  else single .unknown t

theorem whole_otherLexeme (first : Char) (t : Text) : (otherLexeme first t).cut.whole = t := by
  unfold otherLexeme
  split
  · exact whole_stringCut first t
  · split
    · exact whole_numberCut first t
    · split
      · exact Cut.whole_span isNamePart t
      · rfl

/-- The lexeme that starts with the given character. -/
def lexeme (first : Char) (t : Text) : Lexeme :=
  match first, t with
  | '\x7b', _ => single .openBrace t
  | '\x7d', _ => single .closeBrace t
  | '(', _ => single .openParen t
  | ')', _ => single .closeParen t
  | '[', _ => single .openBracket t
  | ']', _ => single .closeBracket t
  | ';', _ => single .semicolon t
  | ',', _ => single .comma t
  | ':', _ => single .colon t
  | '?', _ => single .question t
  | '.', d :: _ =>
      if d.isDigit then ⟨.numericLiteral, numberCut '.' t, true⟩ else single .dot t
  | '.', [] => single .dot t
  | '=', '=' :: '=' :: rest => ⟨.equalsEqualsEquals, ⟨['=', '='], rest⟩, true⟩
  | '=', '=' :: rest => ⟨.equalsEquals, ⟨['='], rest⟩, true⟩
  | '=', _ => single .equals t
  | '!', '=' :: '=' :: rest => ⟨.exclamationEqualsEquals, ⟨['=', '='], rest⟩, true⟩
  | '!', '=' :: rest => ⟨.exclamationEquals, ⟨['='], rest⟩, true⟩
  | '!', _ => single .exclamation t
  | '<', '=' :: rest => ⟨.lessThanEquals, ⟨['='], rest⟩, true⟩
  | '<', _ => single .lessThan t
  | '>', '=' :: rest => ⟨.greaterThanEquals, ⟨['='], rest⟩, true⟩
  | '>', _ => single .greaterThan t
  | '+', _ => single .plus t
  | '-', _ => single .minus t
  | '*', _ => single .asterisk t
  | '/', _ => single .slash t
  | '%', _ => single .percent t
  | '&', '&' :: rest => ⟨.ampersandAmpersand, ⟨['&'], rest⟩, true⟩
  | '|', '|' :: rest => ⟨.barBar, ⟨['|'], rest⟩, true⟩
  | _, _ => otherLexeme first t

/-- A lexeme takes its text off the front and leaves the rest as it is. -/
theorem whole_lexeme (first : Char) (t : Text) : (lexeme first t).cut.whole = t := by
  unfold lexeme
  split <;> try rfl
  · split
    · exact whole_numberCut _ _
    · rfl
  · exact whole_otherLexeme _ _

end Verbatim.Scan
