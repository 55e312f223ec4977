/-
  Blank lines between tokens.

  The trivia behind one token and the trivia in front of the next are one run.  A
  line of the run is blank if nothing but white space stands on it.  In front of
  the first token the run starts at the beginning of a line.
-/
import Verbatim.Token

set_option autoImplicit false

namespace Verbatim

/-- A blank line occurs in a run of trivia kinds; `atLineStart` says whether only
white space has come since the last line break. -/
def hasBlankLine (atLineStart : Bool) : List TriviaKind → Bool
  | [] => false
  | .newline :: rest => atLineStart || hasBlankLine true rest
  | .whitespace :: rest => hasBlankLine atLineStart rest
  | _ :: rest => hasBlankLine false rest

/-- A blank line separates a token from the one before it, if there is one. -/
def Token.blankLineBefore (t : Token) (previous : Option Token) : Bool :=
  let run :=
    match previous with
    | some p => p.trailing.concat t.leading
    | none => t.leading
  hasBlankLine previous.isNone (run.toList.map Trivia.kind)

end Verbatim
