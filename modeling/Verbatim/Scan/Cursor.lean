/-
  Scanning with a cursor.

  A cursor goes through the characters that are left of a text.  It remembers how many bytes
  were left when it was last reset, and what it has passed since then is the difference to
  what is left now.  A tokenizer takes all ranges from these two lengths, and cuts texts out
  of its source by range.  The pieces of trivia on both sides of a token are gathered in one
  buffer, which is split between the two sides and emptied for the next token.

  A `ScanSession` does without the two lengths and the buffer: it keeps the cuts themselves.
-/
import Verbatim.Scan.Session

set_option autoImplicit false

namespace Verbatim

/-! ## The cursor -/

/-- What is left of a text, and the number of bytes that were left at the last reset. -/
structure Cursor where
  rest : Text
  length : Nat
  deriving DecidableEq, Repr, Inhabited

namespace Cursor

/-- A cursor at the start of a text. -/
def ofText (t : Text) : Cursor :=
  ⟨t, t.width⟩

/-- Number of bytes that are left. -/
def remaining (c : Cursor) : Nat :=
  c.rest.width

/-- Number of bytes that have been passed since the last reset. -/
def withinToken (c : Cursor) : Nat :=
  c.length - c.remaining

/-- Starts counting anew. -/
def reset (c : Cursor) : Cursor :=
  { c with length := c.remaining }

/-- Passes the front of what is left. -/
def pass (c : Cursor) (cut : Cut) : Cursor :=
  { c with rest := cut.back }

end Cursor

/-! ## The tokenizer -/

/-- A scan in progress: its cursor, the token that comes next, the pieces of trivia gathered
for the token behind that one, and the problems that have not been handed out. -/
structure Tokenizer where
  source : Text
  cursor : Cursor
  current : ScannedToken
  pieces : List TriviaPiece
  pending : List Diagnostic
  deriving DecidableEq, Repr, Inhabited

namespace Tokenizer

/-- Byte offset of the cursor. -/
def offset (t : Tokenizer) : Nat :=
  t.source.width - t.cursor.remaining

/-- Start of what has been passed since the last reset. -/
def tokenStart (t : Tokenizer) : Nat :=
  t.offset - t.cursor.withinToken

/-- The bytes `start..stop` of the source. -/
def slice (t : Tokenizer) (start stop : Nat) : Except Fault Text :=
  match t.source.slice? start stop with
  | some text => .ok text
  | none => .error .cut

/-- Passes the front of what is left. -/
def pass (t : Tokenizer) (cut : Cut) : Tokenizer :=
  { t with cursor := t.cursor.pass cut }

/-- Reports a problem with what has been passed since the last reset. -/
def report (t : Tokenizer) (message : String) : Tokenizer :=
  { t with pending := t.pending ++ [⟨t.tokenStart, t.offset, message⟩] }

/-- Starts counting anew. -/
def reset (t : Tokenizer) : Tokenizer :=
  { t with cursor := t.cursor.reset }

/-- Gathers what has been passed since the last reset as a piece of trivia. -/
def gather (t : Tokenizer) (kind : TriviaKind) : Tokenizer :=
  { t with pieces := t.pieces ++ [⟨kind, t.cursor.withinToken⟩] }

/-- Takes a piece of trivia, which is reported if it is a comment without an end. -/
def takePiece (t : Tokenizer) (kind : TriviaKind) (cut : Cut) : Tokenizer :=
  let passed := t.pass cut
  let told := if kind = .skippedText then passed.report "unterminated comment" else passed
  (told.gather kind).reset

/-- Takes at most `budget` pieces of trivia. -/
def trivia (trailing : Bool) : Nat → Tokenizer → Tokenizer
  | 0, t => t
  | budget + 1, t =>
      match Scan.trivia? t.cursor.rest with
      | none => t
      | some (kind, cut) =>
          let after := t.takePiece kind cut
          if trailing && kind == .newline then after else trivia trailing budget after

/-- Takes the significant text of a token: its kind, its range, and the tokenizer behind it. -/
def significant (t : Tokenizer) : Kind × Nat × Nat × Tokenizer :=
  match t.cursor.rest with
  | [] => (.eof, t.offset, t.offset, t)
  | c :: tail =>
      let found := Scan.lexeme c tail
      let passed := t.pass (found.cut.after [c])
      let told := if found.complete then passed else passed.report "unterminated string literal"
      (found.kind, told.tokenStart, told.offset, told.reset)

/-- Hands out the token that comes next and scans the one behind it. -/
def next (t : Tokenizer) : Except Fault (ScannedToken × Tokenizer) := do
  let before := t.trivia false t.cursor.rest.length
  let (kind, start, stop, found) := before.significant
  let behind := if kind = .eof then found else found.trivia true found.cursor.rest.length
  let (front, back) := behind.pieces.splitAt before.pieces.length
  let leading ← TriviaList.ofPieces (← t.slice t.offset start) front
  let trailing ← TriviaList.ofPieces (← t.slice stop behind.offset) back
  let text ← t.slice start stop
  return (t.current,
    { behind with current := ⟨leading, kind, start, stop, text, trailing⟩, pieces := [] })

/-- A tokenizer in front of the first token, which shows the end of the file. -/
def fresh (source : Text) : Tokenizer :=
  ⟨source, .ofText source, ⟨.empty, .eof, 0, 0, [], .empty⟩, [], []⟩

/-- Starts scanning a text. -/
def start (source : Text) : Except Fault Tokenizer := do
  let (_, t) ← (fresh source).next
  return t

/-- The token that comes next. -/
def peek (t : Tokenizer) : ScannedToken :=
  t.current

/-- Hands out the problems found so far. -/
def takeDiagnostics (t : Tokenizer) : List Diagnostic × Tokenizer :=
  (t.pending, { t with pending := [] })

end Tokenizer

end Verbatim
