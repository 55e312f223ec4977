/-
  Scanning a text into tokens with their trivia attached.

  Trivia behind a token, up to and including the first line break, belongs to that
  token; all other trivia belongs to the token after it.  Every byte of the text
  thus lands in exactly one token.  The last token is the end of the file, and
  scanning past it yields the same token again, without trivia.
-/
import Verbatim.Scan.Blank
import Verbatim.Scan.Lexeme

set_option autoImplicit false

namespace Verbatim

/-- A token in the source: its kind, the byte range of its significant text, that
text, and the trivia on both sides. -/
structure ScannedToken where
  leading : TriviaList
  kind : Kind
  start : Nat
  stop : Nat
  text : Text
  trailing : TriviaList
  deriving DecidableEq, Repr, Inhabited

namespace ScannedToken

/-- Start of the range that includes the trivia. -/
def fullStart (t : ScannedToken) : Nat :=
  t.start - t.leading.width

/-- End of the range that includes the trivia. -/
def fullStop (t : ScannedToken) : Nat :=
  t.stop + t.trailing.width

end ScannedToken

/-- A place in a source text: what follows it, and its byte offset. -/
structure Scanner where
  rest : Text
  offset : Nat
  deriving DecidableEq, Repr, Inhabited

/-- A token, the problems found in it, and the place behind it. -/
structure ScanStep where
  token : ScannedToken
  diagnostics : List Diagnostic
  after : Scanner
  deriving DecidableEq, Repr, Inhabited

/-- Tokens of a text up to the end of the file, and the problems found. -/
structure Scan where
  tokens : List ScannedToken
  diagnostics : List Diagnostic
  deriving DecidableEq, Repr, Inhabited

namespace Scanner

/-- The start of a text. -/
def start (source : Text) : Scanner :=
  ⟨source, 0⟩

/-- The significant text at a place: its kind, the cut behind it, and the problem
found in it, if any. -/
def significant (start : Nat) (t : Text) : Kind × Cut × List Diagnostic :=
  match t with
  | [] => (.eof, .none [], [])
  | c :: tail =>
      let found := Scan.lexeme c tail
      let cut := found.cut.after [c]
      let problems : List Diagnostic :=
        if found.complete then []
        else [⟨start, start + cut.front.width, "unterminated string literal"⟩]
      (found.kind, cut, problems)

/-- Scans one token. -/
def next (s : Scanner) : Except Fault ScanStep := do
  let before := Scan.triviaRun false s.rest.length s.offset s.rest
  let start := s.offset + before.cut.front.width
  let (kind, cut, problems) := significant start before.cut.back
  let stop := start + cut.front.width
  let behind : Scan.Run :=
    if kind = .eof then ⟨[], .none cut.back, []⟩
    else Scan.triviaRun true cut.back.length stop cut.back
  let leading ← TriviaList.ofPieces before.cut.front before.pieces
  let trailing ← TriviaList.ofPieces behind.cut.front behind.pieces
  return {
    token := ⟨leading, kind, start, stop, cut.front, trailing⟩
    diagnostics := before.diagnostics ++ problems ++ behind.diagnostics
    after := ⟨behind.cut.back, stop + behind.cut.front.width⟩ }

/-- Scans at most `budget` tokens up to the end of the file. -/
def scanFrom : Nat → Scanner → Except Fault Scan
  | 0, _ => .error .exhausted
  | budget + 1, s => do
      let step ← s.next
      if step.token.kind = .eof then
        return ⟨[step.token], step.diagnostics⟩
      let more ← scanFrom budget step.after
      return ⟨step.token :: more.tokens, step.diagnostics ++ more.diagnostics⟩

end Scanner

/-- Scans a whole text. -/
def scan (source : Text) : Except Fault Scan :=
  Scanner.scanFrom (source.length + 1) (.start source)

end Verbatim
