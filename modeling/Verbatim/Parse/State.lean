/-
  The state of a parser, and the steps from which all productions are made.

  A parser reads a scanned token sequence and sees one token ahead.  It never
  fails on the source: a token that has no place is turned into skipped text in
  front of the next token, and a token that should be there and is not is stood in
  for, both with a report.
-/
import Verbatim.Parse.Event

set_option autoImplicit false

namespace Verbatim

/-- Options that select the variant of the grammar. -/
structure ParseOptions where
  /-- Accept a missing `;` before a line break, a closing brace or the end. -/
  allowAutomaticSemicolonInsertion : Bool
  deriving DecidableEq, Repr

instance : Inhabited ParseOptions := ⟨⟨true⟩⟩

/-- What a parser knows: the tokens to come, the trivia of skipped tokens that
waits for the next one, the end of the significant text read last, whether a line
break follows it, and the problems reported. -/
structure ParseState where
  tokens : List ScannedToken
  skipped : TriviaList
  lastEnd : Nat
  afterLineBreak : Bool
  diagnostics : List Diagnostic
  deriving DecidableEq, Repr, Inhabited

namespace ParseState

/-- The start of a token sequence. -/
def start (tokens : List ScannedToken) : ParseState :=
  ⟨tokens, .empty, 0, false, []⟩

/-- The token that comes next.  Behind the end of the file there is only the end
of the file. -/
def peek (s : ParseState) : ScannedToken :=
  match s.tokens with
  | t :: _ => t
  | [] => ⟨.empty, .eof, s.lastEnd, s.lastEnd, [], .empty⟩

/-- Kind of the token that comes next. -/
def peekKind (s : ParseState) : Kind :=
  s.peek.kind

/-- The next token has the given kind. -/
def isAt (s : ParseState) (kind : Kind) : Bool :=
  s.peekKind == kind

/-- A line break separates the next token from the one read before it. -/
def atLineBreak (s : ParseState) : Bool :=
  s.afterLineBreak || s.peek.leading.flags.newline

/-- Takes the next token off the sequence. -/
def consume (s : ParseState) : ParseState :=
  { s with
    tokens := s.tokens.tail
    lastEnd := s.peek.stop
    afterLineBreak := s.peek.trailing.flags.newline }

/-- Reports a problem. -/
def report (s : ParseState) (start stop : Nat) (message : String) : ParseState :=
  { s with diagnostics := s.diagnostics ++ [⟨start, stop, message⟩] }

end ParseState

/-- A production: it reads tokens and yields output. -/
abbrev Parser := StateT ParseState (Except Fault)

namespace Parser

/-- Reads the next token, with the trivia of skipped tokens in front of it. -/
def advance : Parser Segment := do
  let s ← get
  let t := s.peek
  set { s.consume with skipped := .empty }
  return [.token { t with leading := s.skipped.concat t.leading }]

/-- What is said about a token that should be there and is not. -/
def expectation (kind : Kind) : String :=
  match kind.fixedText with
  | some text => "expected `" ++ String.ofList text ++ "`"
  | none => if kind = .identifier then "expected an identifier" else "expected " ++ kind.name

/-- Reads a token of the given kind, or reports it and stands in for it. -/
def expect (kind : Kind) : Parser Segment := do
  let s ← get
  if s.isAt kind then advance
  else
    set (s.report s.lastEnd s.lastEnd (expectation kind))
    return [.missing kind]

/-- Reads a token of the given kind if it comes next. -/
def eat (kind : Kind) : Parser Segment := do
  if (← get).isAt kind then advance else return []

/-- Reports a problem at the next token. -/
def report (message : String) : Parser Unit :=
  modify fun s => s.report s.peek.start s.peek.stop message

/-- Reports the next token and turns it into skipped text.  The end of the file
is reported and left alone. -/
def reportAndSkip (message : String) : Parser Unit := do
  report message
  let s ← get
  if s.isAt .eof then return ()
  let t := s.peek
  let text := TriviaList.ofList [⟨.skippedText, t.text⟩]
  set { s.consume with skipped := ((s.skipped.concat t.leading).concat text).concat t.trailing }

/-- Skips tokens up to one that `stop` accepts or to the end of the line. -/
def skipUntil (stop : Kind → Bool) (message : String) : Nat → Parser Unit
  | 0 => throw .exhausted
  | budget + 1 => do
      let s ← get
      if s.isAt .eof || stop s.peekKind || s.atLineBreak then return ()
      reportAndSkip message
      skipUntil stop message budget

/-- Reads `item (separator item)* separator?`.  Another item is read as long as `first`
accepts the next token; a separator that is missing between two items of one line is
stood in for. -/
def separatedItems (separator : Kind) (first : Kind → Bool) (item : Parser Segment) :
    Nat → Parser Segment
  | 0 => throw .exhausted
  | budget + 1 => do
      let here ← item
      let s ← get
      if s.isAt separator then
        let mark ← advance
        if first (← get).peekKind then
          return here ++ mark ++ (← separatedItems separator first item budget)
        else return here ++ mark
      else if first s.peekKind && !s.atLineBreak then
        let mark ← expect separator
        return here ++ mark ++ (← separatedItems separator first item budget)
      else return here

/-- Reads a separated list, which may be empty unless an item is required. -/
def separated (separator : Kind) (first : Kind → Bool) (required : Bool) (item : Parser Segment)
    (budget : Nat) : Parser Segment := do
  if required || first (← get).peekKind then
    return Segment.separated (← separatedItems separator first item budget)
  else return Segment.separated []

/-- A name. -/
def name : Parser Segment :=
  expect .identifier

/-- Ends a statement.  Where the options allow it, a missing `;` is accepted before
a line break, a closing brace or the end of the file. -/
def semicolon (options : ParseOptions) : Parser Segment := do
  let s ← get
  if s.isAt .semicolon then advance
  else if options.allowAutomaticSemicolonInsertion &&
      (s.atLineBreak || s.isAt .closeBrace || s.isAt .eof) then
    return []
  else expect .semicolon

end Parser

end Verbatim
