/-
  Trivia: blanks, line breaks, comments and skipped text.

  Trivia is carried by the tokens around it.  A trivia list keeps the text of the
  whole run once, the lengths of its pieces, and three facts about the run that
  are settled when the list is made.  Its view is `TriviaList.toList`, the pieces
  with their own texts.
-/
import Verbatim.Fault
import Verbatim.Text.Quoted

set_option autoImplicit false

namespace Verbatim

/-! ## Kinds and pieces -/

/-- Kinds of trivia. -/
inductive TriviaKind where
  | whitespace | newline | singleLineComment | multiLineComment
  /-- Source text that has no grammatical role. -/
  | skippedText
  deriving DecidableEq, Repr, Inhabited

namespace TriviaKind

/-- Every kind of trivia. -/
def all : List TriviaKind :=
  [.whitespace, .newline, .singleLineComment, .multiLineComment, .skippedText]

/-- The kind as a syntax element. -/
def kind : TriviaKind → Kind
  | .whitespace => .whitespaceTrivia
  | .newline => .newlineTrivia
  | .singleLineComment => .singleLineCommentTrivia
  | .multiLineComment => .multiLineCommentTrivia
  | .skippedText => .skippedTextTrivia

/-- Name under which dumps show the kind. -/
def name : TriviaKind → String
  | .whitespace => "Whitespace"
  | .newline => "Newline"
  | .singleLineComment => "SingleLineComment"
  | .multiLineComment => "MultiLineComment"
  | .skippedText => "SkippedText"

/-- The kind of a given name. -/
def ofName? (s : String) : Option TriviaKind :=
  all.find? fun k => k.name == s

/-- Comments of either form. -/
def isComment : TriviaKind → Bool
  | .singleLineComment | .multiLineComment => true
  | _ => false

end TriviaKind

/-- A piece of a run of trivia: its kind and its length in bytes. -/
structure TriviaPiece where
  kind : TriviaKind
  length : Nat
  deriving DecidableEq, Repr, Inhabited

/-! ## Facts about a run -/

/-- Facts about a run of trivia. -/
structure TriviaFlags where
  comment : Bool
  newline : Bool
  skippedText : Bool
  deriving DecidableEq, Repr, Inhabited

namespace TriviaFlags

/-- Facts about the empty run. -/
def empty : TriviaFlags := ⟨false, false, false⟩

/-- Facts about two runs together. -/
def union (a b : TriviaFlags) : TriviaFlags :=
  ⟨a.comment || b.comment, a.newline || b.newline, a.skippedText || b.skippedText⟩

end TriviaFlags

/-! ## Single trivia -/

/-- One piece of trivia with its text. -/
structure Trivia where
  kind : TriviaKind
  text : Text
  deriving DecidableEq, Repr, Inhabited

namespace Trivia

/-- Width in bytes. -/
def width (t : Trivia) : Nat :=
  t.text.width

/-- The piece that stands for the trivia where its text is kept elsewhere. -/
def piece (t : Trivia) : TriviaPiece :=
  ⟨t.kind, t.width⟩

/-- A line break, or a block comment or skipped text that holds a line feed or a
carriage return. -/
def hasNewline (t : Trivia) : Bool :=
  match t.kind with
  | .newline => true
  | .whitespace | .singleLineComment => false
  | .multiLineComment | .skippedText => t.text.any fun c => c == '\n' || c == '\r'

/-- Facts about the run that holds this piece alone. -/
def flags (t : Trivia) : TriviaFlags :=
  ⟨t.kind.isComment, t.hasNewline, t.kind == .skippedText⟩

end Trivia

/-! ## Lists of trivia -/

/-- A run of trivia before or after a token. -/
structure TriviaList where
  text : Text
  pieces : List TriviaPiece
  flags : TriviaFlags
  deriving DecidableEq, Repr, Inhabited

/-- Cuts a text into pieces from the left. -/
def cutPieces : Text → List TriviaPiece → Except Fault (List Trivia)
  | _, [] => .ok []
  | t, p :: rest =>
      match t.splitAt? p.length with
      | none => .error .cut
      | some (front, back) =>
          match cutPieces back rest with
          | .error e => .error e
          | .ok items => .ok (⟨p.kind, front⟩ :: items)

namespace TriviaList

/-- The empty run. -/
def empty : TriviaList := ⟨[], [], .empty⟩

/-- A run without pieces is the empty run. -/
def ofParts (text : Text) (pieces : List TriviaPiece) (flags : TriviaFlags) : TriviaList :=
  if pieces.isEmpty then empty else ⟨text, pieces, flags⟩

/-- The run of the given trivia. -/
def ofList (items : List Trivia) : TriviaList :=
  ofParts (items.flatMap Trivia.text) (items.map Trivia.piece)
    (items.foldl (fun flags t => flags.union t.flags) .empty)

/-- The run that a text makes when it is cut into pieces.  The pieces have to
cover the text exactly, and every seam has to fall between characters. -/
def ofPieces (text : Text) (pieces : List TriviaPiece) : Except Fault TriviaList := do
  let total ← Offset.sum (pieces.map TriviaPiece.length)
  if total ≠ text.width then
    throw (.uncovered total text.width)
  let items ← cutPieces text pieces
  return ofParts text pieces (items.foldl (fun flags t => flags.union t.flags) .empty)

/-- The pieces of a run with their texts. -/
def toList (l : TriviaList) : List Trivia :=
  match cutPieces l.text l.pieces with
  | .ok items => items
  | .error _ => []

/-- Number of pieces. -/
def count (l : TriviaList) : Nat :=
  l.pieces.length

/-- A run without pieces. -/
def isEmpty (l : TriviaList) : Bool :=
  l.pieces.isEmpty

/-- Width in bytes. -/
def width (l : TriviaList) : Nat :=
  l.text.width

/-- Two runs, one after the other. -/
def concat (a b : TriviaList) : TriviaList :=
  if b.isEmpty then a
  else if a.isEmpty then b
  else ofParts (a.text ++ b.text) (a.pieces ++ b.pieces) (a.flags.union b.flags)

/-- Form of a run in a dump. -/
def shown (l : TriviaList) : String :=
  let piece (p : TriviaPiece) : String :=
    "TriviaPiece \x7b kind: " ++ p.kind.name ++ ", len: " ++ toString p.length ++ " \x7d"
  "TriviaList \x7b pieces: [" ++ ", ".intercalate (l.pieces.map piece) ++ "], full_width: "
    ++ toString l.width ++ " \x7d"

end TriviaList

end Verbatim
