/-
  Tokens, the leaves of a tree and the only elements that own source text.

  A token carries its significant text and the trivia on both sides.  A token of
  empty text stands for one that the source does not have; the end of the file
  is the exception, since it never has text.
-/
import Verbatim.Trivia.Cursor

set_option autoImplicit false

namespace Verbatim

/-! ## Facts about a subtree -/

/-- Facts about a subtree, gathered from the leaves up. -/
structure Flags where
  skippedText : Bool
  zeroWidth : Bool
  typeScript : Bool
  deriving DecidableEq, Repr, Inhabited

namespace Flags

/-- No fact holds. -/
def empty : Flags := ⟨false, false, false⟩

/-- A fact holds of the union if it holds of a part. -/
def union (a b : Flags) : Flags :=
  ⟨a.skippedText || b.skippedText, a.zeroWidth || b.zeroWidth, a.typeScript || b.typeScript⟩

/-- Names of the facts that hold. -/
def names (f : Flags) : List String :=
  (if f.skippedText then ["HAS_SKIPPED_TEXT"] else []) ++
    (if f.zeroWidth then ["HAS_ZERO_WIDTH_TOKEN"] else []) ++
    (if f.typeScript then ["IS_TYPESCRIPT_SPECIFIC"] else [])

end Flags

/-! ## Tokens -/

/-- A leaf: significant text with the trivia on both sides. -/
structure Token where
  kind : Kind
  flags : Flags
  leading : TriviaList
  text : Text
  trailing : TriviaList
  deriving DecidableEq, Repr, Inhabited

namespace Token

/-- A token of the given parts, with its facts settled. -/
def make (kind : Kind) (text : Text) (leading trailing : TriviaList) : Token where
  kind := kind
  flags :=
    { skippedText := leading.flags.skippedText || trailing.flags.skippedText
      zeroWidth := text.isEmpty && kind != .eof
      typeScript := false }
  leading := leading
  text := text
  trailing := trailing

/-- A token of the given parts.  Its kind has to label tokens. -/
def new (kind : Kind) (text : Text) (leading trailing : TriviaList) : Except Fault Token :=
  if kind.isToken then .ok (make kind text leading trailing) else .error (.notTokenKind kind)

/-- A token that the source does not have. -/
def missing (kind : Kind) : Except Fault Token :=
  new kind [] .empty .empty

/-- The token with other trivia in front. -/
def withLeading (t : Token) (leading : TriviaList) : Token :=
  make t.kind t.text leading t.trailing

/-- The token with other trivia behind. -/
def withTrailing (t : Token) (trailing : TriviaList) : Token :=
  make t.kind t.text t.leading trailing

/-- Width of the significant text. -/
def width (t : Token) : Nat :=
  t.text.width

/-- Width with the trivia on both sides. -/
def fullWidth (t : Token) : Nat :=
  t.leading.width + t.width + t.trailing.width

/-- Text with the trivia on both sides. -/
def fullText (t : Token) : Text :=
  t.leading.text ++ t.text ++ t.trailing.text

/-- A token that the source does not have. -/
def isZeroWidth (t : Token) : Bool :=
  t.flags.zeroWidth

/-- The token itself, unless the source does not have it. -/
def present? (t : Token) : Option Token :=
  if t.isZeroWidth then none else some t

theorem width_fullText (t : Token) : t.fullText.width = t.fullWidth := by
  simp [fullText, fullWidth, width, TriviaList.width, Nat.add_assoc]

/-- Form of a token in a dump: kind, full width and quoted text. -/
def shown (t : Token) : Text :=
  t.kind.label ++ "@".toList ++ Text.decimal t.fullWidth ++
    (if t.isZeroWidth then " (missing)".toList else " ".toList ++ Text.quoted t.text)

end Token

end Verbatim
