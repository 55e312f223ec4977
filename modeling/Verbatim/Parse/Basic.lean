/-
  Parsing a source text.

  Parsing always yields a tree that reproduces the text exactly, together with the
  problems found, ordered by where they start.
-/
import Verbatim.Parse.Statement

set_option autoImplicit false

namespace Verbatim

/-- The tree of a source text and the problems found in it. -/
structure Parse where
  root : Element
  diagnostics : List Diagnostic
  deriving DecidableEq, Repr, Inhabited

/-- Nesting and repetition that a sequence of this many tokens can need. -/
def Parser.budget (tokenCount : Nat) : Nat :=
  tokenCount + 4

/-- The events of a token sequence, and the problems reported on the way. -/
def parseTokens (tokens : List ScannedToken) (options : ParseOptions) :
    Except Fault (Segment × List Diagnostic) := do
  let (events, state) ←
    (Parser.sourceUnit options (Parser.budget tokens.length)).run (.start tokens)
  return (events, state.diagnostics)

/-- Parses a source text. -/
def parse (source : Text) (options : ParseOptions) : Except Fault Parse := do
  let scanned ← scan source
  let (events, reported) ← parseTokens scanned.tokens options
  let root ← Segment.replay events
  return ⟨root, Diagnostic.sort (scanned.diagnostics ++ reported)⟩

end Verbatim
