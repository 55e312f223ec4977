/-
  What can go wrong, as causes.

  `LookupError` is the answer of an accessor that was asked for something an
  element does not have; it is an ordinary result.  A `Fault` is a broken
  contract: the caller did something that has no meaning, and the operation has
  no result at all.  Malformed source text causes neither.  Each cause has one
  wording, fixed here.
-/
import Verbatim.Kind

set_option autoImplicit false

namespace Verbatim

/-! ## Lookup errors -/

/-- What a slot of a separated list has to hold. -/
inductive SlotRole where
  | node | separator
  deriving DecidableEq, Repr, Inhabited

namespace SlotRole

/-- Slots alternate, and the first one is a node. -/
def ofIndex (slot : Nat) : SlotRole :=
  if slot % 2 = 0 then .node else .separator

/-- The role in the wording of an error. -/
def wording : SlotRole → String
  | .node => "node"
  | .separator => "separator token"

end SlotRole

/-- Answer of an accessor that was asked for something an element does not have. -/
inductive LookupError where
  /-- There are `count` entries and none at `index`. -/
  | indexOutOfRange (index count : Nat)
  /-- The position lies outside an element of the given width, or no token is there. -/
  | positionOutOfRange (position width : Nat)
  /-- The node is the last one and no separator follows it. -/
  | missingSeparator (index : Nat)
  /-- The first slot that breaks the alternation, and what it has to hold. -/
  | malformedSeparatedList (slot : Nat) (expected : SlotRole)
  deriving DecidableEq, Repr, Inhabited

namespace LookupError

/-- Wording of a lookup error. -/
def message : LookupError → String
  | .indexOutOfRange index count =>
      s!"index {index} is out of range for an element with {count} entries"
  | .positionOutOfRange position width =>
      s!"position {position} is outside of an element spanning 0..{width}"
  | .missingSeparator index => s!"node {index} is not followed by a separator"
  | .malformedSeparatedList slot expected =>
      "separated list slot " ++ toString slot ++ " must be a " ++ expected.wording

end LookupError

/-! ## Misuse of the tree builder -/

/-- Something that a tree builder has open, with the number of finished elements
that came before it. -/
inductive Frame where
  | node (kind : Kind) (firstChild : Nat)
  | list (firstChild : Nat)
  | separated (firstChild : Nat)
  deriving DecidableEq, Repr, Inhabited

namespace Frame

/-- Number of finished elements that came before the frame was opened. -/
def firstChild : Frame → Nat
  | .node _ n => n
  | .list n => n
  | .separated n => n

/-- Form of an open frame in a message. -/
def shown : Frame → String
  | .node kind n =>
      "Node \x7b kind: " ++ kind.name ++ ", first_child: " ++ toString n ++ " \x7d"
  | .list n => "List \x7b first_child: " ++ toString n ++ " \x7d"
  | .separated n => "SeparatedList \x7b first_child: " ++ toString n ++ " \x7d"

end Frame

/-- A call that a tree builder refuses. -/
inductive Misuse where
  /-- The call needs an open frame and there is none. -/
  | nothingOpen
  /-- The call needs an open node and the innermost frame is a list. -/
  | listIsOpen
  /-- The innermost frame is not a list. -/
  | noOpenList
  /-- The innermost frame is not a separated list. -/
  | noOpenSeparatedList
  /-- A list was finished over something that is not a node. -/
  | notANode (shown : String)
  /-- A separated list was finished over something that is neither node nor token. -/
  | notASlot (shown : String)
  /-- A separated list was finished over slots that do not alternate. -/
  | malformedSlots (error : LookupError)
  /-- A token was added to a list of nodes. -/
  | tokenInList (shown : String)
  /-- The tree was finished with frames still open, outermost first. -/
  | unfinished (frames : List Frame)
  /-- The finished elements are not one single node. -/
  | notOneRoot
  /-- The builder was given up with frames still open. -/
  | abandoned
  deriving DecidableEq, Repr, Inhabited

namespace Misuse

/-- Wording of a refused call. -/
def message : Misuse → String
  | .nothingOpen => "no opened nodes?"
  | .listIsOpen => "expected an opened node, found an opened list"
  | .noOpenList => "expected an opened list"
  | .noOpenSeparatedList => "expected an opened separated list"
  | .notANode shown => s!"lists hold nodes only, found {shown}"
  | .notASlot shown => s!"separated lists hold nodes and tokens only, found {shown}"
  | .malformedSlots error => "malformed separated list: " ++ error.message
  | .tokenInList shown => s!"cannot add {shown} to a list of nodes"
  | .unfinished frames =>
      "unfinished nodes: [" ++ ", ".intercalate (frames.map Frame.shown) ++ "]"
  | .notOneRoot => "a tree must have exactly one root node"
  | .abandoned => "you should call `TreeBuilder::finish()`"

end Misuse

/-! ## Faults -/

/-- A broken contract. -/
inductive Fault where
  /-- A text was cut inside a character or past its end. -/
  | cut
  /-- A sum of offsets does not fit in 32 bits, or one of indexes in 64. -/
  | sumTooLarge
  /-- A product of offsets does not fit in 32 bits, or one of indexes in 64. -/
  | productTooLarge
  /-- Trivia pieces of total length `pieces` were given for a text of width `text`. -/
  | uncovered (pieces text : Nat)
  /-- A token was given a kind that labels no token. -/
  | notTokenKind (kind : Kind)
  /-- A node was given a kind that labels no node. -/
  | notNodeKind (kind : Kind)
  /-- A traversal was told to skip while no node is open. -/
  | nothingToSkip
  /-- A line and column was asked for an offset that has none. -/
  | invalidOffset
  /-- A range was given with its ends in the wrong order. -/
  | reversedRange
  /-- A tree builder refused a call. -/
  | misuse (cause : Misuse)
  /-- The wrapper announced for a parsed node is not there. -/
  | brokenLink
  /-- A recursion ran out of its budget. -/
  | exhausted
  deriving DecidableEq, Repr, Inhabited

namespace Fault

/-- Wording of a fault.  A bad cut has none of its own. -/
def message : Fault → Option String
  | .cut => none
  | .sumTooLarge => some "attempt to add with overflow"
  | .productTooLarge => some "attempt to multiply with overflow"
  | .uncovered pieces text => some <|
      "assertion `left == right` failed: trivia pieces must cover the text exactly\n  left: "
        ++ toString pieces ++ "\n right: " ++ toString text
  | .notTokenKind kind => some (kind.name ++ " is not a token kind")
  | .notNodeKind kind => some (kind.name ++ " is not a node kind")
  | .nothingToSkip => some "must have a subtree to skip"
  | .invalidOffset => some "invalid offset"
  | .reversedRange => some "assertion failed: start.raw <= end.raw"
  | .misuse cause => some cause.message
  | .brokenLink => some "internal error: entered unreachable code"
  | .exhausted => some "recursion budget exhausted"

end Fault

/-! ## Numbers below a bound -/

namespace Bounded

/-- Sum of two numbers, which has to lie below the bound again. -/
def add (limit a b : Nat) : Except Fault Nat :=
  if a + b < limit then .ok (a + b) else .error .sumTooLarge

/-- Product of two numbers, which has to lie below the bound again. -/
def mul (limit a b : Nat) : Except Fault Nat :=
  if a * b < limit then .ok (a * b) else .error .productTooLarge

end Bounded

/-! ## Offsets of 32 bits -/

namespace Offset

/-- Offsets lie below this bound. -/
def limit : Nat := 4294967296

/-- Sum of two offsets, which has to be an offset again. -/
def add : Nat → Nat → Except Fault Nat :=
  Bounded.add limit

/-- Product of two offsets, which has to be an offset again. -/
def mul : Nat → Nat → Except Fault Nat :=
  Bounded.mul limit

/-- Sum of many offsets, added from the left. -/
def sum (xs : List Nat) : Except Fault Nat :=
  xs.foldlM add 0

end Offset

end Verbatim
