/-
  Finding elements by position.

  Elements keep no absolute positions.  A lookup walks the children with a running
  offset, and a deep lookup repeats that from a root down to a token.  Spans are
  half-open: a boundary belongs to the child that starts there, so children of no
  width are never found by the scan.  The end of the whole span belongs to the
  last child that has a width, and where nothing has a width the leftmost child
  that holds a token is taken.
-/
import Verbatim.Tree.Basic

set_option autoImplicit false

namespace Verbatim.Element

/-! ## One level -/

/-- Scans children from `offset` on, remembering the last child with a width and
the first one without that holds a token. -/
def scanChildren (position : Nat) :
    List Element → Nat → Option (Element × Nat) → Option (Element × Nat) →
      Option (Element × Nat)
  | [], _, lastWide, firstZero => lastWide.or firstZero
  | e :: rest, offset, lastWide, firstZero =>
      if e.width = 0 then
        scanChildren position rest offset lastWide
          (if firstZero.isNone && e.containsToken then some (e, offset) else firstZero)
      else if offset ≤ position ∧ position < offset + e.width then some (e, offset)
      else scanChildren position rest (offset + e.width) (some (e, offset)) firstZero

/-- The child that spans a position, with its start; both count from the start of
the element. -/
def childAt (e : Element) (position : Nat) : Except LookupError (Element × Nat) :=
  if e.width < position then .error (.positionOutOfRange position e.width)
  else
    match scanChildren position e.children 0 none none with
    | some found => .ok found
    | none => .error (.positionOutOfRange position e.width)

/-! ## From a root down to a token -/

/-- Something at an absolute start. -/
structure Located (α : Type) where
  start : Nat
  item : α
  deriving DecidableEq, Repr, Inhabited

/-- End of a located element. -/
def Located.stop (l : Located Element) : Nat :=
  l.start + l.item.width

/-- Nodes passed on the way down, outermost first, and the token reached. -/
structure Descent where
  nodes : List (Located Element)
  token : Located Token
  deriving DecidableEq, Repr, Inhabited

/-- Walks down at most `budget` levels to the token at an absolute position.
Lists are passed through without being recorded. -/
def descendFrom : Nat → Element → Nat → Nat → Except LookupError Descent
  | _, .token t, _, start => .ok ⟨[], ⟨start, t⟩⟩
  | 0, e, position, start => .error (.positionOutOfRange (position - start) e.width)
  | budget + 1, e, position, start =>
      match e.childAt (position - start) with
      | .error error => .error error
      | .ok (c, offset) =>
          match descendFrom budget c position (start + offset) with
          | .error error => .error error
          | .ok found =>
              .ok { found with nodes := if e.isNode then ⟨start, e⟩ :: found.nodes
                                        else found.nodes }

/-- Walks down to the token at a position. -/
def descend (root : Element) (position : Nat) : Except LookupError Descent :=
  descendFrom root.height root position 0

/-- The token whose full span holds a position. -/
def tokenAt (root : Element) (position : Nat) : Except LookupError (Located Token) :=
  (root.descend position).map Descent.token

/-- The nodes around a position, outermost first. -/
def ancestorsAt (root : Element) (position : Nat) :
    Except LookupError (List (Located Element)) :=
  (root.descend position).map Descent.nodes

/-- The innermost node around a position that satisfies a predicate. -/
def innermostAt (root : Element) (position : Nat) (pred : Element → Bool) :
    Except LookupError (Option (Located Element)) :=
  (root.ancestorsAt position).map fun nodes => nodes.reverse.find? fun l => pred l.item

end Verbatim.Element
