/-
  Which elements are one and the same object.

  Trees share subtrees: an edit makes new elements along the edited path and keeps
  the others.  Elements are values and do not show this, so a shared tree carries
  an identity for every element beside the element itself.  Copies keep the
  identity, and everything that is made anew gets a fresh one.
-/
import Verbatim.Tree.Basic

set_option autoImplicit false

namespace Verbatim

/-- An element with the identity of every part of it. -/
inductive Shared where
  | mk (identity : Nat) (element : Element) (parts : List Shared)
  deriving Repr, Inhabited

namespace Shared

/-- The element itself. -/
def element : Shared → Element
  | .mk _ e _ => e

/-- The identity of the element. -/
def identity : Shared → Nat
  | .mk i _ _ => i

/-- The parts that the element is directly made of. -/
def parts : Shared → List Shared
  | .mk _ _ ps => ps

/-! ## Making shared elements -/

mutual

/-- Gives every part of an element a fresh identity, counted from `next` on, and
answers the next unused identity. -/
def fresh : Element → Nat → Shared × Nat
  | .token t, next => (.mk next (.token t) [], next + 1)
  | .node k m cs, next =>
      let (parts, after) := freshAll cs (next + 1)
      (.mk next (.node k m cs) parts, after)
  | .list m cs, next =>
      let (parts, after) := freshAll cs (next + 1)
      (.mk next (.list m cs) parts, after)
  | .separated m cs, next =>
      let (parts, after) := freshAll cs (next + 1)
      (.mk next (.separated m cs) parts, after)

/-- Gives every part of neighbours a fresh identity. -/
def freshAll : List Element → Nat → List Shared × Nat
  | [], next => ([], next)
  | e :: rest, next =>
      let (head, after) := fresh e next
      let (tail, last) := freshAll rest after
      (head :: tail, last)

end

/-- A new node over shared children. -/
def newNode (identity : Nat) (kind : Kind) (parts : List Shared) : Except Fault Shared := do
  return .mk identity (← Element.newNode kind (parts.map element)) parts

/-- A new list over shared nodes. -/
def newList (identity : Nat) (parts : List Shared) : Shared :=
  .mk identity (Element.makeList (parts.map element)) parts

/-- A new separated list over shared slots. -/
def newSeparated (identity : Nat) (parts : List Shared) : Except LookupError Shared := do
  return .mk identity (← Element.newSeparated (parts.map element)) parts

/-- The element with one child replaced; the other children are kept. -/
def replaceChild (identity : Nat) (s : Shared) (index : Nat) (new : Shared) :
    Except LookupError Shared := do
  return .mk identity (← s.element.replaceChild index new.element) (s.parts.set index new)

/-! ## Reading shared elements -/

/-- The part reached by a path of indexes. -/
def at? : Shared → List Nat → Except LookupError Shared
  | s, [] => .ok s
  | s, index :: rest =>
      match s.parts[index]? with
      | some part => part.at? rest
      | none => .error (.indexOutOfRange index s.parts.length)

/-- Whether two elements are one object.  Lists without nodes are all one object;
separated lists cannot be told apart this way. -/
def same (a b : Shared) : Option Bool :=
  match a.element, b.element with
  | .separated .., .separated .. => none
  | .list _ xs, .list _ ys =>
      if xs.isEmpty && ys.isEmpty then some true else some (a.identity == b.identity)
  | x, y => some (x.category == y.category && a.identity == b.identity)

end Shared

end Verbatim
