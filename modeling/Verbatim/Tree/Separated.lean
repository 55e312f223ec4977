/-
  Separated lists: nodes alternating with separator tokens, as in `a, b, c`.

  Nodes stand in the even slots and separators in the odd ones, so counts and
  indexes of nodes and separators follow from the slots.  A separator behind the
  last node is legal.  Slots are enumerated from both ends, and so are the nodes,
  by steps over the slots.
-/
import Verbatim.Tree.Basic

set_option autoImplicit false

namespace Verbatim

/-! ## Indexes of 64 bits -/

namespace Index

/-- Indexes lie below this bound. -/
def limit : Nat := 18446744073709551616

/-- Sum of two indexes, which has to be an index again. -/
def add : Nat → Nat → Except Fault Nat :=
  Bounded.add limit

/-- Product of two indexes, which has to be an index again. -/
def mul : Nat → Nat → Except Fault Nat :=
  Bounded.mul limit

end Index

/-! ## Access by index -/

namespace Separated

/-- Number of nodes. -/
def count (slots : List Element) : Nat :=
  (slots.length + 1) / 2

/-- Number of separators. -/
def separatorCount (slots : List Element) : Nat :=
  slots.length / 2

/-- A separator follows the last node. -/
def hasTrailingSeparator (slots : List Element) : Bool :=
  slots.length != 0 && slots.length % 2 == 0

/-- The node at an index, separators not counted.  An index that cannot be doubled is out
of range as well. -/
def nodeAt (slots : List Element) (index : Nat) : Except LookupError Element :=
  match Index.mul index 2 with
  | .error _ => .error (.indexOutOfRange index (count slots))
  | .ok slot =>
      match slots[slot]? with
      | some e => if e.isNode then .ok e else .error (.indexOutOfRange index (count slots))
      | none => .error (.indexOutOfRange index (count slots))

/-- The separator behind the node at an index, with `slotOf` to compute the index of its slot.
The last node may lack one, which is told apart from an index that is out of range. -/
def separatorBehind {m : Type → Type} [Monad m] (slotOf : Nat → m Nat) (slots : List Element)
    (index : Nat) : m (Except LookupError Element) :=
  if count slots ≤ index then return .error (.indexOutOfRange index (separatorCount slots))
  else do
    let slot ← slotOf index
    return match slots[slot]? with
      | some e => if e.isToken then .ok e else .error (.missingSeparator index)
      | none => .error (.missingSeparator index)

/-- The separator behind the node at an index. -/
def separatorAt (slots : List Element) (index : Nat) : Except LookupError Element :=
  Id.run (separatorBehind (fun i => pure (2 * i + 1)) slots index)

theorem separatorAt_eq_ite (slots : List Element) (index : Nat) :
    separatorAt slots index =
      if count slots ≤ index then .error (.indexOutOfRange index (separatorCount slots))
      else match slots[2 * index + 1]? with
        | some e => if e.isToken then .ok e else .error (.missingSeparator index)
        | none => .error (.missingSeparator index) :=
  rfl

/-- The separator behind the node at an index, with the index of its slot computed in
64 bits and nothing in place of a sum or product that does not fit. -/
def fetchSeparator (slots : List Element) (index : Nat) :
    Except Fault (Except LookupError Element) :=
  separatorBehind (fun i => do Index.add (← Index.mul 2 i) 1) slots index

/-- The node or separator at an index. -/
def slotAt (slots : List Element) (index : Nat) : Except LookupError Element :=
  match slots[index]? with
  | some e => .ok e
  | none => .error (.indexOutOfRange index slots.length)

/-- The even slots. -/
def evenSlots : List Element → List Element
  | [] => []
  | [e] => [e]
  | e :: _ :: rest => e :: evenSlots rest

/-- The nodes without the separators. -/
def nodes (slots : List Element) : List Element :=
  (evenSlots slots).filter Element.isNode

/-! ## Enumeration from both ends -/

/-- The slots between two ends that have not been handed out. -/
structure SlotCursor where
  slots : List Element
  start : Nat
  stop : Nat
  deriving DecidableEq, Repr, Inhabited

namespace SlotCursor

/-- A cursor over all slots. -/
def ofSlots (slots : List Element) : SlotCursor :=
  ⟨slots, 0, slots.length⟩

/-- Number of slots that are left. -/
def remaining (c : SlotCursor) : Nat :=
  c.stop - c.start

/-- Skips slots at the front and hands out the next one. -/
def nth (c : SlotCursor) (skipped : Nat) : Option Element × SlotCursor :=
  if skipped < c.remaining then
    (c.slots[c.start + skipped]?, { c with start := c.start + skipped + 1 })
  else (none, { c with start := c.stop })

/-- Skips slots at the back and hands out the next one. -/
def nthBack (c : SlotCursor) (skipped : Nat) : Option Element × SlotCursor :=
  if skipped < c.remaining then
    (c.slots[c.stop - skipped - 1]?, { c with stop := c.stop - skipped - 1 })
  else (none, { c with stop := c.start })

/-- Hands out the first slot that is left. -/
def next (c : SlotCursor) : Option Element × SlotCursor :=
  c.nth 0

/-- Hands out the last slot that is left. -/
def nextBack (c : SlotCursor) : Option Element × SlotCursor :=
  c.nthBack 0

end SlotCursor

/-- A cursor over every second slot.  As long as it is fresh, that is until the first step from
the front, the slots that are left start with one of these, and later with one in between. -/
structure NodeCursor where
  inner : SlotCursor
  fresh : Bool
  deriving DecidableEq, Repr, Inhabited

namespace NodeCursor

/-- A cursor over the nodes of all slots. -/
def ofSlots (slots : List Element) : NodeCursor :=
  ⟨.ofSlots slots, true⟩

/-- One step from the front. -/
def step (c : NodeCursor) : Option Element × NodeCursor :=
  let (e, inner) := c.inner.nth (if c.fresh then 0 else 1)
  (e, ⟨inner, false⟩)

/-- Number of slots at the back behind the last one of every two. -/
def skippedBack (c : NodeCursor) : Nat :=
  let odd := c.inner.remaining % 2
  if c.fresh then if odd = 0 then 1 else odd - 1 else odd

/-- One step from the back. -/
def stepBack (c : NodeCursor) : Option Element × NodeCursor :=
  let (e, inner) := c.inner.nthBack c.skippedBack
  (e, { c with inner := inner })

/-- Makes steps until one comes to a node or finds nothing left. -/
def findNode (step : NodeCursor → Option Element × NodeCursor) :
    Nat → NodeCursor → Option Element × NodeCursor
  | 0, c => (none, c)
  | budget + 1, c =>
      match step c with
      | (none, after) => (none, after)
      | (some e, after) => if e.isNode then (some e, after) else findNode step budget after

/-- Hands out the first node that is left.  There are no more steps than slots. -/
def next (c : NodeCursor) : Option Element × NodeCursor :=
  findNode step (c.inner.remaining + 1) c

/-- Hands out the last node that is left. -/
def nextBack (c : NodeCursor) : Option Element × NodeCursor :=
  findNode stepBack (c.inner.remaining + 1) c

end NodeCursor

end Separated

end Verbatim
