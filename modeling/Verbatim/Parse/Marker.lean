/-
  Writing output down through markers.

  A node starts before it is known which one it will be: its start is written as a tombstone,
  and a marker remembers the place.  Completing the marker decides the kind of the start and
  ends the node.  A completed node can be preceded by a new one, which starts behind it and
  is to stand around it; the start of the completed node gets a link there.  A log is what has
  been written so far.

  Drafts are the programs that complete markers in stack order.  A draft writes a log, and it
  also says directly which elements it stands for, without events and links.
-/
import Verbatim.Parse.Event

set_option autoImplicit false

namespace Verbatim

/-! ## Markers -/

/-- Writing to a log. -/
abbrev Log := StateT Segment (Except Fault)

/-- The place of a start whose kind is not decided.  Places are counted in 32 bits. -/
structure Marker where
  position : UInt32
  deriving DecidableEq, Repr, Inhabited

/-- The place of the start of a node that has been completed. -/
structure CompletedMarker where
  position : UInt32
  deriving DecidableEq, Repr, Inhabited

/-- The end of a list that has been started. -/
structure ListMarker where
  finish : Event
  deriving DecidableEq, Repr, Inhabited

namespace Log

/-- Writes one event. -/
def push (e : Event) : Log Unit :=
  modify fun events => events ++ [e]

/-- Starts a node. -/
def start : Log Marker := do
  let position := (← get).length.toUInt32
  push .tombstone
  return ⟨position⟩

/-- Starts a list. -/
def startList : Log ListMarker := do
  push .startList
  return ⟨.finishList⟩

/-- Starts a separated list. -/
def startSeparated : Log ListMarker := do
  push .startSeparated
  return ⟨.finishSeparated⟩

/-- Changes the start at a place.  There has to be one. -/
def changeStart (position : UInt32) (change : Kind → Option Nat → Event) : Log Unit := do
  let events ← get
  match events[position.toNat]? with
  | some (.start kind link) => set (events.set position.toNat (change kind link))
  | _ => throw .brokenLink

end Log

/-- Decides the kind of a node and ends it. -/
def Marker.complete (m : Marker) (kind : Kind) : Log CompletedMarker := do
  Log.changeStart m.position fun _ link => .start kind link
  Log.push .finish
  return ⟨m.position⟩

/-- Starts a node that is to stand around a completed one. -/
def CompletedMarker.precede (c : CompletedMarker) : Log Marker := do
  let m ← Log.start
  Log.changeStart c.position fun kind _ => .start kind (some (m.position - c.position).toNat)
  return m

/-- Ends a list. -/
def ListMarker.complete (m : ListMarker) : Log Unit :=
  Log.push m.finish

/-! ## Drafts -/

mutual

/-- What is written between the start and the end of a node or a list: tokens, lists and nodes,
one behind the other. -/
inductive Draft where
  | done
  | token (token : ScannedToken) (rest : Draft)
  /-- A token that the source does not have. -/
  | missing (kind : Kind) (rest : Draft)
  | list (inner rest : Draft)
  | separated (inner rest : Draft)
  | node (first : NodeDraft) (rest : Draft)

/-- A node, with the nodes that are put around it after it has been completed. -/
inductive NodeDraft where
  | complete (inner : Draft) (kind : Kind)
  /-- The node around a completed one, and what is written in it behind that one. -/
  | precede (first : NodeDraft) (inner : Draft) (kind : Kind)

end

mutual

/-- Writes a draft to a log. -/
def Draft.write : Draft → Log Unit
  | .done => return ()
  | .token t rest => do
      Log.push (.token t)
      rest.write
  | .missing kind rest => do
      Log.push (.missing kind)
      rest.write
  | .list inner rest => do
      let m ← Log.startList
      inner.write
      m.complete
      rest.write
  | .separated inner rest => do
      let m ← Log.startSeparated
      inner.write
      m.complete
      rest.write
  | .node first rest => do
      let _ ← first.write
      rest.write

/-- Writes a node to a log. -/
def NodeDraft.write : NodeDraft → Log CompletedMarker
  | .complete inner kind => do
      let m ← Log.start
      inner.write
      m.complete kind
  | .precede first inner kind => do
      let c ← first.write
      let m ← c.precede
      inner.write
      m.complete kind

end

mutual

/-- Number of events that a draft writes. -/
def Draft.size : Draft → Nat
  | .done => 0
  | .token _ rest => rest.size + 1
  | .missing _ rest => rest.size + 1
  | .list inner rest => inner.size + 2 + rest.size
  | .separated inner rest => inner.size + 2 + rest.size
  | .node first rest => first.size + rest.size

/-- Number of events that a node writes. -/
def NodeDraft.size : NodeDraft → Nat
  | .complete inner _ => inner.size + 2
  | .precede first inner _ => first.size + (inner.size + 2)

end

mutual

/-- The elements that a draft stands for: a node or a list is closed over what is written
inside of it. -/
def Draft.build : Draft → Except Fault (List Element)
  | .done => return []
  | .token t rest => do
      let token ← Token.new t.kind t.text t.leading t.trailing
      return .token token :: (← rest.build)
  | .missing kind rest => do
      let token ← Token.missing kind
      return .token token :: (← rest.build)
  | .list inner rest => do
      let nodes ← inner.build
      Builder.requireNodes nodes
      return Element.makeList nodes :: (← rest.build)
  | .separated inner rest => do
      let slots ← inner.build
      Builder.requireSlots slots
      match Element.newSeparated slots with
      | .ok list => return list :: (← rest.build)
      | .error error => throw (.misuse (.malformedSlots error))
  | .node first rest => do
      return (← first.build) :: (← rest.build)

/-- The node that a draft stands for.  A node that is put around a completed one has that one
as its first child. -/
def NodeDraft.build : NodeDraft → Except Fault Element
  | .complete inner kind => do
      Element.newNode kind (← inner.build)
  | .precede first inner kind => do
      let child ← first.build
      Element.newNode kind (child :: (← inner.build))

end

/-- The tree that a draft stands for, if it is one node. -/
def Draft.tree (d : Draft) : Except Fault Element := do
  match ← d.build with
  | [.node kind measure children] => return .node kind measure children
  | _ => throw (.misuse .notOneRoot)

end Verbatim
