/-
  Parse events, and the tree that a list of events stands for.

  A parser does not build nodes; it writes down where nodes start and finish.  A
  node that turns out to be the first child of a larger one is not moved: the
  larger node starts later in the list, and the start of the smaller one carries
  a link to it, the distance between the two starts.  Replaying the list opens
  linked nodes from the outermost inwards and passes everything else to the tree
  builder in order.
-/
import Verbatim.Scan.Basic
import Verbatim.Tree.Builder

set_option autoImplicit false

namespace Verbatim

/-! ## Events -/

/-- One entry of a parser's output. -/
inductive Event where
  /-- A node starts.  The link is the distance to the start of the node around it. -/
  | start (kind : Kind) (link : Option Nat)
  | finish
  | startList
  | finishList
  | startSeparated
  | finishSeparated
  | token (token : ScannedToken)
  /-- A token that the source does not have. -/
  | missing (kind : Kind)
  deriving DecidableEq, Repr, Inhabited

/-- A piece of a parser's output. -/
abbrev Segment := List Event

namespace Event

/-- A start that has been dealt with. -/
def tombstone : Event := .start .tombstone none

end Event

namespace Segment

/-- A finished node over a piece of output. -/
def node (kind : Kind) (inner : Segment) : Segment :=
  .start kind none :: (inner ++ [.finish])

/-- A finished list over a piece of output. -/
def list (inner : Segment) : Segment :=
  .startList :: (inner ++ [.finishList])

/-- A finished separated list over a piece of output. -/
def separated (inner : Segment) : Segment :=
  .startSeparated :: (inner ++ [.finishSeparated])

/-- Sets the link of the start at an index. -/
def setLink : Segment → Nat → Nat → Segment
  | [], _, _ => []
  | .start kind _ :: rest, 0, link => .start kind (some link) :: rest
  | e :: rest, 0, _ => e :: rest
  | e :: rest, index + 1, link => e :: setLink rest index link

end Segment

/-- A finished node that can still become the first child of a larger one: its
output, and the index in it at which the outermost node starts. -/
structure Completed where
  events : Segment
  outer : Nat
  deriving DecidableEq, Repr, Inhabited

namespace Completed

/-- A finished node over a piece of output. -/
def node (kind : Kind) (inner : Segment) : Completed :=
  ⟨Segment.node kind inner, 0⟩

/-- Makes a finished node the first child of a new node that ends with `inner`. -/
def wrap (c : Completed) (kind : Kind) (inner : Segment) : Completed :=
  ⟨c.events.setLink c.outer (c.events.length - c.outer) ++ Segment.node kind inner,
    c.events.length⟩

end Completed

/-! ## Replay -/

namespace Segment

/-- Follows links from the start at `index`.  Answers the kinds met, innermost
first, and the events with these starts marked as dealt with. -/
def follow : Nat → Nat → Segment → Except Fault (List Kind × Segment)
  | 0, _, _ => .error .exhausted
  | budget + 1, index, events =>
      match events[index]? with
      | some (.start kind link) =>
          let here := if kind = .tombstone then [] else [kind]
          let marked := events.set index .tombstone
          match link with
          | none => .ok (here, marked)
          | some distance => do
              let (outer, marked) ← follow budget (index + distance) marked
              return (here ++ outer, marked)
      | _ => .error .brokenLink

/-- Passes the next `budget` events to a builder. -/
def replayFrom : Nat → Segment → Builder → Except Fault Builder
  | 0, _, b => .ok b
  | _ + 1, [], b => .ok b
  | budget + 1, .start kind link :: rest, b =>
      if kind = .tombstone then replayFrom budget rest b
      else
        match link with
        -- A link of distance 0 leads to this start itself, which has been dealt with.
        | none | some 0 => replayFrom budget rest (b.startNode kind)
        | some (distance + 1) => do
            let (outer, rest) ← follow (rest.length + 1) distance rest
            replayFrom budget rest ((kind :: outer).reverse.foldl Builder.startNode b)
  | budget + 1, .finish :: rest, b => do replayFrom budget rest (← b.finishNode)
  | budget + 1, .startList :: rest, b => do replayFrom budget rest (← b.startList)
  | budget + 1, .finishList :: rest, b => do replayFrom budget rest (← b.finishList)
  | budget + 1, .startSeparated :: rest, b => do replayFrom budget rest (← b.startSeparated)
  | budget + 1, .finishSeparated :: rest, b => do replayFrom budget rest (← b.finishSeparated)
  | budget + 1, .token t :: rest, b => do
      replayFrom budget rest (← b.token t.kind t.text t.leading t.trailing)
  | budget + 1, .missing kind :: rest, b => do replayFrom budget rest (← b.missing kind)

/-- The tree that a list of events stands for. -/
def replay (events : Segment) : Except Fault Element := do
  let b ← replayFrom events.length events .empty
  b.finish

end Segment

end Verbatim
