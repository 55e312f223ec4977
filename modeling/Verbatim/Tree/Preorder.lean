/-
  Preorder traversal over the nodes and tokens of a tree.

  The traversal is a small machine: a stack of open nodes, each with the part of
  its flattened children that has not been visited, and the root as long as it
  has not been entered.  Skipping closes the innermost open node without a leave
  event.  The machine can be stopped and skipped at any point.
-/
import Verbatim.Tree.Basic

set_option autoImplicit false

namespace Verbatim

/-- A step of a preorder traversal.  Lists do not show. -/
inductive WalkEvent where
  | enter (node : Element)
  | leave (node : Element)
  | token (token : Token)
  deriving DecidableEq, Repr, Inhabited

namespace WalkEvent

/-- The token of a token step. -/
def token? : WalkEvent → Option Token
  | .token t => some t
  | _ => none

end WalkEvent

/-- A traversal in progress: the open nodes with their unvisited children,
innermost first, and the root while it has not been entered. -/
structure Preorder where
  stack : List (Element × List Element)
  root : Option Element
  deriving DecidableEq, Repr, Inhabited

namespace Preorder

/-- A traversal that has not entered its root. -/
def start (root : Element) : Preorder :=
  ⟨[], some root⟩

/-- Makes one step. -/
def next (p : Preorder) : Option WalkEvent × Preorder :=
  match p.stack with
  | [] =>
      match p.root with
      | none => (none, p)
      | some root => (some (.enter root), ⟨[(root, root.flatChildren)], none⟩)
  | (node, []) :: outer => (some (.leave node), { p with stack := outer })
  | (node, .token t :: rest) :: outer => (some (.token t), { p with stack := (node, rest) :: outer })
  | (node, child :: rest) :: outer =>
      (some (.enter child), { p with stack := (child, child.flatChildren) :: (node, rest) :: outer })

/-- Closes the innermost open node without visiting the rest of it. -/
def skip (p : Preorder) : Except Fault Preorder :=
  match p.stack with
  | [] => .error .nothingToSkip
  | _ :: outer => .ok { p with stack := outer }

/-- The next `budget` steps, or fewer where the traversal ends. -/
def run : Nat → Preorder → List WalkEvent
  | 0, _ => []
  | budget + 1, p =>
      match p.next with
      | (none, _) => []
      | (some event, rest) => event :: run budget rest

/-- The next `budget` steps of a traversal that skips right after the steps that
`skipAfter` selects by index and event. -/
def runSkipping (skipAfter : Nat → WalkEvent → Bool) :
    Nat → Nat → Preorder → Except Fault (List WalkEvent)
  | 0, _, _ => .ok []
  | budget + 1, index, p =>
      match p.next with
      | (none, _) => .ok []
      | (some event, rest) => do
          let rest ← if skipAfter index event then rest.skip else pure rest
          let events ← runSkipping skipAfter budget (index + 1) rest
          return event :: events

end Preorder

namespace Element

mutual

/-- Number of elements of the subtree. -/
def size : Element → Nat
  | .token _ => 1
  | .node _ _ cs => sizeAll cs + 1
  | .list _ cs => sizeAll cs + 1
  | .separated _ cs => sizeAll cs + 1

/-- Number of elements of neighbours. -/
def sizeAll : List Element → Nat
  | [] => 0
  | e :: rest => e.size + sizeAll rest

end

/-- Steps that are enough for a whole traversal, its end included. -/
def walkBudget (root : Element) : Nat :=
  2 * root.size + 1

/-- All steps of the traversal of a node. -/
def preorder (root : Element) : List WalkEvent :=
  Preorder.run root.walkBudget (.start root)

/-- All steps of a traversal that skips after selected ones. -/
def preorderSkipping (root : Element) (skipAfter : Nat → WalkEvent → Bool) :
    Except Fault (List WalkEvent) :=
  Preorder.runSkipping skipAfter root.walkBudget 0 (.start root)

/-- The tokens of a node in source order. -/
def tokens (root : Element) : List Token :=
  root.preorder.filterMap WalkEvent.token?

end Element

end Verbatim
