/-
  Building a tree from the bottom up.

  The builder takes nested start and finish calls.  All finished elements stand in
  one buffer; an open frame remembers how long the buffer was when it was opened,
  and finishing a frame replaces everything behind that mark by one element.  A
  call that makes no sense is refused, and a refused call is a fault.
-/
import Verbatim.Tree.Shown

set_option autoImplicit false

namespace Verbatim

/-- A tree under construction: the open frames, innermost first, and the finished
elements in source order. -/
structure Builder where
  opened : List Frame
  finished : List Element
  deriving DecidableEq, Repr, Inhabited

namespace Builder

/-- Nothing is open and nothing is finished. -/
def empty : Builder := ⟨[], []⟩

/-- The innermost open frame. -/
def innermost (b : Builder) : Except Fault Frame :=
  match b.opened with
  | [] => .error (.misuse .nothingOpen)
  | frame :: _ => .ok frame

/-- Refuses unless the innermost open frame is a node. -/
def requireNode (b : Builder) : Except Fault Unit := do
  match ← b.innermost with
  | .node .. => return ()
  | _ => throw (.misuse .listIsOpen)

/-- Adds a finished element. -/
def push (b : Builder) (e : Element) : Builder :=
  { b with finished := b.finished ++ [e] }

/-- Closes the innermost frame, replacing what came after its mark by one element. -/
def close (b : Builder) (mark : Nat) (e : Element) : Builder :=
  ⟨b.opened.tail, b.finished.take mark ++ [e]⟩

/-- Opens a node. -/
def startNode (b : Builder) (kind : Kind) : Builder :=
  { b with opened := .node kind b.finished.length :: b.opened }

/-- Finishes the node that was opened last. -/
def finishNode (b : Builder) : Except Fault Builder := do
  match ← b.innermost with
  | .node kind mark =>
      let e ← Element.newNode kind (b.finished.drop mark)
      return b.close mark e
  | _ => throw (.misuse .listIsOpen)

/-- Opens a list of nodes inside the open node. -/
def startList (b : Builder) : Except Fault Builder := do
  b.requireNode
  return { b with opened := .list b.finished.length :: b.opened }

/-- Refuses anything that is not a node. -/
def requireNodes : List Element → Except Fault Unit
  | [] => .ok ()
  | e :: rest =>
      if e.isNode then requireNodes rest
      else .error (.misuse (.notANode (String.ofList e.shown)))

/-- Finishes the list that was opened last. -/
def finishList (b : Builder) : Except Fault Builder := do
  match ← b.innermost with
  | .list mark =>
      let nodes := b.finished.drop mark
      requireNodes nodes
      return b.close mark (Element.makeList nodes)
  | _ => throw (.misuse .noOpenList)

/-- Opens a separated list inside the open node. -/
def startSeparated (b : Builder) : Except Fault Builder := do
  b.requireNode
  return { b with opened := .separated b.finished.length :: b.opened }

/-- Refuses anything that is neither a node nor a token. -/
def requireSlots : List Element → Except Fault Unit
  | [] => .ok ()
  | e :: rest =>
      if e.isNode || e.isToken then requireSlots rest
      else .error (.misuse (.notASlot (String.ofList e.shown)))

/-- Finishes the separated list that was opened last. -/
def finishSeparated (b : Builder) : Except Fault Builder := do
  match ← b.innermost with
  | .separated mark =>
      let slots := b.finished.drop mark
      requireSlots slots
      match Element.newSeparated slots with
      | .ok e => return b.close mark e
      | .error error => throw (.misuse (.malformedSlots error))
  | _ => throw (.misuse .noOpenSeparatedList)

/-- Adds a token. -/
def pushToken (b : Builder) (t : Token) : Except Fault Builder := do
  match ← b.innermost with
  | .list _ => throw (.misuse (.tokenInList (String.ofList t.shown)))
  | _ => return b.push (.token t)

/-- Adds a node that is already built. -/
def pushNode (b : Builder) (e : Element) : Except Fault Builder := do
  let _ ← b.innermost
  return b.push e

/-- Makes a token of the given parts and adds it. -/
def token (b : Builder) (kind : Kind) (text : Text) (leading trailing : TriviaList) :
    Except Fault Builder := do
  b.pushToken (← Token.new kind text leading trailing)

/-- Adds a token that the source does not have. -/
def missing (b : Builder) (kind : Kind) : Except Fault Builder := do
  b.pushToken (← Token.missing kind)

/-- The root, once everything is closed and one node is left. -/
def finish (b : Builder) : Except Fault Element :=
  if b.opened.isEmpty then
    match b.finished with
    | [.node kind measure children] => .ok (.node kind measure children)
    | _ => .error (.misuse .notOneRoot)
  else .error (.misuse (.unfinished b.opened.reverse))

/-- Gives the builder up.  Nothing may be left open. -/
def drop (b : Builder) : Except Fault Unit :=
  if b.opened.isEmpty then .ok () else .error (.misuse .abandoned)

end Builder

end Verbatim
