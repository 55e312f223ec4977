/-
  Checking a whole tree against what its summaries claim.

  An element is coherent if its summary is that of its children, if separated
  lists alternate, and if the facts kept by tokens agree with their trivia.  The
  check walks the tree in source order and stops at the first violation.
-/
import Verbatim.Tree.Basic

set_option autoImplicit false

namespace Verbatim

/-- What is wrong with an element. -/
inductive Incoherence where
  | width (kept children : Nat)
  | flags (kept children : Flags)
  | alternation (slot : Nat)
  | textWidth (text width : Nat)
  | skippedText
  deriving DecidableEq, Repr, Inhabited

/-- The first violation found in a tree. -/
structure Violation where
  kind : Kind
  start : Nat
  cause : Incoherence
  deriving DecidableEq, Repr, Inhabited

namespace Element

/-- Compares the summary that an element keeps with the one of its children. -/
def checkMeasure (e : Element) (start : Nat) : Except Violation Unit :=
  let sum := measureAll e.children
  let expected := (ownFlags e.kind).union sum.flags
  if e.width ≠ sum.width then .error ⟨e.kind, start, .width e.width sum.width⟩
  else if e.flags ≠ expected then .error ⟨e.kind, start, .flags e.flags sum.flags⟩
  else .ok ()

/-- Checks the roles of the slots of a separated list. -/
def checkAlternation (e : Element) (start : Nat) : Except Violation Unit :=
  match checkSlots 0 e.children with
  | .error (.malformedSeparatedList slot _) => .error ⟨e.kind, start, .alternation slot⟩
  | _ => .ok ()

/-- Checks what a token keeps about itself. -/
def checkToken (t : Token) (start : Nat) : Except Violation Unit :=
  if t.fullText.width ≠ t.fullWidth then
    .error ⟨t.kind, start, .textWidth t.fullText.width t.fullWidth⟩
  else if t.flags.skippedText ≠ (t.leading.flags.skippedText || t.trailing.flags.skippedText) then
    .error ⟨t.kind, start, .skippedText⟩
  else .ok ()

mutual

/-- Checks a subtree that starts at a position and answers the position behind it. -/
def checkFrom : Element → Nat → Except Violation Nat
  | .token t, start => do
      checkToken t start
      return start + t.fullWidth
  | .node k m cs, start => do
      checkMeasure (.node k m cs) start
      checkAllFrom cs start
  | .list m cs, start => do
      checkMeasure (.list m cs) start
      checkAllFrom cs start
  | .separated m cs, start => do
      checkMeasure (.separated m cs) start
      checkAlternation (.separated m cs) start
      checkAllFrom cs start

/-- Checks neighbours. -/
def checkAllFrom : List Element → Nat → Except Violation Nat
  | [], start => .ok start
  | e :: rest, start => do
      let stop ← checkFrom e start
      checkAllFrom rest stop

end

/-- Checks a whole tree. -/
def check (root : Element) : Except Violation Unit := do
  let _ ← checkFrom root 0
  return ()

end Element

end Verbatim
