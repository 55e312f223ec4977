/-
  Writing a tree out.

  `emitText` reproduces the source byte for byte, token by token, and stops at the first call
  that fails.  `emitOutline` writes the outline on a walk through the tree.  The hooks of a walk
  have no way to stop it, so the walk keeps the first failure of the writer, goes on to its end
  without writing, and the failure is answered then.  Both close the writer when nothing has
  failed.
-/
import Verbatim.Format.Outline
import Verbatim.Format.Writer
import Verbatim.Tree.Preorder

set_option autoImplicit false

namespace Verbatim

/-- Why an outline could not be written. -/
inductive EmitError (ε : Type) where
  | fault (fault : Fault)
  | writer (error : ε)
  deriving DecidableEq, Repr, Inhabited

/-- What a walk that writes an outline keeps: the position behind the tokens that it has
passed, the level that it is on, and the first failure of the writer. -/
structure OutlineWalk (ε : Type) where
  position : Nat
  depth : Nat
  error : Option ε
  deriving DecidableEq, Repr, Inhabited

namespace TextWriter

variable {σ ε : Type} (w : TextWriter σ ε) (options : FormatOptions)

/-! ## The source -/

/-- Writes the tokens one after the other, each in three parts. -/
def writeTokens : List Token → Writing σ ε Unit
  | [] => pure ()
  | t :: rest => do
      w.write t.leading.text
      w.write t.text
      w.write t.trailing.text
      writeTokens rest

/-- Writes the source of a tree. -/
def emitText (root : Element) : Writing σ ε Unit := do
  w.writeTokens root.tokens
  w.close

/-! ## The outline -/

/-- Writes the line of an element, unless the writer has failed before. -/
def walkLine (e : Element) (walk : OutlineWalk ε) : Writing σ Fault (OutlineWalk ε) := do
  if walk.error.isSome then return walk
  let line ← ofExcept (e.outlineLine options walk.depth walk.position)
  match ← ExceptT.lift (w.writeLine line).run with
  | .ok () => return walk
  | .error cause => return { walk with error := some cause }

mutual

/-- Walks through an element, one level down for what it holds. -/
def walkOutline : Element → OutlineWalk ε → Writing σ Fault (OutlineWalk ε)
  | .token t, walk => do
      let walk ← w.walkLine options (.token t) walk
      let position ← ofExcept (Offset.add walk.position t.fullWidth)
      return { walk with position }
  | .node k m cs, walk => do
      let walk ← w.walkLine options (.node k m cs) walk
      let walk ← walkOutlineAll cs { walk with depth := walk.depth + 1 }
      return { walk with depth := walk.depth - 1 }
  | .list m cs, walk => do
      let walk ← w.walkLine options (.list m cs) walk
      let walk ← walkOutlineAll cs { walk with depth := walk.depth + 1 }
      return { walk with depth := walk.depth - 1 }
  | .separated m cs, walk => do
      let walk ← w.walkLine options (.separated m cs) walk
      let walk ← walkOutlineAll cs { walk with depth := walk.depth + 1 }
      return { walk with depth := walk.depth - 1 }

/-- Walks through neighbours. -/
def walkOutlineAll : List Element → OutlineWalk ε → Writing σ Fault (OutlineWalk ε)
  | [], walk => return walk
  | e :: rest, walk => do
      let walk ← walkOutline e walk
      walkOutlineAll rest walk

end

/-- Writes the outline of a tree. -/
def emitOutline (root : Element) : Writing σ (EmitError ε) Unit := do
  let walk ← (w.walkOutline options root ⟨0, 0, none⟩).adapt .fault
  match walk.error with
  | some cause => throw (.writer cause)
  | none => w.close.adapt .writer

end TextWriter

end Verbatim
