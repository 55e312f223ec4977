/-
  Paths, compared by their components.

  Repeated slashes, inner dots and a slash at the end do not count; a dot at the
  front does, and so does every double dot.  Paths are ordered component by
  component: the root comes first, then the dot, then the double dot, then names
  by their bytes.
-/
import Verbatim.Text.Order

set_option autoImplicit false

namespace Verbatim

/-- A part of a path. -/
inductive PathPart where
  | root
  | here
  | parent
  | name (name : Text)
  deriving DecidableEq, Repr, Inhabited

namespace PathPart

/-- Order of the forms. -/
def rank : PathPart → Nat
  | .root => 0
  | .here => 1
  | .parent => 2
  | .name _ => 3

/-- A part comes strictly before another one. -/
def before : PathPart → PathPart → Bool
  | .name s, .name t => Text.before s t
  | p, q => decide (p.rank < q.rank)

end PathPart

/-- A path as it is written. -/
structure Path where
  spelling : Text
  deriving DecidableEq, Repr, Inhabited

namespace Path

/-- The stretches between slashes. -/
def segments : Text → List Text
  | [] => [[]]
  | c :: rest =>
      match segments rest with
      | [] => [[c]]
      | first :: others => if c = '/' then [] :: first :: others else (c :: first) :: others

/-- Parts of stretches that do not come first. -/
def innerParts (stretches : List Text) : List PathPart :=
  stretches.filterMap fun s =>
    if s = [] ∨ s = ['.'] then none
    else if s = ['.', '.'] then some .parent
    else some (.name s)

/-- The parts of a path. -/
def parts (p : Path) : List PathPart :=
  match segments p.spelling with
  | [] => []
  | first :: rest =>
      if p.spelling.head? = some '/' then .root :: innerParts rest
      else if first = ['.'] then .here :: innerParts rest
      else innerParts (first :: rest)

/-- Order of part sequences: the first difference decides, and a shorter sequence
comes before its continuations. -/
def partsBefore : List PathPart → List PathPart → Bool
  | _, [] => false
  | [], _ :: _ => true
  | p :: ps, q :: qs => if p = q then partsBefore ps qs else p.before q

/-- A path comes strictly before another one. -/
def before (p q : Path) : Bool :=
  partsBefore p.parts q.parts

/-- A path lies at or under a directory. -/
def startsWith (p directory : Path) : Bool :=
  directory.parts.isPrefixOf p.parts

/-- The last part, if it is a name. -/
def fileName? (p : Path) : Option Text :=
  match p.parts.getLast? with
  | some (.name s) => some s
  | _ => none

/-- What follows the last dot of the file name.  A dot at the front does not start
an extension. -/
def extension? (p : Path) : Option Text := do
  let file ← p.fileName?
  let reversed := file.reverse
  let after := reversed.takeWhile (· != '.')
  match reversed.drop after.length with
  | _ :: _ :: _ => some after.reverse
  | _ => none

/-- The extension is one of the given ones. -/
def hasExtension (p : Path) (extensions : List Text) : Bool :=
  match p.extension? with
  | some e => extensions.contains e
  | none => false

/-- A name inside a directory. -/
def join (directory : Path) (name : Text) : Path :=
  if directory.spelling.isEmpty || directory.spelling.getLast? = some '/' then
    ⟨directory.spelling ++ name⟩
  else ⟨directory.spelling ++ '/' :: name⟩

/-- Puts a path in front of the first one that does not come before it. -/
def insert (p : Path) : List Path → List Path
  | [] => [p]
  | q :: rest => if q.before p then q :: insert p rest else p :: q :: rest

/-- Orders paths. -/
def sort (ps : List Path) : List Path :=
  ps.foldr insert []

end Path

end Verbatim
