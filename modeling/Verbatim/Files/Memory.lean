/-
  Files in memory, with captured output.

  Files are kept in path order.  Writing to a path that is already there, in
  whatever spelling, replaces the contents and keeps the old spelling.
-/
import Verbatim.Files.Host

set_option autoImplicit false

namespace Verbatim

/-- Files in path order, the arguments of the program, and its output so far. -/
structure Memory where
  files : List (Path × Text)
  arguments : List Text
  out : Text
  err : Text
  deriving DecidableEq, Repr, Inhabited

namespace Memory

/-- No files and no output. -/
def empty : Memory := ⟨[], [], [], []⟩

/-- Adds a file to files in path order, or replaces the one at that path. -/
def insert (path : Path) (text : Text) : List (Path × Text) → List (Path × Text)
  | [] => [(path, text)]
  | (key, old) :: rest =>
      if key.parts = path.parts then (key, text) :: rest
      else if path.before key then (path, text) :: (key, old) :: rest
      else (key, old) :: insert path text rest

/-- The contents of a file. -/
def read (memory : Memory) (path : Path) : Except FileError Text :=
  match memory.files.find? fun f => f.1.parts == path.parts with
  | some (_, text) => .ok text
  | none => .error .notFound

/-- A file is there. -/
def isFile (memory : Memory) (path : Path) : Bool :=
  memory.files.any fun f => f.1.parts == path.parts

/-- Writes a file. -/
def write (memory : Memory) (path : Path) (text : Text) : Memory :=
  { memory with files := insert path text memory.files }

/-- Removes a file, which has to be there. -/
def delete (memory : Memory) (path : Path) : Except FileError Memory :=
  if memory.isFile path then
    .ok { memory with files := memory.files.filter fun f => f.1.parts != path.parts }
  else .error .notFound

/-- Files under a directory with one of the extensions. -/
def list (memory : Memory) (directory : Path) (extensions : List Text) : List Path :=
  (memory.files.map Prod.fst).filter fun p => p.startsWith directory && p.hasExtension extensions

/-- Adds to the output. -/
def putOut (memory : Memory) (text : Text) : Memory :=
  { memory with out := memory.out ++ text }

/-- Adds to the error output. -/
def putErr (memory : Memory) (text : Text) : Memory :=
  { memory with err := memory.err ++ text }

instance : Host (StateM Memory) where
  readFile path := do return (← get).read path
  writeFile path text := do
    modify fun memory => memory.write path text
    return .ok ()
  isFile path := do return (← get).isFile path
  listFiles directory extensions := do return .ok ((← get).list directory extensions)
  putOut text := modify fun memory => memory.putOut text
  putErr text := modify fun memory => memory.putErr text

end Memory

end Verbatim
