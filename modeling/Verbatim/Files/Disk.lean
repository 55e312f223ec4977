/-
  A directory tree as a value, with the rules of a file system for paths.

  Every part of a path but the last has to lead through a directory.  A double dot
  goes to the parent, and the top is its own parent.  A slash at the end asks for a
  directory.  Directories cannot be read, written or deleted as files.
-/
import Verbatim.Files.Host

set_option autoImplicit false

namespace Verbatim

/-- A place in the tree, as names from the top. -/
abbrev Place := List Text

/-- What is at a place. -/
inductive DiskEntry where
  | directory
  | file (text : Text)
  deriving DecidableEq, Repr, Inhabited

/-- Directories and files under one top directory, and captured output. -/
structure Disk where
  directories : List Place
  files : List (Place × Text)
  out : Text
  err : Text
  deriving DecidableEq, Repr, Inhabited

namespace Disk

/-- Only the top directory. -/
def empty : Disk := ⟨[], [], [], []⟩

/-- What is at a place. -/
def entry? (disk : Disk) (place : Place) : Option DiskEntry :=
  if place = [] ∨ place ∈ disk.directories then some .directory
  else (disk.files.find? fun f => f.1 == place).map fun f => .file f.2

/-! ## Walking paths -/

/-- The stretches of a path that name something, and whether a slash ends it. -/
def steps (path : Path) : List Text × Bool :=
  ((Path.segments path.spelling).filter (· != []), path.spelling.getLast? = some '/')

/-- Goes one step on from a place, which has to be a directory. -/
def step (disk : Disk) (place : Place) (name : Text) : Except FileError Place :=
  match disk.entry? place with
  | none => .error .notFound
  | some (.file _) => .error .notADirectory
  | some .directory =>
      if name = ['.'] then .ok place
      else if name = ['.', '.'] then .ok place.dropLast
      else .ok (place ++ [name])

/-- Follows steps from a place. -/
def walk (disk : Disk) : Place → List Text → Except FileError Place
  | place, [] => .ok place
  | place, name :: rest => do disk.walk (← disk.step place name) rest

/-- What a path leads to.  Paths from the root of the machine lead nowhere. -/
def find (disk : Disk) (path : Path) : Except FileError (Place × DiskEntry) := do
  if path.spelling.isEmpty || path.spelling.head? = some '/' then throw .notFound
  let (names, slash) := steps path
  let place ← disk.walk [] names
  match disk.entry? place with
  | none => throw .notFound
  | some (.file text) => if slash then throw .notADirectory else return (place, .file text)
  | some .directory => return (place, .directory)

/-- The place that a path names for a file, whether or not something is there, and
whether a slash ends the path.  The directory around it has to exist. -/
def target (disk : Disk) (path : Path) : Except FileError (Place × Bool) := do
  if path.spelling.isEmpty || path.spelling.head? = some '/' then throw .notFound
  let (names, slash) := steps path
  match names.getLast? with
  | none => throw .isADirectory
  | some last =>
      let around ← disk.walk [] names.dropLast
      let place ← disk.step around last
      if last = ['.'] ∨ last = ['.', '.'] then throw .isADirectory
      return (place, slash)

/-! ## Operations -/

/-- The contents of a file. -/
def read (disk : Disk) (path : Path) : Except FileError Text := do
  match ← disk.find path with
  | (_, .file text) => return text
  | (_, .directory) => throw .isADirectory

/-- Puts a file at a place. -/
def putFile (disk : Disk) (place : Place) (text : Text) : Disk :=
  { disk with files := (place, text) :: disk.files.filter fun f => f.1 != place }

/-- Writes a file. -/
def write (disk : Disk) (path : Path) (text : Text) : Except FileError Disk := do
  let (place, slash) ← disk.target path
  if slash || disk.entry? place = some .directory then throw .isADirectory
  return disk.putFile place text

/-- Removes a file. -/
def delete (disk : Disk) (path : Path) : Except FileError Disk := do
  let (place, slash) ← disk.target path
  match disk.entry? place with
  | none => throw .notFound
  | some .directory => throw .isADirectory
  | some (.file _) =>
      if slash then throw .notADirectory
      return { disk with files := disk.files.filter fun f => f.1 != place }

/-- A file is there. -/
def isFile (disk : Disk) (path : Path) : Bool :=
  match disk.find path with
  | .ok (_, .file _) => true
  | _ => false

/-- Files at any depth under a directory that have one of the extensions. -/
def list (disk : Disk) (directory : Path) (extensions : List Text) :
    Except FileError (List Path) := do
  match ← disk.find directory with
  | (_, .file _) => throw .notADirectory
  | (top, .directory) =>
      let under := disk.files.filter fun f => top.isPrefixOf f.1
      let paths := under.map fun f => (f.1.drop top.length).foldl Path.join directory
      return Path.sort (paths.filter fun p => p.hasExtension extensions)

/-- Makes the directories around a place and puts a file there. -/
def addFile (disk : Disk) (path : Path) (text : Text) : Disk :=
  let names := (steps path).1.filter (· != ['.'])
  let around := (List.range names.length).map fun n => names.take n
  { disk with directories := disk.directories ++ around.filter (· != []) }.putFile names text

instance : Host (StateM Disk) where
  readFile path := do return (← get).read path
  writeFile path text := do
    match (← get).write path text with
    | .ok disk => set disk; return .ok ()
    | .error e => return .error e
  isFile path := do return (← get).isFile path
  listFiles directory extensions := do return (← get).list directory extensions
  putOut text := modify fun disk => { disk with out := disk.out ++ text }
  putErr text := modify fun disk => { disk with err := disk.err ++ text }

end Disk

end Verbatim
