/-
  The program: the command line run against the real file system.

  Nothing is decided here.  Paths are looked up from the working directory, system
  errors become file errors, and the outcome of the command line becomes a message
  and an exit code.
-/
import Verbatim.Command.Line

set_option autoImplicit false

namespace Verbatim.Native

/-- A path as seen from the working directory. -/
def locate (path : Path) :=
  (fun directory => directory / String.ofList path.spelling) <$> IO.currentDir

/-- A system error as a file error. -/
def fileError : IO.Error → FileError
  | .noFileOrDirectory .. => .notFound
  | failure => .other failure.toString

/-- Runs a file operation on a path.  The empty path names nothing. -/
def onPath {α : Type} (path : Path) (action : IO (Except FileError α)) :
    IO (Except FileError α) := do
  if path.spelling.isEmpty then return .error .notFound
  match ← action.toBaseIO with
  | .ok result => return result
  | .error failure => return .error (fileError failure)

/-- Reads a file as text. -/
def readFile (path : Path) : IO (Except FileError Text) :=
  onPath path do
    let bytes ← IO.FS.readBinFile (← locate path)
    match String.fromUTF8? bytes with
    | some text => return .ok text.toList
    | none => return .error .invalidData

/-- Writes a file. -/
def writeFile (path : Path) (text : Text) : IO (Except FileError Unit) :=
  onPath path do
    IO.FS.writeFile (← locate path) (String.ofList text)
    return .ok ()

/-- A file is there. -/
def isFile (path : Path) : IO Bool := do
  if path.spelling.isEmpty then return false
  match ← (← locate path).metadata.toBaseIO with
  | .ok found => return found.type == .file
  | .error _ => return false

/-- All files at any depth under a directory. -/
partial def filesUnder (directory : Path) : IO (List Path) := do
  let entries ← (← locate directory).readDir
  let found ← entries.toList.mapM fun entry => do
    let path := directory.join entry.fileName.toList
    match (← entry.path.symlinkMetadata).type with
    | .dir => filesUnder path
    | _ => return [path]
  return found.flatten

/-- Files at any depth under a directory that have one of the extensions, in order. -/
def listFiles (directory : Path) (extensions : List Text) : IO (Except FileError (List Path)) :=
  onPath directory do
    let found ← filesUnder directory
    return .ok (Path.sort (found.filter fun p => p.hasExtension extensions))

/-- Writes to a stream at once. -/
def put (stream : IO.FS.Stream) (text : Text) : IO Unit := do
  stream.putStr (String.ofList text)
  stream.flush

instance : Host IO where
  readFile := readFile
  writeFile := writeFile
  isFile := isFile
  listFiles := listFiles
  putOut text := do put (← IO.getStdout) text
  putErr text := do put (← IO.getStderr) text

end Verbatim.Native

/-- Runs the program on its arguments. -/
def main (arguments : List String) : IO UInt32 := do
  let outcome ← Verbatim.CommandLine.run (arguments.map String.toList)
  match outcome.failure with
  | some message => IO.eprintln ("Error: " ++ message)
  | none => pure ()
  return outcome.exit.toUInt32
