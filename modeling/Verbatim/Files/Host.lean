/-
  What commands need from the outside: files, and the two output streams.

  Commands are written against this interface, so they run unchanged against
  files in memory, a directory tree that is a value, or the real file system.
-/
import Verbatim.Files.Path

set_option autoImplicit false

namespace Verbatim

/-- Why a file operation failed. -/
inductive FileError where
  | notFound
  | isADirectory
  | notADirectory
  /-- The contents are not text. -/
  | invalidData
  /-- Any other cause, in the system's words. -/
  | other (message : String)
  deriving DecidableEq, Repr, Inhabited

namespace FileError

/-- Name of the kind of failure. -/
def name : FileError → String
  | .notFound => "NotFound"
  | .isADirectory => "IsADirectory"
  | .notADirectory => "NotADirectory"
  | .invalidData => "InvalidData"
  | .other _ => "Other"

/-- Wording of a failure. -/
def message : FileError → String
  | .notFound => "entity not found"
  | .isADirectory => "is a directory"
  | .notADirectory => "not a directory"
  | .invalidData => "stream did not contain valid UTF-8"
  | .other message => message

end FileError

/-- Files and output streams. -/
class Host (m : Type → Type) where
  readFile : Path → m (Except FileError Text)
  writeFile : Path → Text → m (Except FileError Unit)
  isFile : Path → m Bool
  /-- Files at any depth under a directory that have one of the extensions, in order. -/
  listFiles : Path → List Text → m (Except FileError (List Path))
  putOut : Text → m Unit
  putErr : Text → m Unit

end Verbatim
