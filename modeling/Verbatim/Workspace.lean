/-
  Source files and what is derived from them.

  A workspace keeps the derived values of every file until something they were
  derived from is set again, to whatever value.  Each derived value carries the
  revision at which it was made, so two answers are one and the same object exactly
  if they carry the same revision.  Paths are not read by anything derived.

  Whether a kept value is taken over is decided by the framework that keeps it: the
  queries take that decision as an argument, and the one by revisions is an instance.
-/
import Verbatim.Files.Path
import Verbatim.Parse.Basic
import Verbatim.Parse.Review

set_option autoImplicit false

namespace Verbatim

/-! ## Derived values -/

/-- All problems of a source text: those of the parse and those of the review. -/
def checkParse (p : Parse) : List Diagnostic :=
  Diagnostic.sort (p.diagnostics ++ p.root.review)

/-- Lines of a text, for turning offsets into lines and columns. -/
structure LineIndex where
  source : Text
  deriving DecidableEq, Repr, Inhabited

namespace LineIndex

/-- Zero-based line and byte column of an offset, which has to fall between two
characters of the text. -/
def lineColumn (index : LineIndex) (offset : Nat) : Except Fault (Nat × Nat) :=
  match index.source.lineColumn? offset with
  | some place => .ok place
  | none => .error .invalidOffset

end LineIndex

/-- A derived value and the revision at which it was made. -/
structure Derived (α : Type) where
  value : α
  revision : Nat
  deriving DecidableEq, Repr, Inhabited

/-! ## Validation -/

/-- Decides whether a kept value is taken over, from the revisions at which the fields that it
was derived from were set last, and the revision at which it was made. -/
abbrev Validation := List Nat → Nat → Bool

namespace Validation

/-- A kept value is derived again exactly if a field that it was derived from has been set
since. -/
def Exact (validation : Validation) : Prop :=
  ∀ fields made, validation fields made = true ↔ ∀ revision ∈ fields, revision ≤ made

/-- The validation that compares revisions. -/
def byRevision : Validation :=
  fun fields made => fields.all (· ≤ made)

end Validation

/-! ## Files -/

/-- A source file: what was set, when it was set, and what has been derived. -/
structure SourceFile where
  path : Path
  text : Text
  options : ParseOptions
  textRevision : Nat
  optionsRevision : Nat
  parsed : Option (Derived Parse)
  lines : Option (Derived LineIndex)
  checked : Option (Derived (List Diagnostic))
  deriving DecidableEq, Repr, Inhabited

namespace SourceFile

/-- A file set at a revision. -/
def new (path : Path) (text : Text) (options : ParseOptions) (revision : Nat) : SourceFile :=
  ⟨path, text, options, revision, revision, none, none, none⟩

/-- A value that was derived from the text is taken over. -/
def takesLines {α : Type} (validation : Validation) (file : SourceFile) (d : Derived α) : Bool :=
  validation [file.textRevision] d.revision

/-- A value that was derived from the text and the options is taken over. -/
def takes {α : Type} (validation : Validation) (file : SourceFile) (d : Derived α) : Bool :=
  validation [file.textRevision, file.optionsRevision] d.revision

/-- The parse of a file, derived at `now` if none is taken over. -/
def parseWith (validation : Validation) (file : SourceFile) (now : Nat) :
    Except Fault (Derived Parse × SourceFile) := do
  match file.parsed.filter (file.takes validation) with
  | some d => return (d, file)
  | none =>
      let d : Derived Parse := ⟨← Verbatim.parse file.text file.options, now⟩
      return (d, { file with parsed := some d })

/-- The lines of a file, derived at `now` if none are taken over. -/
def lineIndexWith (validation : Validation) (file : SourceFile) (now : Nat) :
    Derived LineIndex × SourceFile :=
  match file.lines.filter (file.takesLines validation) with
  | some d => (d, file)
  | none =>
      let d : Derived LineIndex := ⟨⟨file.text⟩, now⟩
      (d, { file with lines := some d })

/-- All problems of a file, derived at `now` if no list is taken over. -/
def checkWith (validation : Validation) (file : SourceFile) (now : Nat) :
    Except Fault (Derived (List Diagnostic) × SourceFile) := do
  match file.checked.filter (file.takes validation) with
  | some d => return (d, file)
  | none =>
      let (p, file) ← file.parseWith validation now
      let d : Derived (List Diagnostic) := ⟨checkParse p.value, now⟩
      return (d, { file with checked := some d })

/-- The parse of a file where revisions decide. -/
def parse (file : SourceFile) (now : Nat) : Except Fault (Derived Parse × SourceFile) :=
  file.parseWith .byRevision now

/-- The lines of a file where revisions decide. -/
def lineIndex (file : SourceFile) (now : Nat) : Derived LineIndex × SourceFile :=
  file.lineIndexWith .byRevision now

/-- All problems of a file where revisions decide. -/
def check (file : SourceFile) (now : Nat) :
    Except Fault (Derived (List Diagnostic) × SourceFile) :=
  file.checkWith .byRevision now

end SourceFile

/-! ## Workspaces -/

/-- Source files, numbered from zero, and the current revision. -/
structure Workspace where
  revision : Nat
  files : List SourceFile
  deriving DecidableEq, Repr, Inhabited

namespace Workspace

/-- No files. -/
def empty : Workspace := ⟨0, []⟩

/-- Adds a file. -/
def add (w : Workspace) (path : Path) (text : Text) (options : ParseOptions) : Workspace :=
  { w with files := w.files ++ [SourceFile.new path text options w.revision] }

/-- Changes a file at a new revision. -/
def change (w : Workspace) (index : Nat) (f : SourceFile → Nat → SourceFile) : Workspace :=
  ⟨w.revision + 1, w.files.modify index fun file => f file (w.revision + 1)⟩

/-- Sets the path of a file. -/
def setPath (w : Workspace) (index : Nat) (path : Path) : Workspace :=
  w.change index fun file _ => { file with path }

/-- Sets the text of a file. -/
def setText (w : Workspace) (index : Nat) (text : Text) : Workspace :=
  w.change index fun file now => { file with text, textRevision := now }

/-- Sets the options of a file. -/
def setOptions (w : Workspace) (index : Nat) (options : ParseOptions) : Workspace :=
  w.change index fun file now => { file with options, optionsRevision := now }

/-- A file by its number. -/
def file? (w : Workspace) (index : Nat) : Option SourceFile :=
  w.files[index]?

/-- Keeps what a query has derived for a file. -/
def keep (w : Workspace) (index : Nat) (file : SourceFile) : Workspace :=
  { w with files := w.files.set index file }

end Workspace

end Verbatim
