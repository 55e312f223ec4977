/-
  The commands: dump, check, identifiers, locate and emit.

  A command reads files and writes output through a host.  It fails with a cause
  that says what it was doing; a fault is a failure too.
-/
import Verbatim.Diagnostic.Report
import Verbatim.Files.Host
import Verbatim.Format.Emit
import Verbatim.Parse.Dump
import Verbatim.Settings.Basic
import Verbatim.Tree.Coherence
import Verbatim.Tree.Names
import Verbatim.Tree.Position
import Verbatim.Workspace

set_option autoImplicit false

namespace Verbatim

/-! ## Failures -/

/-- Why a command failed. -/
inductive Failure where
  | read (path : Path) (cause : FileError)
  | readSettings (path : Path) (cause : FileError)
  | invalidSettings (path : Path) (cause : SettingsError)
  | list (path : Path) (cause : FileError)
  | write (path : Path) (cause : FileError)
  | noSources (path : Path)
  | lookup (error : LookupError)
  | malformedTree (path : Path)
  | fault (fault : Fault)
  deriving DecidableEq, Repr, Inhabited

namespace Failure

/-- A path between backquotes. -/
def quotePath (p : Path) : String :=
  "`" ++ String.ofList p.spelling ++ "`"

/-- Wording of a failure.  A fault may have none. -/
def message : Failure → Option String
  | .read path _ => some ("failed to read " ++ quotePath path)
  | .readSettings path _ => some ("failed to read options " ++ quotePath path)
  | .invalidSettings path _ => some ("invalid options in " ++ quotePath path)
  | .list path _ => some ("failed to list " ++ quotePath path)
  | .write path _ => some ("failed to write " ++ quotePath path)
  | .noSources path => some ("no source files found at " ++ quotePath path)
  | .lookup error => some error.message
  | .malformedTree path => some ("malformed tree for " ++ quotePath path)
  | .fault broken => broken.message

end Failure

/-- A command on a host. -/
abbrev Command (m : Type → Type) := ExceptT Failure m

namespace Command

variable {m : Type → Type} [Monad m] [Host m]

/-- A host operation as part of a command. -/
def onHost {α : Type} (action : m α) : Command m α :=
  ExceptT.lift action

/-- A file operation, with what it was done for. -/
def onFiles {α : Type} (failure : FileError → Failure) (action : m (Except FileError α)) :
    Command m α := do
  match ← onHost action with
  | .ok value => return value
  | .error cause => throw (failure cause)

/-- A pure computation that may break a contract. -/
def orFault {α : Type} : Except Fault α → Command m α
  | .ok value => pure value
  | .error fault => throw (.fault fault)

/-! ## Settings -/

/-- Reads settings from a file, if one is given. -/
def loadSettings (path : Option Path) : Command m Settings := do
  match path with
  | none => return .default
  | some path =>
      let text ← onFiles (.readSettings path) (Host.readFile path)
      match Settings.read text with
      | .ok settings => return settings
      | .error cause => throw (.invalidSettings path cause)

/-! ## Commands -/

/-- The text of a file and its parse. -/
def load (settings : Settings) (path : Path) : Command m (Text × Parse) := do
  let text ← onFiles (.read path) (Host.readFile path)
  let parsed ← orFault (parse text settings.parse)
  return (text, parsed)

/-- Prints the tree of a file: its outline, or the full dump with trivia.  What comes in front
of a fault in the outline is printed. -/
def dump (settings : Settings) (path : Path) (trivia : Bool) : Command m Unit := do
  let (_, parsed) ← load settings path
  if trivia then onHost (Host.putOut parsed.dump)
  else
    let w := Sink.writer settings.format.newLine
    let (result, sink) := (w.emitOutline settings.format parsed.root).run.run Sink.unlimited
    onHost (Host.putOut sink.text)
    match result with
    | .error (.fault fault) => throw (.fault fault)
    | _ => return ()

/-- Extensions of source files. -/
def sourceExtensions : List Text :=
  ["ts".toList, "js".toList]

/-- The files that paths stand for: a file for itself, anything else for the source
files under it, of which there has to be one. -/
def expand : List Path → Command m (List Path)
  | [] => return []
  | path :: rest => do
      let here ←
        if ← onHost (Host.isFile path) then pure [path]
        else
          let listed ← onFiles (.list path) (Host.listFiles path sourceExtensions)
          if listed.isEmpty then throw (.noSources path)
          pure listed
      return here ++ (← expand rest)

/-- Shows a problem in the text of the file at a path.  There may be nothing to show for a
problem whose range is none of the text. -/
abbrev Renderer := Diagnostic → Text → Text → Except Fault Text

/-- Reports a problem of a file. -/
def putReport (render : Renderer) (path : Path) (text : Text) (d : Diagnostic) :
    Command m Unit := do
  let report ← orFault (render d path.spelling text)
  onHost (Host.putErr (report ++ "\n".toList))

/-- Reports the problems of one file and answers their number. -/
def checkFile (render : Renderer) (settings : Settings) (path : Path) : Command m Nat := do
  let (text, parsed) ← load settings path
  match parsed.root.check with
  | .error _ => throw (.malformedTree path)
  | .ok _ => pure ()
  let problems := checkParse parsed
  problems.forM (putReport render path text)
  return problems.length

/-- Reports the problems of files one after the other and answers their number. -/
def checkFiles (render : Renderer) (settings : Settings) : List Path → Command m Nat
  | [] => return 0
  | path :: rest => do
      let here ← checkFile render settings path
      return here + (← checkFiles render settings rest)

/-- Reports the problems of all files under paths and answers their number. -/
def checkWith (render : Renderer) (settings : Settings) (paths : List Path) : Command m Nat := do
  let files ← expand paths
  checkFiles render settings files

/-- Reports problems with the source line that they are in. -/
def check (settings : Settings) (paths : List Path) : Command m Nat :=
  checkWith (fun d path text => .ok (d.report path text)) settings paths

/-- Prints the distinct identifiers of a file in order. -/
def identifiers (settings : Settings) (path : Path) : Command m Unit := do
  let (_, parsed) ← load settings path
  onHost (Host.putOut (parsed.root.names.flatMap fun name => name ++ "\n".toList))

/-- The lines that tell where an offset is: the place, the nodes around it, and the
token there.  As in a dump, no depth is too large for the padding (`dumpLine`). -/
def locationLines (path line column : Text) (nodes : List (Element.Located Element))
    (token : Element.Located Token) : List Text :=
  let place := path ++ ":".toList ++ line ++ ":".toList ++ column ++ "\n".toList
  let around := nodes.mapIdx fun depth node =>
    dumpLine depth (dumpHead node.item.kind node.start node.stop)
  let start := token.start + token.item.leading.width
  let last := dumpLine nodes.length
    (dumpHead token.item.kind start (start + token.item.width) ++ " ".toList ++
      Text.quoted token.item.text)
  place :: (around ++ [last])

/-- Answers the line and the column of an offset in a text, both counted from zero.  There may
be none for an offset. -/
abbrev LineLookup := Text → Nat → Except Fault (Nat × Nat)

/-- Prints the nodes around a byte offset of a file and the token there.  The line and the
column are printed counted from one. -/
def locateWith (lookup : LineLookup) (settings : Settings) (path : Path) (offset : Nat) :
    Command m Unit := do
  let (text, parsed) ← load settings path
  match parsed.root.descend offset with
  | .error error => throw (.lookup error)
  | .ok found =>
      let (line, column) ← orFault (lookup text offset)
      let line ← orFault (Offset.add line 1)
      let column ← orFault (Offset.add column 1)
      let lines := locationLines path.spelling (Text.decimal line) (Text.decimal column)
        found.nodes found.token
      onHost (Host.putOut lines.flatten)

/-- Prints the nodes around a byte offset of a file and the token there, with the line that an
index of the lines of the file tells. -/
def locate (settings : Settings) (path : Path) (offset : Nat) : Command m Unit :=
  locateWith (fun text => LineIndex.lineColumn ⟨text⟩) settings path offset

/-- Writes the source of a file back out from its tree. -/
def emit (settings : Settings) (path output : Path) : Command m Unit := do
  let (_, parsed) ← load settings path
  let (_, sink) := ((Sink.writer []).emitText parsed.root).run.run Sink.unlimited
  onFiles (.write output) (Host.writeFile output sink.text)

end Command

end Verbatim
