/-
  The command line.

  Options may stand anywhere in front of a double dash; what follows it is taken
  as it is.  An option is given at most once in front of the command and once
  behind it, and behind the command it counts.  Offsets are decimal numbers below
  `2 ^ 32`, with an optional plus sign.
-/
import Verbatim.Command.Basic

set_option autoImplicit false

namespace Verbatim

/-- What the command line asks for. -/
inductive Request where
  | dump (path : Path) (trivia : Bool)
  | check (paths : List Path)
  | identifiers (path : Path)
  | locate (path : Path) (offset : Nat)
  | emit (path output : Path)
  deriving DecidableEq, Repr, Inhabited

/-- A command line that asks for something: the settings file and the request. -/
structure CommandLine where
  settings : Option Path
  request : Request
  deriving DecidableEq, Repr, Inhabited

namespace CommandLine

/-- Names of the commands. -/
def commandNames : List Text :=
  ["dump".toList, "check".toList, "identifiers".toList, "locate".toList, "emit".toList]

/-- Arguments sorted by what they are. -/
structure Sorted where
  settings : Option Path
  trivia : Bool
  plain : List Text
  deriving DecidableEq, Repr, Inhabited

/-- An argument that can be a value: it does not start with a dash, or it is one. -/
def isValue (argument : Text) : Bool :=
  argument.head? != some '-' || argument == ['-']

/-- The value of an option that is written together with it. -/
def attached? (option argument : Text) : Option Text :=
  let opening := option ++ ['=']
  if opening.isPrefixOf argument then some (argument.drop opening.length) else none

/-- Sorts the arguments behind a command.  Only one command knows the trivia flag. -/
def sort (knowsTrivia : Bool) : List Text → Sorted → Option Sorted
  | [], sorted => some sorted
  | argument :: rest, sorted =>
      if argument = "--".toList then some { sorted with plain := sorted.plain ++ rest }
      else if argument = "--options".toList then
        match rest with
        | value :: rest =>
            if isValue value && sorted.settings.isNone then
              sort knowsTrivia rest { sorted with settings := some ⟨value⟩ }
            else none
        | [] => none
      else if argument = "--trivia".toList && knowsTrivia && !sorted.trivia then
        sort knowsTrivia rest { sorted with trivia := true }
      else
        match attached? "--options".toList argument with
        | some value =>
            if sorted.settings.isNone then
              sort knowsTrivia rest { sorted with settings := some ⟨value⟩ }
            else none
        | none =>
            if isValue argument then
              sort knowsTrivia rest { sorted with plain := sorted.plain ++ [argument] }
            else none

/-- Takes the settings option off the front, up to the command. -/
def leading : List Text → Option Path → Option (Option Path × Text × List Text)
  | [], _ => none
  | argument :: rest, settings =>
      if argument = "--options".toList then
        match rest with
        | value :: rest =>
            if isValue value && settings.isNone then leading rest (some ⟨value⟩) else none
        | [] => none
      else
        match attached? "--options".toList argument with
        | some value => if settings.isNone then leading rest (some ⟨value⟩) else none
        | none => if commandNames.contains argument then some (settings, argument, rest) else none

/-- Reads an offset. -/
def offset? (argument : Text) : Option Nat :=
  let digits := if argument.head? = some '+' then argument.tail else argument
  if digits.isEmpty || !digits.all Char.isDigit then none
  else
    let n := Json.valueOf digits
    if n < Offset.limit then some n else none

/-- Reads what a command is asked to do from its plain arguments. -/
def request? (command : Text) (sorted : Sorted) : Option Request :=
  let is (name : String) : Bool := command == name.toList
  match sorted.plain with
  | [path] =>
      if is "dump" then some (.dump ⟨path⟩ sorted.trivia)
      else if is "check" then some (.check [⟨path⟩])
      else if is "identifiers" then some (.identifiers ⟨path⟩)
      else none
  | [path, second] =>
      if is "locate" then (offset? second).map (.locate ⟨path⟩)
      else if is "emit" then some (.emit ⟨path⟩ ⟨second⟩)
      else if is "check" then some (.check [⟨path⟩, ⟨second⟩])
      else none
  | paths => if is "check" then some (.check (paths.map Path.mk)) else none

/-- Reads a command line, the program's own name left out. -/
def parse? (arguments : List Text) : Option CommandLine := do
  let (outer, command, rest) ← leading arguments none
  let sorted ← sort (command == "dump".toList) rest ⟨none, false, []⟩
  let request ← request? command sorted
  return ⟨sorted.settings.or outer, request⟩

variable {m : Type → Type} [Monad m] [Host m]

/-- Does what was asked for and answers the exit code. -/
def perform (line : CommandLine) : Command m Nat := do
  let settings ← Command.loadSettings line.settings
  match line.request with
  | .dump path trivia => Command.dump settings path trivia; return 0
  | .check paths => return if (← Command.check settings paths) > 0 then 1 else 0
  | .identifiers path => Command.identifiers settings path; return 0
  | .locate path offset => Command.locate settings path offset; return 0
  | .emit path output => Command.emit settings path output; return 0

/-- How a run of the program ended: its exit code, and the failure that it tells. -/
structure Outcome where
  exit : Nat
  failure : Option String
  deriving DecidableEq, Repr, Inhabited

/-- Runs a command line.  Exit codes are 2 for a command line that asks for nothing,
101 for a fault, and 1 for any other failure. -/
def run (arguments : List Text) : m Outcome := do
  match parse? arguments with
  | none => return ⟨2, none⟩
  | some line =>
      match ← (perform line).run with
      | .ok code => return ⟨code, none⟩
      | .error (.fault _) => return ⟨101, none⟩
      | .error failure => return ⟨1, failure.message⟩

end CommandLine

end Verbatim
