/-
  Files in memory, and commands that run on them.

  The contents of a path are those of the first entry whose path has the same parts, so
  paths that are spelled differently can stand for one file.  A write replaces what is read
  from its own path and nothing else.  A command takes a memory to an answer and a memory;
  what it does is put together from what its parts do, and the first failure ends it.
-/
import Verbatim.Command.Basic
import Verbatim.Files.Memory

set_option autoImplicit false

namespace Verbatim

namespace Memory

/-! ## Reading -/

variable {memory : Memory} {path : Path} {text : Text}

/-- What is read from a path is the text of an entry for it. -/
theorem mem_of_read (h : memory.read path = .ok text) :
    ∃ key, (key, text) ∈ memory.files ∧ key.parts = path.parts := by
  unfold read at h
  split at h
  · rename_i key old hfind
    cases h
    exact ⟨key, List.mem_of_find?_eq_some hfind, by simpa using List.find?_some hfind⟩
  · cases h

/-- A path can be read exactly if a file is there. -/
theorem isFile_iff : memory.isFile path = true ↔ ∃ text, memory.read path = .ok text := by
  unfold isFile
  rw [List.any_eq_true]
  constructor
  · rintro ⟨f, hf, hparts⟩
    have hsome : (memory.files.find? fun f => f.1.parts == path.parts).isSome = true :=
      List.find?_isSome.mpr ⟨f, hf, hparts⟩
    obtain ⟨found, hfind⟩ := Option.isSome_iff_exists.mp hsome
    exact ⟨found.2, by rw [read, hfind]⟩
  · rintro ⟨text, hread⟩
    obtain ⟨key, hkey, hparts⟩ := mem_of_read hread
    exact ⟨_, hkey, beq_iff_eq.mpr hparts⟩

theorem read_eq_notFound (h : memory.isFile path = false) :
    memory.read path = .error .notFound := by
  unfold read
  split
  · rename_i key text hfind
    have hfile : memory.isFile path = true := isFile_iff.mpr ⟨text, by rw [read, hfind]⟩
    rw [h] at hfile
    cases hfile
  · rfl

/-! ## Writing -/

/-- What was written to a path is found there. -/
theorem exists_find?_insert (path : Path) (text : Text) (files : List (Path × Text)) :
    ∃ key, (insert path text files).find? (fun f => f.1.parts == path.parts) =
      some (key, text) := by
  induction files with
  | nil => exact ⟨path, by simp [insert]⟩
  | cons f rest ih =>
      rw [insert]
      split
      · rename_i hkey
        exact ⟨f.1, by simp [hkey]⟩
      · rename_i hkey
        split
        · exact ⟨path, by simp⟩
        · obtain ⟨key, hfind⟩ := ih
          exact ⟨key, by simpa [hkey] using hfind⟩

/-- Another path is not affected by a write. -/
theorem find?_insert_of_ne {other : Path} (h : other.parts ≠ path.parts) (text : Text)
    (files : List (Path × Text)) :
    (insert path text files).find? (fun f => f.1.parts == other.parts) =
      files.find? (fun f => f.1.parts == other.parts) := by
  induction files with
  | nil => simp [insert, h.symm]
  | cons f rest ih =>
      rw [insert]
      split
      · rename_i hkey
        simp [hkey, h.symm]
      · split
        · simp [List.find?_cons, h.symm]
        · rw [List.find?_cons, List.find?_cons, ih]

/-- The entries for other paths stay as they are. -/
theorem filter_insert (path : Path) (text : Text) (files : List (Path × Text)) :
    (insert path text files).filter (fun f => f.1.parts != path.parts) =
      files.filter (fun f => f.1.parts != path.parts) := by
  induction files with
  | nil => simp [insert]
  | cons f rest ih =>
      rw [insert]
      split
      · rename_i hkey
        simp [hkey]
      · split
        · simp
        · rw [List.filter_cons, List.filter_cons, ih]

/-- Of two memories, the second has a text at a path and is otherwise as the first. -/
structure Replaces (before : Memory) (path : Path) (text : Text) (after : Memory) : Prop where
  read_eq : after.read path = .ok text
  read_other : ∀ other : Path, other.parts ≠ path.parts → after.read other = before.read other
  others_eq : after.files.filter (fun f => f.1.parts != path.parts) =
    before.files.filter (fun f => f.1.parts != path.parts)
  arguments_eq : after.arguments = before.arguments
  out_eq : after.out = before.out
  err_eq : after.err = before.err

theorem replaces_write (memory : Memory) (path : Path) (text : Text) :
    memory.Replaces path text (memory.write path text) where
  read_eq := by
    obtain ⟨key, hfind⟩ := exists_find?_insert path text memory.files
    rw [read, write, hfind]
  read_other := fun other hother => by
    rw [read, read, write, find?_insert_of_ne hother]
  others_eq := filter_insert path text memory.files
  arguments_eq := rfl
  out_eq := rfl
  err_eq := rfl

/-! ## Commands -/

/-- The answer of a command on files in memory, and the memory behind it. -/
def run {α : Type} (memory : Memory) (command : Command (StateM Memory) α) :
    Except Failure α × Memory :=
  command.run.run memory

section Run

variable {α β : Type} {memory after : Memory} {command : Command (StateM Memory) α}
  {next : α → Command (StateM Memory) β}

theorem run_bind_of_ok {value : α} (h : memory.run command = (.ok value, after)) :
    memory.run (command >>= next) = after.run (next value) :=
  Writing.run_bind_of_ok h

theorem run_bind_of_error {failure : Failure} (h : memory.run command = (.error failure, after)) :
    memory.run (command >>= next) = (.error failure, after) :=
  Writing.run_bind_of_error h

/-- A file is read, or the command fails for the reason given. -/
theorem run_readFile (memory : Memory) (failure : FileError → Failure) (path : Path) :
    memory.run (Command.onFiles failure (Host.readFile path)) =
      ((memory.read path).mapError failure, memory) := by
  have hread : memory.run (Command.onHost (Host.readFile path)) =
      (.ok (memory.read path), memory) := rfl
  rw [Command.onFiles, run_bind_of_ok hread]
  cases memory.read path <;> rfl

/-- A write does not fail. -/
theorem run_writeFile (memory : Memory) (failure : FileError → Failure) (path : Path)
    (text : Text) :
    memory.run (Command.onFiles failure (Host.writeFile path text)) =
      (.ok (), memory.write path text) := rfl

end Run

end Memory

end Verbatim
