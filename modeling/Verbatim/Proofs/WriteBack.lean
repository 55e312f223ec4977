/-
  A file that is written back from its tree keeps its text.

  A sink without a limit takes every call and never refuses to close, so emitting a tree
  leaves the texts of its tokens in it, and these are the source that was parsed.  The
  command that writes a file back out fails only where there is no file to read; otherwise
  the text that was read is written, and nothing else changes.
-/
import Verbatim.Proofs.Emission
import Verbatim.Proofs.MemoryFiles
import Verbatim.Proofs.RoundTrip

set_option autoImplicit false

namespace Verbatim

/-! ## Emitted text -/

/-- A tree is emitted as the texts of its tokens. -/
theorem Sink.exists_run_emitText (newLine : Text) (root : Element) :
    ∃ sink, ((writer newLine).emitText root).run.run unlimited = (.ok (), sink) ∧
      sink.text = root.tokens.flatMap Token.fullText := by
  obtain ⟨more, hrun, htext⟩ :=
    exists_run_callAll newLine (root.tokens.flatMap Token.calls ++ [.close]) []
  rw [← TextWriter.emitText_eq] at hrun
  refine ⟨holding more, hrun, ?_⟩
  have hcalls (t : Token) : t.calls.flatMap (WriterCall.output newLine) = t.fullText := by
    simp [Token.calls, WriterCall.output, Token.fullText]
  simp [htext, text_holding, WriterCall.output, List.flatMap_assoc, hcalls]

/-! ## The command -/

namespace Memory

variable {memory : Memory} {settings : Settings} {path : Path}

/-- A file that is there is loaded with its parse. -/
theorem run_load_of_ok {text : Text} {p : Parse} (hread : memory.read path = .ok text)
    (hparse : parse text settings.parse = .ok p) :
    memory.run (Command.load settings path) = (.ok (text, p), memory) := by
  have hfile : memory.run (Command.onFiles (.read path) (Host.readFile path)) =
      (.ok text, memory) := by
    rw [run_readFile, hread]
    rfl
  rw [Command.load, run_bind_of_ok hfile, hparse]
  rfl

/-- Without a file to read, nothing is loaded. -/
theorem run_load_of_error {cause : FileError} (hread : memory.read path = .error cause) :
    memory.run (Command.load settings path) = (.error (.read path cause), memory) := by
  have hfile : memory.run (Command.onFiles (.read path) (Host.readFile path)) =
      (.error (.read path cause), memory) := by
    rw [run_readFile, hread]
    rfl
  rw [Command.load, run_bind_of_error hfile]

/-- A file is written back with the text that it had. -/
theorem run_emit_of_ok {text : Text} (hread : memory.read path = .ok text)
    (hlimit : text.width < Offset.limit) (output : Path) :
    memory.run (Command.emit settings path output) = (.ok (), memory.write output text) := by
  obtain ⟨run⟩ := exists_parseRun text settings.parse hlimit
  obtain ⟨sink, hsink, htext⟩ := Sink.exists_run_emitText [] run.root
  rw [Element.tokens_eq_leaves rfl, ← Element.fullText_eq_leaves, run.fullText_root] at htext
  have hload : memory.run (Command.load settings path) = (.ok (text, run.result), memory) :=
    run_load_of_ok hread run.parse_eq
  rw [Command.emit, run_bind_of_ok hload]
  simp only [show run.result.root = run.root from rfl, hsink, htext]
  rw [run_writeFile]

theorem run_emit_of_error {cause : FileError} (hread : memory.read path = .error cause)
    (output : Path) :
    memory.run (Command.emit settings path output) = (.error (.read path cause), memory) := by
  rw [Command.emit, run_bind_of_error (run_load_of_error hread)]

/-- Writing a file back from its tree succeeds exactly if the file is there.  Then the file
at the output has the text that the file had, and every other file and all output is as
before, also where input and output are one file.  Where no file is there, the command says
that it failed to read it and changes nothing. -/
theorem emit_writes_source (memory : Memory) (settings : Settings) (path output : Path)
    (h : ∀ f ∈ memory.files, f.2.width < Offset.limit) :
    ((memory.run (Command.emit settings path output)).1 = .ok () ↔
        memory.isFile path = true) ∧
      (memory.isFile path = true → ∃ text, memory.read path = .ok text ∧
        memory.Replaces output text (memory.run (Command.emit settings path output)).2) ∧
      (memory.isFile path = false →
        memory.run (Command.emit settings path output) =
            (.error (.read path .notFound), memory) ∧
          (Failure.read path .notFound).message =
            some ("failed to read `" ++ String.ofList path.spelling ++ "`")) := by
  cases hfile : memory.isFile path with
  | true =>
      obtain ⟨text, hread⟩ := isFile_iff.mp hfile
      obtain ⟨_, hmem, _⟩ := mem_of_read hread
      have hrun : memory.run (Command.emit settings path output) =
          (.ok (), memory.write output text) := run_emit_of_ok hread (h _ hmem) output
      rw [hrun]
      exact ⟨iff_of_true rfl rfl, fun _ => ⟨text, hread, memory.replaces_write output text⟩, nofun⟩
  | false =>
      have hrun : memory.run (Command.emit settings path output) =
          (.error (.read path .notFound), memory) :=
        run_emit_of_error (read_eq_notFound hfile) output
      rw [hrun]
      exact ⟨iff_of_false nofun nofun, nofun, fun _ => ⟨rfl, rfl⟩⟩

/-- A text that is not well-formed, with line ends of three forms. -/
def unsavedText : Text :=
  "let a = 1 // one\r\n\r  @ if (a) \x7b f(a,) \x7d\n/* open".toList

/-- The text in one file, and another file to write it to. -/
def unsavedFiles : Memory :=
  ⟨[(⟨"in.ts".toList⟩, unsavedText), (⟨"src/out.ts".toList⟩, "old".toList)], [], [], []⟩

/-- The text is written to the other file in another spelling of its path, and a file that is
not there is not written to the first one. -/
theorem emit_unsavedFiles :
    (∀ f ∈ unsavedFiles.files, f.2.width < Offset.limit) ∧
      (unsavedFiles.run
        (Command.emit .default ⟨"in.ts".toList⟩ ⟨"src//out.ts".toList⟩)).1 = .ok () ∧
      (∃ text, unsavedFiles.read ⟨"in.ts".toList⟩ = .ok text ∧
        unsavedFiles.Replaces ⟨"src//out.ts".toList⟩ text (unsavedFiles.run
          (Command.emit .default ⟨"in.ts".toList⟩ ⟨"src//out.ts".toList⟩)).2) ∧
      unsavedFiles.run (Command.emit .default ⟨"no.ts".toList⟩ ⟨"in.ts".toList⟩) =
        (.error (.read ⟨"no.ts".toList⟩ .notFound), unsavedFiles) := by
  have hlimit : ∀ f ∈ unsavedFiles.files, f.2.width < Offset.limit := by decide
  have hthere := emit_writes_source unsavedFiles .default ⟨"in.ts".toList⟩ ⟨"src//out.ts".toList⟩
    hlimit
  have hmissing := emit_writes_source unsavedFiles .default ⟨"no.ts".toList⟩ ⟨"in.ts".toList⟩
    hlimit
  exact ⟨hlimit, hthere.1.mpr (by decide), hthere.2.1 (by decide), (hmissing.2.2 (by decide)).1⟩

end Memory

end Verbatim
