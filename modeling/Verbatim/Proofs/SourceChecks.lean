/-
  Checking all sources under paths.

  All paths are expanded before the first file is checked.  Expanding reads the memory only
  and fails for the first path that stands for nothing, so a failure leaves everything as it
  was.  Behind that nothing can fail: the files are there, every text that offsets can count
  has a parse, the tree of a parse is faithful, and every problem has a range of its text,
  which a renderer can show.  Checking a file adds its reports to the error output and keeps
  the files, so the reports of all files follow one another and their numbers add up.
-/
import Verbatim.Proofs.PathOrder
import Verbatim.Proofs.ReportRanges
import Verbatim.Proofs.Representation
import Verbatim.Proofs.WriteBack

set_option autoImplicit false

namespace Verbatim

namespace Memory

/-! ## What paths stand for -/

/-- A file under a directory that has the extension of a source file. -/
def IsSourceUnder (memory : Memory) (directory p : Path) : Prop :=
  (∃ text, (p, text) ∈ memory.files) ∧ directory.parts <+: p.parts ∧
    (p.extension? = some "ts".toList ∨ p.extension? = some "js".toList)

/-- A path is a file, or there is a source file under it. -/
def HasSources (memory : Memory) (path : Path) : Prop :=
  memory.isFile path = true ∨ ∃ p, memory.IsSourceUnder path p

/-- The files that a path stands for: a file stands for itself, and any other path for the
source files under it, in ascending order. -/
structure StandsFor (memory : Memory) (path : Path) (files : List Path) : Prop where
  of_file : memory.isFile path = true → files = [path]
  of_directory : memory.isFile path = false →
    (∀ p, p ∈ files ↔ memory.IsSourceUnder path p) ∧ Path.Ascending files

/-- The files that a path stands for, if any. -/
def sources (memory : Memory) (path : Path) : List Path :=
  if memory.isFile path then [path] else memory.list path Command.sourceExtensions

variable {memory : Memory} {path : Path}

theorem hasExtension_sourceExtensions (p : Path) :
    p.hasExtension Command.sourceExtensions = true ↔
      (p.extension? = some "ts".toList ∨ p.extension? = some "js".toList) := by
  rw [Path.hasExtension]
  cases p.extension? <;> simp [Command.sourceExtensions]

theorem mem_list_iff (directory p : Path) :
    p ∈ memory.list directory Command.sourceExtensions ↔ memory.IsSourceUnder directory p := by
  rw [list, List.mem_filter, Bool.and_eq_true, hasExtension_sourceExtensions, Path.startsWith,
    List.isPrefixOf_iff_prefix, List.mem_map, IsSourceUnder]
  refine and_congr_left' ⟨?_, ?_⟩
  · rintro ⟨f, hf, rfl⟩
    exact ⟨f.2, hf⟩
  · rintro ⟨text, hf⟩
    exact ⟨_, hf, rfl⟩

theorem standsFor_sources (h : memory.Constructed) (path : Path) :
    memory.StandsFor path (memory.sources path) where
  of_file := fun hfile => if_pos hfile
  of_directory := fun hfile => by
    have hsources : memory.sources path = memory.list path Command.sourceExtensions :=
      if_neg (Bool.eq_false_iff.mp hfile)
    rw [hsources]
    exact ⟨mem_list_iff path, h.ascending.filter _⟩

theorem hasSources_iff : memory.HasSources path ↔ memory.sources path ≠ [] := by
  rw [HasSources, sources]
  split
  · rename_i hfile
    exact iff_of_true (.inl hfile) (List.cons_ne_nil _ _)
  · rename_i hfile
    simp only [or_iff_right hfile, ← mem_list_iff]
    exact ⟨fun ⟨_, hp⟩ => List.ne_nil_of_mem hp, List.exists_mem_of_ne_nil _⟩

instance : Decidable (memory.HasSources path) :=
  decidable_of_iff _ hasSources_iff.symm

/-- Everything that a path stands for is a file. -/
theorem isFile_of_mem_sources {p : Path} (h : p ∈ memory.sources path) :
    memory.isFile p = true := by
  rw [sources] at h
  split at h
  · rename_i hfile
    rwa [List.mem_singleton.mp h]
  · obtain ⟨⟨text, hmem⟩, _⟩ := (mem_list_iff path p).mp h
    exact List.any_eq_true.mpr ⟨_, hmem, beq_self_eq_true _⟩

/-! ## Expanding paths -/

/-- The first path stands for something, or the expansion fails for it. -/
theorem run_expand_cons (path : Path) (rest : List Path) :
    memory.run (Command.expand (path :: rest)) =
      if memory.sources path = [] then (.error (.noSources path), memory)
      else memory.run (do return memory.sources path ++ (← Command.expand rest)) := by
  have hfile : memory.run (Command.onHost (Host.isFile path)) =
      (.ok (memory.isFile path), memory) := rfl
  have hlist : memory.run (Command.onFiles (.list path)
      (Host.listFiles path Command.sourceExtensions)) =
        (.ok (memory.list path Command.sourceExtensions), memory) := rfl
  rw [Command.expand, run_bind_of_ok hfile, sources]
  cases memory.isFile path with
  | true => rfl
  | false =>
      simp only [Bool.false_eq_true, if_false]
      rw [run_bind_of_ok hlist]
      cases memory.list path Command.sourceExtensions with
      | nil => rfl
      | cons p ps => rfl

/-- Paths that all stand for something are expanded in order. -/
theorem run_expand_of_ok {paths : List Path} (h : ∀ p ∈ paths, memory.HasSources p) :
    memory.run (Command.expand paths) = (.ok (paths.flatMap memory.sources), memory) := by
  induction paths with
  | nil => rfl
  | cons path rest ih =>
      obtain ⟨hpath, hrest⟩ := List.forall_mem_cons.mp h
      rw [run_expand_cons, if_neg (hasSources_iff.mp hpath), run_bind_of_ok (ih hrest)]
      rfl

/-- The first path that stands for nothing ends the expansion. -/
theorem run_expand_of_error {front back : List Path}
    (hfront : ∀ p ∈ front, memory.HasSources p) (hpath : ¬ memory.HasSources path) :
    memory.run (Command.expand (front ++ path :: back)) =
      (.error (.noSources path), memory) := by
  induction front with
  | nil =>
      rw [hasSources_iff, ne_eq, not_not] at hpath
      rw [List.nil_append, run_expand_cons, if_pos hpath]
  | cons first front ih =>
      obtain ⟨hfirst, hrest⟩ := List.forall_mem_cons.mp hfront
      rw [List.cons_append, run_expand_cons, if_neg (hasSources_iff.mp hfirst),
        run_bind_of_error (ih hrest)]

end Memory

/-! ## Checking files -/

/-- Every problem of a text has a range of it. -/
theorem ParseRun.pointsInto_checkParse {text : Text} {options : ParseOptions}
    (run : ParseRun text options) : ∀ d ∈ checkParse run.result, d.PointsInto text := by
  intro d hd
  rcases List.mem_append.mp ((Diagnostic.sort_perm _).mem_iff.mp hd) with hd | hd
  · exact Diagnostic.pointsInto_of_holdsRange (run.holdsRange_diagnostics d hd)
  · exact Diagnostic.pointsInto_of_holdsRange (run.holdsRange_review d hd)

/-- What can be rendered one by one can be rendered in a row. -/
theorem exists_map_ok {α β ε : Type} {f : α → Except ε β} {as : List α}
    (h : ∀ a ∈ as, ∃ b, f a = .ok b) : ∃ bs : List β, as.map f = bs.map Except.ok := by
  induction as with
  | nil => exact ⟨[], rfl⟩
  | cons a as ih =>
      obtain ⟨⟨b, hb⟩, hrest⟩ := List.forall_mem_cons.mp h
      obtain ⟨bs, hbs⟩ := ih hrest
      exact ⟨b :: bs, by rw [List.map_cons, hb, hbs, List.map_cons]⟩

/-- A file that has been checked: its text, its problems, and the report of each of them. -/
structure CheckedFile where
  path : Path
  text : Text
  problems : List Diagnostic
  reports : List Text
  deriving DecidableEq, Repr

/-- What is written for a file: its reports, each with a line end behind it. -/
def CheckedFile.output (c : CheckedFile) : Text :=
  c.reports.flatMap fun report => report ++ "\n".toList

namespace Memory

/-- A file of a memory has been checked.  Its problems are those of a source file with its
text, and each of them has been rendered. -/
structure Checks (memory : Memory) (render : Command.Renderer) (settings : Settings)
    (c : CheckedFile) : Prop where
  read_eq : memory.read c.path = .ok c.text
  problems_eq : ∀ revision now, ∃ file,
    (SourceFile.new c.path c.text settings.parse revision).check now =
      .ok (⟨c.problems, now⟩, file)
  reports_eq : c.problems.map (fun d => render d c.path.spelling c.text) =
    c.reports.map Except.ok

variable {memory : Memory} {render : Command.Renderer} {settings : Settings} {path : Path}

theorem putErr_putErr (memory : Memory) (s t : Text) :
    (memory.putErr s).putErr t = memory.putErr (s ++ t) := by
  simp [putErr]

theorem putErr_nil (memory : Memory) : memory.putErr [] = memory := by
  simp [putErr]

theorem run_putReport {d : Diagnostic} {text report : Text}
    (h : render d path.spelling text = .ok report) (memory : Memory) :
    memory.run (Command.putReport render path text d) =
      (.ok (), memory.putErr (report ++ "\n".toList)) := by
  rw [Command.putReport, h]
  rfl

/-- Problems that can be rendered are reported in order. -/
theorem run_putReports {problems : List Diagnostic} {text : Text} {reports : List Text}
    (h : problems.map (fun d => render d path.spelling text) = reports.map Except.ok)
    (memory : Memory) :
    memory.run (problems.forM (Command.putReport render path text)) =
      (.ok (), memory.putErr (reports.flatMap fun report => report ++ "\n".toList)) := by
  induction problems generalizing reports memory with
  | nil =>
      obtain rfl := List.map_eq_nil_iff.mp h.symm
      rw [List.flatMap_nil, putErr_nil]
      rfl
  | cons d problems ih =>
      obtain ⟨report, more, rfl, hreport, hmore⟩ := List.map_eq_cons_iff.mp h.symm
      rw [List.forM, run_bind_of_ok (run_putReport hreport.symm memory), ih hmore.symm,
        putErr_putErr, List.flatMap_cons]

/-- A file of a text that offsets can count can be checked. -/
theorem exists_checks (settings : Settings) (hfile : memory.isFile path = true)
    (hlimit : ∀ f ∈ memory.files, f.2.width < Offset.limit)
    (hrender : ∀ d path text, d.PointsInto text → ∃ report, render d path text = .ok report) :
    ∃ c, c.path = path ∧ memory.Checks render settings c := by
  obtain ⟨text, hread⟩ := isFile_iff.mp hfile
  obtain ⟨_, hmem, _⟩ := mem_of_read hread
  obtain ⟨run⟩ := exists_parseRun text settings.parse (hlimit _ hmem)
  obtain ⟨reports, hreports⟩ := exists_map_ok fun d hd =>
    hrender d path.spelling text (run.pointsInto_checkParse d hd)
  exact ⟨⟨path, text, checkParse run.result, reports⟩, rfl, hread,
    SourceFile.check_new run.parse_eq, hreports⟩

/-- A check of a file writes its reports and answers the number of its problems. -/
theorem run_checkFile {c : CheckedFile} (h : memory.Checks render settings c)
    (hlimit : ∀ f ∈ memory.files, f.2.width < Offset.limit) :
    memory.run (Command.checkFile render settings c.path) =
      (.ok c.problems.length, memory.putErr c.output) := by
  obtain ⟨_, hmem, _⟩ := mem_of_read h.read_eq
  obtain ⟨run⟩ := exists_parseRun c.text settings.parse (hlimit _ hmem)
  have hproblems : checkParse run.result = c.problems := by
    obtain ⟨file, hcheck⟩ := h.problems_eq 0 0
    obtain ⟨file', hcheck'⟩ := SourceFile.check_new run.parse_eq 0 0
    have hanswer := Except.ok.inj (hcheck'.symm.trans hcheck)
    exact congrArg (fun answer => answer.1.value) hanswer
  have htree : run.result.root.check = .ok () := by
    have hregular : run.result.root.Regular := run.regular_root
    rw [Element.check, hregular.checkFrom_eq]
    rfl
  rw [Command.checkFile, run_bind_of_ok (run_load_of_ok h.read_eq run.parse_eq)]
  simp only [htree, hproblems]
  rw [run_bind_of_ok (run_putReports h.reports_eq memory)]
  rfl

/-- Checks of files, one behind the other, write all reports and answer the number of all
problems. -/
theorem run_checkFiles {checks : List CheckedFile}
    (h : ∀ c ∈ checks, memory.Checks render settings c)
    (hlimit : ∀ f ∈ memory.files, f.2.width < Offset.limit) :
    memory.run (Command.checkFiles render settings (checks.map CheckedFile.path)) =
      (.ok (checks.map fun c => c.problems.length).sum,
        memory.putErr (checks.flatMap CheckedFile.output)) := by
  induction checks generalizing memory with
  | nil =>
      rw [List.flatMap_nil, putErr_nil]
      rfl
  | cons c checks ih =>
      obtain ⟨hc, hrest⟩ := List.forall_mem_cons.mp h
      -- Output does not change what is read, so the checks that are left stay the same.
      have hafter : ∀ c' ∈ checks, (memory.putErr c.output).Checks render settings c' :=
        fun c' hc' => ⟨(hrest c' hc').read_eq, (hrest c' hc').problems_eq,
          (hrest c' hc').reports_eq⟩
      rw [List.map_cons, Command.checkFiles, run_bind_of_ok (run_checkFile hc hlimit),
        run_bind_of_ok (ih hafter hlimit), putErr_putErr, List.flatMap_cons]
      rfl

/-- Files that can be read can all be checked. -/
theorem exists_checks_of_files (settings : Settings) {paths : List Path}
    (h : ∀ p ∈ paths, memory.isFile p = true)
    (hlimit : ∀ f ∈ memory.files, f.2.width < Offset.limit)
    (hrender : ∀ d path text, d.PointsInto text → ∃ report, render d path text = .ok report) :
    ∃ checks : List CheckedFile, checks.map CheckedFile.path = paths ∧
      ∀ c ∈ checks, memory.Checks render settings c := by
  induction paths with
  | nil => exact ⟨[], rfl, List.forall_mem_nil _⟩
  | cons path paths ih =>
      obtain ⟨hpath, hpaths⟩ := List.forall_mem_cons.mp h
      obtain ⟨c, rfl, hc⟩ := exists_checks settings hpath hlimit hrender
      obtain ⟨checks, rfl, hchecks⟩ := ih hpaths
      exact ⟨c :: checks, rfl, List.forall_mem_cons.mpr ⟨hc, hchecks⟩⟩

/-! ## The command -/

/-- If every path stands for something, all files are checked. -/
theorem run_checkWith_of_ok (settings : Settings) {paths : List Path}
    (h : ∀ p ∈ paths, memory.HasSources p)
    (hlimit : ∀ f ∈ memory.files, f.2.width < Offset.limit)
    (hrender : ∀ d path text, d.PointsInto text → ∃ report, render d path text = .ok report) :
    ∃ checks : List CheckedFile,
      checks.map CheckedFile.path = paths.flatMap memory.sources ∧
      (∀ c ∈ checks, memory.Checks render settings c) ∧
      memory.run (Command.checkWith render settings paths) =
        (.ok (checks.map fun c => c.problems.length).sum,
          memory.putErr (checks.flatMap CheckedFile.output)) := by
  have hfiles : ∀ p ∈ paths.flatMap memory.sources, memory.isFile p = true := by
    intro p hp
    obtain ⟨path, _, hp⟩ := List.mem_flatMap.mp hp
    exact isFile_of_mem_sources hp
  obtain ⟨checks, hpaths, hchecks⟩ := exists_checks_of_files settings hfiles hlimit hrender
  refine ⟨checks, hpaths, hchecks, ?_⟩
  rw [Command.checkWith, run_bind_of_ok (run_expand_of_ok h), ← hpaths,
    run_checkFiles hchecks hlimit]

/-- If some path stands for nothing, nothing happens but a failure for the first such path. -/
theorem run_checkWith_of_error {front back : List Path}
    (hfront : ∀ p ∈ front, memory.HasSources p) (hpath : ¬ memory.HasSources path) :
    memory.run (Command.checkWith render settings (front ++ path :: back)) =
      (.error (.noSources path), memory) := by
  rw [Command.checkWith, run_bind_of_error (run_expand_of_error hfront hpath)]

/-- Of paths that do not all stand for something, there is a first one that does not. -/
theorem exists_first_without_sources {paths : List Path}
    (h : ∃ p ∈ paths, ¬ memory.HasSources p) :
    ∃ front path back, paths = front ++ path :: back ∧
      (∀ p ∈ front, memory.HasSources p) ∧ ¬ memory.HasSources path := by
  induction paths with
  | nil => simp at h
  | cons first rest ih =>
      by_cases hfirst : memory.HasSources first
      · obtain ⟨p, hp, hnone⟩ := h
        have hrest : p ∈ rest := by
          rcases List.mem_cons.mp hp with rfl | hp
          · exact absurd hfirst hnone
          · exact hp
        obtain ⟨front, path, back, rfl, hfront, hpath⟩ := ih ⟨p, hrest, hnone⟩
        exact ⟨first :: front, path, back, rfl, List.forall_mem_cons.mpr ⟨hfirst, hfront⟩, hpath⟩
      · exact ⟨[], first, rest, rfl, List.forall_mem_nil _, hfirst⟩

/-- Checking all sources under paths fails exactly if some path is neither a file nor a
directory with a source file under it.  Then nothing has changed, and the failure tells the
first such path.  Otherwise the files that the paths stand for are checked in order, the
answer is the number of all their problems, and a report of each problem has been added to
the error output and nothing else has changed. -/
theorem check_reports_all_sources {memory : Memory} (hmemory : memory.Constructed)
    (hlimit : ∀ f ∈ memory.files, f.2.width < Offset.limit) {render : Command.Renderer}
    (hrender : ∀ d path text, d.PointsInto text → ∃ report, render d path text = .ok report)
    (settings : Settings) (paths : List Path) :
    ((∃ failure, (memory.run (Command.checkWith render settings paths)).1 = .error failure) ↔
        ∃ path ∈ paths, ¬ memory.HasSources path) ∧
      (∀ front path back, paths = front ++ path :: back →
        (∀ p ∈ front, memory.HasSources p) → ¬ memory.HasSources path →
          memory.run (Command.checkWith render settings paths) =
              (.error (.noSources path), memory) ∧
            (Failure.noSources path).message =
              some ("no source files found at `" ++ String.ofList path.spelling ++ "`")) ∧
      ((∀ path ∈ paths, memory.HasSources path) →
        (∀ path ∈ paths, memory.StandsFor path (memory.sources path)) ∧
        ∃ checks : List CheckedFile,
          checks.map CheckedFile.path = paths.flatMap memory.sources ∧
          (∀ c ∈ checks, memory.Checks render settings c) ∧
          memory.run (Command.checkWith render settings paths) =
            (.ok (checks.map fun c => c.problems.length).sum,
              { memory with err := memory.err ++ checks.flatMap CheckedFile.output })) := by
  refine ⟨⟨?_, ?_⟩, ?_, fun h => ⟨fun path _ => standsFor_sources hmemory path, ?_⟩⟩
  · rintro ⟨failure, hfailure⟩
    refine Classical.byContradiction fun hnone => ?_
    simp only [not_exists, not_and, not_not] at hnone
    obtain ⟨checks, _, _, hrun⟩ := run_checkWith_of_ok settings hnone hlimit hrender
    rw [hrun] at hfailure
    cases hfailure
  · intro h
    obtain ⟨front, path, back, rfl, hfront, hpath⟩ := exists_first_without_sources h
    exact ⟨.noSources path, by rw [run_checkWith_of_error hfront hpath]⟩
  · rintro front path back rfl hfront hpath
    exact ⟨run_checkWith_of_error hfront hpath, rfl⟩
  · exact run_checkWith_of_ok settings h hlimit hrender

/-- Two source files, one with a slash too many in its path, and a file of another kind. -/
def mixedFiles : Memory :=
  ((Memory.empty.write ⟨"src/b.js".toList⟩ "x =".toList).write ⟨"src//a.ts".toList⟩
    faultySource).write ⟨"src/notes.md".toList⟩ "".toList

/-- A directory stands for the source files in it, in order. -/
example : mixedFiles.sources ⟨"src/".toList⟩ = [⟨"src//a.ts".toList⟩, ⟨"src/b.js".toList⟩] := by
  decide

/-- The files in a directory are checked, and one of them once more.  A dot in front of a path
makes it another one, under which there is nothing. -/
theorem check_reports_mixedFiles :
    let render : Command.Renderer := fun d path text => .ok (d.report path text)
    let paths : List Path := [⟨"src/".toList⟩, ⟨"src/a.ts".toList⟩]
    mixedFiles.Constructed ∧ (∀ f ∈ mixedFiles.files, f.2.width < Offset.limit) ∧
      (∀ d path text, d.PointsInto text → ∃ report, render d path text = .ok report) ∧
      (∀ path ∈ paths, mixedFiles.HasSources path) ∧
      (∃ checks : List CheckedFile,
        checks.map CheckedFile.path =
          [⟨"src//a.ts".toList⟩, ⟨"src/b.js".toList⟩, ⟨"src/a.ts".toList⟩] ∧
        (∀ c ∈ checks, mixedFiles.Checks render .default c) ∧
        mixedFiles.run (Command.check .default paths) =
          (.ok (checks.map fun c => c.problems.length).sum,
            { mixedFiles with err := mixedFiles.err ++ checks.flatMap CheckedFile.output })) ∧
      mixedFiles.run (Command.check .default (paths ++ [⟨"./src".toList⟩, ⟨"lib".toList⟩])) =
        (.error (.noSources ⟨"./src".toList⟩), mixedFiles) := by
  intro render paths
  have hmemory : mixedFiles.Constructed := .write (.write (.write (.new []) _ _) _ _) _ _
  have hlimit : ∀ f ∈ mixedFiles.files, f.2.width < Offset.limit := by decide
  have hrender : ∀ d path text, d.PointsInto text → ∃ report, render d path text = .ok report :=
    fun d path text _ => ⟨d.report path text, rfl⟩
  have hpaths : ∀ path ∈ paths, mixedFiles.HasSources path := by decide
  have hworks := check_reports_all_sources hmemory hlimit hrender .default paths
  have hfails := check_reports_all_sources hmemory hlimit hrender .default
    (paths ++ [⟨"./src".toList⟩, ⟨"lib".toList⟩])
  exact ⟨hmemory, hlimit, hrender, hpaths, (hworks.2.2 hpaths).2,
    (hfails.2.1 paths _ _ rfl hpaths (by decide)).1⟩

end Memory

end Verbatim
