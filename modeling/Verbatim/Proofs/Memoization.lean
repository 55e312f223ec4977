/-
  The answers of a workspace are those of a fresh computation.

  One request keeps every file coherent: it gives the answer that is computed from what is
  set, and files that it does not revise retain what is current.  By induction all answers of
  a session are fresh, whatever the order of the requests.  What is set of a file does not
  depend on requests for other files, and a file that is not revised keeps its parse.
-/
import Verbatim.Proofs.DerivedValues
import Verbatim.Proofs.ReportOrder

set_option autoImplicit false

namespace Verbatim

/-! ## Requests -/

namespace Workspace

/-- What is asked of a workspace: to set something, or for a derived value. -/
inductive Request where
  | add (path : Path) (text : Text) (options : ParseOptions)
  | setPath (index : Nat) (path : Path)
  | setText (index : Nat) (text : Text)
  | setOptions (index : Nat) (options : ParseOptions)
  | parse (index : Nat)
  | lineIndex (index : Nat)
  | check (index : Nat)
  deriving DecidableEq, Repr

namespace Request

/-- The file that a request is about. -/
def target : Request → Option Nat
  | .add .. => none
  | .setPath index _ | .setText index _ | .setOptions index _ => some index
  | .parse index | .lineIndex index | .check index => some index

/-- The file whose text or options a request sets. -/
def revises : Request → Option Nat
  | .setText index _ | .setOptions index _ => some index
  | _ => none

/-- A request for a derived value. -/
def isQuery : Request → Bool
  | .parse _ | .lineIndex _ | .check _ => true
  | _ => false

/-- Offsets can count the texts that are set. -/
def Short : Request → Prop
  | .add _ text _ | .setText _ text => text.width < Offset.limit
  | _ => True

instance (r : Request) : Decidable r.Short := by
  cases r <;> unfold Short <;> infer_instance

end Request

/-- An answer, with derived values in some form; a file that is not there has none. -/
inductive Answer (form : Type → Type) where
  | done
  | parse (answer : Option (form Parse))
  | lineIndex (answer : Option (form LineIndex))
  | check (answer : Option (form (List Diagnostic)))

/-- The values of an answer, without the revisions at which they were made. -/
def Answer.values : Answer Derived → Answer Id
  | .done => .done
  | .parse d => .parse (d.map Derived.value)
  | .lineIndex d => .lineIndex (d.map Derived.value)
  | .check d => .check (d.map Derived.value)

/-- A derived value of one file.  What has been derived is kept. -/
def ask {α : Type} (w : Workspace) (index : Nat)
    (query : SourceFile → Nat → Except Fault (α × SourceFile)) :
    Except Fault (Option α × Workspace) :=
  match w.file? index with
  | none => .ok (none, w)
  | some file => do
      let (answer, file) ← query file w.revision
      return (some answer, w.keep index file)

/-- The answer to a request, and the workspace behind it. -/
def serve (validation : Validation) (w : Workspace) :
    Request → Except Fault (Answer Derived × Workspace)
  | .add path text options => .ok (.done, w.add path text options)
  | .setPath index path => .ok (.done, w.setPath index path)
  | .setText index text => .ok (.done, w.setText index text)
  | .setOptions index options => .ok (.done, w.setOptions index options)
  | .parse index => do
      let (d, w) ← w.ask index (SourceFile.parseWith validation)
      return (.parse d, w)
  | .lineIndex index => do
      let (d, w) ← w.ask index fun file now => .ok (file.lineIndexWith validation now)
      return (.lineIndex d, w)
  | .check index => do
      let (d, w) ← w.ask index (SourceFile.checkWith validation)
      return (.check d, w)

/-- The answers to requests one after the other, and the workspace behind the last one. -/
def serveAll (validation : Validation) (w : Workspace) :
    List Request → Except Fault (List (Answer Derived) × Workspace)
  | [] => .ok ([], w)
  | r :: rest => do
      let (answer, w) ← w.serve validation r
      let (answers, w) ← serveAll validation w rest
      return (answer :: answers, w)

/-! ## Fresh answers -/

/-- What is set of the files. -/
def inputs (w : Workspace) : List FileInputs :=
  w.files.map SourceFile.inputs

/-- What is set of the files behind a request. -/
def edit (inputs : List FileInputs) : Request → List FileInputs
  | .add path text options => inputs ++ [⟨path, text, options⟩]
  | .setPath index path => inputs.modify index fun s => { s with path }
  | .setText index text => inputs.modify index fun s => { s with text }
  | .setOptions index options => inputs.modify index fun s => { s with options }
  | _ => inputs

/-- A value of one file, computed from what is set. -/
def askFresh {α : Type} (inputs : List FileInputs) (index : Nat)
    (compute : FileInputs → Except Fault α) : Except Fault (Option α) :=
  match inputs[index]? with
  | none => .ok none
  | some s => (compute s).map some

/-- The answer to a request where nothing is kept. -/
def fresh (inputs : List FileInputs) : Request → Except Fault (Answer Id)
  | .parse index =>
      (askFresh inputs index fun s => Verbatim.parse s.text s.options).map .parse
  | .lineIndex index => (askFresh inputs index fun s => .ok ⟨s.text⟩).map .lineIndex
  | .check index =>
      (askFresh inputs index fun s => (Verbatim.parse s.text s.options).map checkParse).map .check
  | _ => .ok .done

/-- The answers to requests one after the other where nothing is kept. -/
def freshAll (inputs : List FileInputs) : List Request → Except Fault (List (Answer Id))
  | [] => .ok []
  | r :: rest => do
      let answer ← fresh inputs r
      let answers ← freshAll (edit inputs r) rest
      return answer :: answers

/-! ## One request -/

/-- Every file is coherent. -/
def Coherent (w : Workspace) : Prop :=
  ∀ file ∈ w.files, file.Coherent w.revision

/-- What a request does: it gives the fresh answer, sets what it says, and files that it does
not revise retain what is current. -/
structure Serves (validation : Validation) (w : Workspace) (r : Request)
    (answer : Answer Derived) (after : Workspace) : Prop where
  serve_eq : w.serve validation r = .ok (answer, after)
  coherent : after.Coherent
  inputs_eq : after.inputs = edit w.inputs r
  fresh_eq : fresh w.inputs r = .ok answer.values
  retains : ∀ j file, r.revises ≠ some j → w.file? j = some file →
    ∃ kept, after.file? j = some kept ∧ file.Retains kept

variable {validation : Validation} {w : Workspace}

theorem Coherent.file (h : w.Coherent) {j : Nat} {file : SourceFile}
    (hfile : w.file? j = some file) : file.Coherent w.revision :=
  h file (List.mem_of_getElem? hfile)

/-- A file is added with nothing derived. -/
theorem Coherent.serves_add (h : w.Coherent) (path : Path) {text : Text}
    (htext : text.width < Offset.limit) (options : ParseOptions) :
    w.Serves validation (.add path text options) .done (w.add path text options) where
  serve_eq := rfl
  coherent := List.forall_mem_append.mpr ⟨h, List.forall_mem_singleton.mpr
    (SourceFile.coherent_new htext path options w.revision)⟩
  inputs_eq := List.map_append
  fresh_eq := rfl
  retains := fun _ file _ hfile =>
    ⟨file, (List.getElem?_append_left (List.getElem?_eq_some_iff.mp hfile).1).trans hfile,
      file.retains_refl⟩

theorem file?_change (w : Workspace) (i j : Nat) (f : SourceFile → Nat → SourceFile) :
    (w.change i f).file? j =
      (w.file? j).map fun file => if i = j then f file (w.revision + 1) else file :=
  List.getElem?_modify ..

theorem inputs_change (w : Workspace) (i : Nat) {f : SourceFile → Nat → SourceFile}
    {g : FileInputs → FileInputs} (h : ∀ file now, (f file now).inputs = g file.inputs) :
    (w.change i f).inputs = w.inputs.modify i g := by
  refine List.ext_getElem? fun j => ?_
  rw [inputs, List.getElem?_map, List.getElem?_modify, inputs, List.getElem?_map]
  change ((w.change i f).file? j).map _ = _
  rw [file?_change]
  change _ = Option.map _ ((w.file? j).map _)
  rw [Option.map_map, Option.map_map]
  congr 1
  funext file
  simp only [Function.comp_apply]
  split
  · exact h file _
  · rfl

/-- A request sets something of a file at a new revision. -/
theorem Coherent.serves_change (h : w.Coherent) {r : Request} {i : Nat}
    {f : SourceFile → Nat → SourceFile}
    (hserve : w.serve validation r = .ok (.done, w.change i f))
    (hf : ∀ file, file.Coherent w.revision → (f file (w.revision + 1)).Coherent (w.revision + 1))
    (hinputs : (w.change i f).inputs = edit w.inputs r)
    (hfresh : fresh w.inputs r = .ok .done)
    (hretains : r.revises = some i ∨
      ∀ (file : SourceFile) (now : Nat), file.Retains (f file now)) :
    w.Serves validation r .done (w.change i f) where
  serve_eq := hserve
  coherent := by
    intro file hfile
    obtain ⟨j, hj⟩ := List.getElem?_of_mem hfile
    have hchange := w.file?_change i j f
    rw [show (w.change i f).file? j = some file from hj] at hchange
    obtain ⟨old, hold, hnew⟩ := Option.map_eq_some_iff.mp hchange.symm
    rw [← hnew]
    split
    · exact hf old (h.file hold)
    · exact (h.file hold).mono (Nat.le_succ _)
  inputs_eq := hinputs
  fresh_eq := hfresh
  retains := by
    intro j file hrevises hfile
    refine ⟨_, by rw [file?_change, hfile]; rfl, ?_⟩
    -- The request revises its own file, or else retains what every file keeps.
    split
    · rename_i heq
      exact hretains.resolve_left (fun hi => hrevises (heq ▸ hi)) file _
    · exact file.retains_refl

theorem Coherent.keep (h : w.Coherent) {i : Nat} {after : SourceFile}
    (hafter : after.Coherent w.revision) : (w.keep i after).Coherent := by
  intro other hother
  rcases List.mem_or_eq_of_mem_set hother with hold | rfl
  · exact h other hold
  · exact hafter

theorem file?_keep {i : Nat} {file after : SourceFile} (h : w.file? i = some file) (j : Nat) :
    (w.keep i after).file? j = if i = j then some after else w.file? j := by
  have hlength : i < w.files.length := (List.getElem?_eq_some_iff.mp h).1
  rw [file?, keep, List.getElem?_set, if_pos hlength]
  rfl

theorem keep_self {i : Nat} {file : SourceFile} (h : w.file? i = some file) :
    w.keep i file = w := by
  have hset : w.files.set i file = w.files := by
    refine List.ext_getElem? fun j => ?_
    change (w.keep i file).file? j = w.file? j
    rw [file?_keep h]
    split
    · rename_i heq
      rw [← heq, h]
    · rfl
  rw [keep, hset]

theorem ask_of_some {α : Type} {i : Nat} {file after : SourceFile} {answer : α}
    {query : SourceFile → Nat → Except Fault (α × SourceFile)} (h : w.file? i = some file)
    (hquery : query file w.revision = .ok (answer, after)) :
    w.ask i query = .ok (some answer, w.keep i after) := by
  rw [ask, h]
  simp only [hquery]
  rfl

/-- What a request for a derived value of one file does. -/
structure Asks {α : Type} (w : Workspace) (i : Nat)
    (query : SourceFile → Nat → Except Fault (Derived α × SourceFile))
    (compute : FileInputs → Except Fault α) (answer : Option (Derived α)) (after : Workspace) :
    Prop where
  ask_eq : w.ask i query = .ok (answer, after)
  fresh_eq : askFresh w.inputs i compute = .ok (answer.map Derived.value)
  coherent : after.Coherent
  inputs_eq : after.inputs = w.inputs
  retains : ∀ j file, w.file? j = some file →
    ∃ kept, after.file? j = some kept ∧ file.Retains kept

theorem Coherent.asks {α : Type} (h : w.Coherent) (i : Nat)
    (query : SourceFile → Nat → Except Fault (Derived α × SourceFile))
    (compute : FileInputs → Except Fault α)
    (hquery : ∀ file, file.Coherent w.revision → ∃ d after,
      query file w.revision = .ok (d, after) ∧ compute file.inputs = .ok d.value ∧
        file.Queried w.revision after) :
    ∃ answer after, w.Asks i query compute answer after := by
  have hinputs : w.inputs[i]? = (w.file? i).map SourceFile.inputs := List.getElem?_map ..
  cases hfile : w.file? i with
  | none =>
      rw [hfile, Option.map_none] at hinputs
      refine ⟨none, w, ?_, ?_, h, rfl, fun j file hj => ⟨file, hj, file.retains_refl⟩⟩
      · rw [ask, hfile]
      · rw [askFresh, hinputs]
        rfl
  | some file =>
      rw [hfile, Option.map_some] at hinputs
      obtain ⟨d, after, heq, hvalue, hqueried⟩ := hquery file (h.file hfile)
      refine ⟨some d, w.keep i after, ask_of_some hfile heq, ?_, ?_, ?_, ?_⟩
      · rw [askFresh, hinputs]
        simp only [hvalue]
        rfl
      · exact h.keep hqueried.coherent
      · refine List.ext_getElem? fun j => ?_
        rw [inputs, List.getElem?_map, inputs, List.getElem?_map]
        change ((w.keep i after).file? j).map _ = (w.file? j).map _
        rw [file?_keep hfile]
        split
        · rename_i heq
          rw [← heq, hfile, Option.map_some, Option.map_some, hqueried.inputs_eq]
        · rfl
      · intro j old hold
        rw [file?_keep hfile]
        split
        · rename_i heq
          rw [← heq, hfile] at hold
          cases hold
          exact ⟨after, rfl, hqueried.retains⟩
        · exact ⟨old, hold, old.retains_refl⟩

/-- Every request is served. -/
theorem Coherent.exists_serves (h : w.Coherent) (hexact : validation.Exact) {r : Request}
    (hr : r.Short) : ∃ answer after, w.Serves validation r answer after := by
  cases r with
  | add path text options => exact ⟨_, _, h.serves_add path hr options⟩
  | setPath index path =>
      exact ⟨_, _, h.serves_change rfl (fun _ hfile => hfile.setPath path)
        (w.inputs_change index fun _ _ => rfl) rfl
        (.inr fun file _ => file.retains_setPath path)⟩
  | setText index text =>
      exact ⟨_, _, h.serves_change rfl (fun _ hfile => hfile.setText hr)
        (w.inputs_change index fun _ _ => rfl) rfl (.inl rfl)⟩
  | setOptions index options =>
      exact ⟨_, _, h.serves_change rfl (fun _ hfile => hfile.setOptions options)
        (w.inputs_change index fun _ _ => rfl) rfl (.inl rfl)⟩
  | parse index =>
      obtain ⟨answer, after, hasks⟩ := h.asks index (SourceFile.parseWith validation)
        (fun s => Verbatim.parse s.text s.options) fun file hfile => by
          obtain ⟨d, next, heq, hvalue, hqueried, _⟩ := hfile.parseWith hexact
          exact ⟨d, next, heq, hvalue, hqueried⟩
      refine ⟨.parse answer, after, ?_, hasks.coherent, hasks.inputs_eq, ?_,
        fun j file _ => hasks.retains j file⟩
      · rw [serve, hasks.ask_eq]
        rfl
      · rw [fresh, hasks.fresh_eq]
        rfl
  | lineIndex index =>
      obtain ⟨answer, after, hasks⟩ := h.asks index
        (fun file now => .ok (file.lineIndexWith validation now)) (fun s => .ok ⟨s.text⟩)
        fun file hfile => by
          obtain ⟨hvalue, hqueried⟩ := hfile.lineIndexWith hexact
          exact ⟨_, _, rfl, congrArg Except.ok hvalue.symm, hqueried⟩
      refine ⟨.lineIndex answer, after, ?_, hasks.coherent, hasks.inputs_eq, ?_,
        fun j file _ => hasks.retains j file⟩
      · rw [serve, hasks.ask_eq]
        rfl
      · rw [fresh, hasks.fresh_eq]
        rfl
  | check index =>
      obtain ⟨answer, after, hasks⟩ := h.asks index (SourceFile.checkWith validation)
        (fun s => (Verbatim.parse s.text s.options).map checkParse) fun file hfile => by
          obtain ⟨d, next, p, heq, hparse, hvalue, hqueried, _⟩ := hfile.checkWith hexact
          have hfresh : (Verbatim.parse file.text file.options).map checkParse = .ok d.value := by
            rw [hparse, hvalue]
            rfl
          exact ⟨d, next, heq, hfresh, hqueried⟩
      refine ⟨.check answer, after, ?_, hasks.coherent, hasks.inputs_eq, ?_,
        fun j file _ => hasks.retains j file⟩
      · rw [serve, hasks.ask_eq]
        rfl
      · rw [fresh, hasks.fresh_eq]
        rfl

/-! ## Many requests -/

/-- What requests one after the other do. -/
structure ServesAll (validation : Validation) (w : Workspace) (requests : List Request)
    (answers : List (Answer Derived)) (after : Workspace) : Prop where
  serveAll_eq : w.serveAll validation requests = .ok (answers, after)
  coherent : after.Coherent
  inputs_eq : after.inputs = requests.foldl edit w.inputs
  freshAll_eq : freshAll w.inputs requests = .ok (answers.map Answer.values)
  retains : ∀ j file, (∀ r ∈ requests, r.revises ≠ some j) → w.file? j = some file →
    ∃ kept, after.file? j = some kept ∧ file.Retains kept

/-- Requests are served one after the other. -/
theorem Coherent.exists_servesAll (h : w.Coherent) (hexact : validation.Exact)
    {requests : List Request} (hshort : ∀ r ∈ requests, r.Short) :
    ∃ answers after, w.ServesAll validation requests answers after := by
  induction requests generalizing w with
  | nil => exact ⟨[], w, rfl, h, rfl, rfl, fun _ file _ hfile => ⟨file, hfile, file.retains_refl⟩⟩
  | cons r rest ih =>
      -- The workspace behind the first request is coherent, and the rest starts there.
      obtain ⟨hr, hrest⟩ := List.forall_mem_cons.mp hshort
      obtain ⟨answer, next, hfirst⟩ := h.exists_serves hexact hr
      obtain ⟨answers, after, hothers⟩ := ih hfirst.coherent hrest
      refine ⟨answer :: answers, after, ?_, hothers.coherent, ?_, ?_, ?_⟩
      · rw [serveAll, hfirst.serve_eq]
        simp only [bind, Except.bind, hothers.serveAll_eq]
        rfl
      · rw [hothers.inputs_eq, hfirst.inputs_eq, List.foldl_cons]
      · rw [freshAll, hfirst.fresh_eq, ← hfirst.inputs_eq]
        simp only [bind, Except.bind, hothers.freshAll_eq]
        rfl
      · intro j file hrevises hfile
        obtain ⟨hr, hrest⟩ := List.forall_mem_cons.mp hrevises
        obtain ⟨middle, hmiddle, hretains⟩ := hfirst.retains j file hr hfile
        obtain ⟨kept, hkept, hretains'⟩ := hothers.retains j middle hrest hmiddle
        exact ⟨kept, hkept, hretains.trans hretains'⟩

/-! ## Other files -/

/-- A request about another file leaves what is set of a file. -/
theorem getElem?_edit {inputs : List FileInputs} {r : Request} {j : Nat} (hj : j < inputs.length)
    (h : r.target ≠ some j) : (edit inputs r)[j]? = inputs[j]? := by
  cases r with
  | add path text options => exact List.getElem?_append_left hj
  | setPath index _ | setText index _ | setOptions index _ =>
      have hne : index ≠ j := fun heq => h (congrArg some heq)
      exact (List.getElem?_modify ..).trans (by simp [hne])
  | parse _ | lineIndex _ | check _ => rfl

theorem length_edit_le (inputs : List FileInputs) (r : Request) :
    inputs.length ≤ (edit inputs r).length := by
  cases r with
  | add path text options => simp [edit]
  | setPath _ _ | setText _ _ | setOptions _ _ => simp [edit]
  | parse _ | lineIndex _ | check _ => exact Nat.le_refl _

theorem getElem?_foldl_edit {inputs : List FileInputs} {requests : List Request} {j : Nat}
    (hj : j < inputs.length) (h : ∀ r ∈ requests, r.target ≠ some j) :
    (requests.foldl edit inputs)[j]? = inputs[j]? := by
  induction requests generalizing inputs with
  | nil => rfl
  | cons r rest ih =>
      obtain ⟨hr, hrest⟩ := List.forall_mem_cons.mp h
      rw [List.foldl_cons, ih (Nat.lt_of_lt_of_le hj (length_edit_le inputs r)) hrest,
        getElem?_edit hj hr]

/-- A fresh value of a file depends on what is set of that file. -/
theorem fresh_congr {inputs others : List FileInputs} {q : Request} {j : Nat}
    (hquery : q.isQuery = true) (htarget : q.target = some j) (h : inputs[j]? = others[j]?) :
    fresh inputs q = fresh others q := by
  cases q with
  | add _ _ _ | setPath _ _ | setText _ _ | setOptions _ _ => cases hquery
  | parse index | lineIndex index | check index =>
      obtain rfl : index = j := Option.some.inj htarget
      simp only [fresh, askFresh, h]

/-- Whatever is asked of other files, a query of a file answers the same value. -/
def Isolates (validation : Validation) (w : Workspace) : Prop :=
  ∀ j q, j < w.files.length → q.isQuery = true → q.target = some j →
    ∀ between : List Request, (∀ r ∈ between, r.Short ∧ r.target ≠ some j) →
      ∃ answer next answers after answer' next',
        w.serve validation q = .ok (answer, next) ∧
          w.serveAll validation between = .ok (answers, after) ∧
          after.serve validation q = .ok (answer', next') ∧ answer'.values = answer.values

theorem Coherent.isolates (h : w.Coherent) (hexact : validation.Exact) :
    w.Isolates validation := by
  intro j q hj hquery htarget between hbetween
  have hshort : q.Short := by
    cases q with
    | add _ _ _ | setPath _ _ | setText _ _ | setOptions _ _ => cases hquery
    | parse _ | lineIndex _ | check _ => trivial
  obtain ⟨answer, next, hfirst⟩ := h.exists_serves hexact hshort
  obtain ⟨answers, after, hothers⟩ := h.exists_servesAll hexact fun r hr => (hbetween r hr).1
  obtain ⟨answer', next', hsecond⟩ := hothers.coherent.exists_serves hexact hshort
  have hsame : after.inputs[j]? = w.inputs[j]? := by
    rw [hothers.inputs_eq]
    exact getElem?_foldl_edit (by simpa [inputs] using hj) fun r hr => (hbetween r hr).2
  have hfresh : fresh after.inputs q = fresh w.inputs q := fresh_congr hquery htarget hsame
  rw [hsecond.fresh_eq, hfirst.fresh_eq] at hfresh
  exact ⟨answer, next, answers, after, answer', next', hfirst.serve_eq, hothers.serveAll_eq,
    hsecond.serve_eq, Except.ok.inj hfresh⟩

/-! ## Files that are not revised -/

/-- Once a file has been parsed or checked, as long as neither its text nor its options are
set, no query of it parses, and the query that was answered has the very same answer. -/
def Memoizes (validation : Validation) (w : Workspace) : Prop :=
  ∀ j q, j < w.files.length → q ∈ [.parse j, .check j] →
    ∀ between : List Request, (∀ r ∈ between, r.Short ∧ r.revises ≠ some j) →
      ∃ answer next answers after file,
        w.serve validation q = .ok (answer, next) ∧
          next.serveAll validation between = .ok (answers, after) ∧
          after.file? j = some file ∧ file.SparesParser validation ∧
          after.serve validation q = .ok (answer, after)

/-- What a query of a file keeps is there as long as the file is not revised. -/
theorem Coherent.exists_retained (h : w.Coherent) (hexact : validation.Exact) {j : Nat}
    {file next : SourceFile} (hfile : w.file? j = some file)
    (hqueried : file.Queried w.revision next) {between : List Request}
    (hbetween : ∀ r ∈ between, r.Short ∧ r.revises ≠ some j) :
    ∃ answers after kept,
      (w.keep j next).serveAll validation between = .ok (answers, after) ∧
      after.file? j = some kept ∧ kept.Coherent after.revision ∧ next.Retains kept := by
  have hcoherent : (w.keep j next).Coherent := h.keep hqueried.coherent
  have hnext : (w.keep j next).file? j = some next := by rw [file?_keep hfile, if_pos rfl]
  obtain ⟨answers, after, hserves⟩ :=
    hcoherent.exists_servesAll hexact fun r hr => (hbetween r hr).1
  obtain ⟨kept, hkept, hretains⟩ :=
    hserves.retains j next (fun r hr => (hbetween r hr).2) hnext
  exact ⟨answers, after, kept, hserves.serveAll_eq, hkept, hserves.coherent.file hkept, hretains⟩

theorem Coherent.memoizes (h : w.Coherent) (hexact : validation.Exact) :
    w.Memoizes validation := by
  intro j q hj hq between hbetween
  have hfile : w.file? j = some w.files[j] := List.getElem?_eq_getElem hj
  have hcases : q = .parse j ∨ q = .check j := by simpa using hq
  rcases hcases with rfl | rfl
  · obtain ⟨d, next, heq, _, hqueried, hd, hcurrent⟩ := (h.file hfile).parseWith hexact
    obtain ⟨answers, after, kept, hserves, hkept, _, hretains⟩ :=
      h.exists_retained hexact hfile hqueried hbetween
    have hparsed := hretains.parsed d hd hcurrent
    have hstill : kept.isCurrent d = true := (hretains.isCurrent_eq d).trans hcurrent
    have hagain : kept.parseWith validation after.revision = .ok (d, kept) :=
      SourceFile.parseBy_of_current hexact Verbatim.parse hparsed hstill
    refine ⟨.parse (some d), w.keep j next, answers, after, kept, ?_, hserves, hkept,
      SourceFile.sparesParser_of_current hexact hparsed hstill, ?_⟩
    · rw [serve, ask_of_some hfile heq]
      rfl
    · rw [serve, ask_of_some hkept hagain, keep_self hkept]
      rfl
  · obtain ⟨d, next, _, heq, _, _, hqueried, hd, hcurrent⟩ := (h.file hfile).checkWith hexact
    obtain ⟨answers, after, kept, hserves, hkept, hcoherent, hretains⟩ :=
      h.exists_retained hexact hfile hqueried hbetween
    have hchecked := hretains.checked d hd hcurrent
    have hstill : kept.isCurrent d = true := (hretains.isCurrent_eq d).trans hcurrent
    have hagain : kept.checkWith validation after.revision = .ok (d, kept) :=
      SourceFile.checkBy_of_current hexact Verbatim.parse hchecked hstill
    obtain ⟨p, hp, hpcurrent⟩ := hcoherent.parsed_of_checked d hchecked hstill
    refine ⟨.check (some d), w.keep j next, answers, after, kept, ?_, hserves, hkept,
      SourceFile.sparesParser_of_current hexact hp hpcurrent, ?_⟩
    · rw [serve, ask_of_some hfile heq]
      rfl
    · rw [serve, ask_of_some hkept hagain, keep_self hkept]
      rfl

theorem coherent_empty : empty.Coherent :=
  List.forall_mem_nil _

/-- Whatever is set and asked, in whatever order, every query answers what a fresh
computation on the text and the options that are set answers.  At every point of a session,
what is done to other files does not change the answers for a file, and a file that has been
parsed is not parsed again before its text or its options are set.  The problems of a file
are those of the parse and then those of the review, stably sorted by where they start.  All
that is assumed of the framework is that a kept value is derived again exactly if a field that
it was derived from has been set since. -/
theorem serveAll_agrees_with_fresh (validation : Validation) (hexact : validation.Exact)
    (requests : List Request) (h : ∀ r ∈ requests, r.Short) :
    ∃ answers w,
      empty.serveAll validation requests = .ok (answers, w) ∧
        freshAll [] requests = .ok (answers.map Answer.values) ∧
        w.Isolates validation ∧ w.Memoizes validation ∧
        ∀ p : Parse, Diagnostic.StablySorts (p.diagnostics ++ p.root.review) (checkParse p) := by
  obtain ⟨answers, w, hserves⟩ := coherent_empty.exists_servesAll hexact h
  exact ⟨answers, w, hserves.serveAll_eq, hserves.freshAll_eq,
    hserves.coherent.isolates hexact, hserves.coherent.memoizes hexact,
    fun p => Diagnostic.stablySorts_sort _⟩

/-- Two files that are set and asked in turns. -/
def mixedSession : List Request :=
  [.add ⟨"a.ts".toList⟩ "const a;".toList ⟨true⟩, .add ⟨"b.ts".toList⟩ "a\nb".toList ⟨true⟩,
    .check 0, .parse 1, .setPath 0 ⟨"c.ts".toList⟩, .setOptions 1 ⟨false⟩, .parse 0,
    .setText 0 "let a = ;".toList, .check 0, .check 1, .lineIndex 1, .parse 2]

theorem serveAll_mixedSession :
    Validation.byRevision.Exact ∧ (∀ r ∈ mixedSession, r.Short) ∧
      ∃ answers w,
        empty.serveAll .byRevision mixedSession = .ok (answers, w) ∧
          freshAll [] mixedSession = .ok (answers.map Answer.values) ∧
          w.Isolates .byRevision ∧ w.Memoizes .byRevision ∧
          ∀ p : Parse, Diagnostic.StablySorts (p.diagnostics ++ p.root.review) (checkParse p) := by
  have hshort : ∀ r ∈ mixedSession, r.Short := by decide
  exact ⟨Validation.exact_byRevision, hshort,
    serveAll_agrees_with_fresh .byRevision Validation.exact_byRevision mixedSession hshort⟩

end Workspace

end Verbatim
