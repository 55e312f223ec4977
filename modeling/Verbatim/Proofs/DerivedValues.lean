/-
  Values that are derived from one source file.

  A derived value is current as long as nothing that it was derived from has been set since.
  The invariant is that every current value is what a fresh computation on the file as it is
  now gives, and that no value is newer than now; a value that is no longer current says
  nothing.  Setting the text or the options makes what was derived from them stale, and a
  query derives a value from what is set now.  A query that finds a current parse gives the
  same answer whatever the parser would do.

  An exact validation takes over what is current and nothing else; this is all that the
  queries need to know of it.
-/
import Verbatim.Workspace
import Verbatim.Proofs.SourceReading

set_option autoImplicit false

namespace Verbatim

/-! ## Kept values -/

namespace Derived

/-- What is kept was derived no later than now, and is good as long as it is current. -/
def Sound {α : Type} (kept : Option (Derived α)) (current : Derived α → Bool) (now : Nat)
    (good : α → Prop) : Prop :=
  ∀ d ∈ kept, d.revision ≤ now ∧ (current d = true → good d.value)

variable {α : Type} {kept : Option (Derived α)} {current later : Derived α → Bool}
  {now next : Nat} {good other : α → Prop}

theorem sound_none : Sound none current now good :=
  nofun

theorem sound_some {d : Derived α} (hle : d.revision ≤ now) (hgood : good d.value) :
    Sound (some d) current now good := by
  intro e he
  obtain rfl := Option.mem_some_iff.mp he
  exact ⟨hle, fun _ => hgood⟩

theorem Sound.mono (h : Sound kept current now good) (hle : now ≤ next) :
    Sound kept current next good :=
  fun d hd => ⟨Nat.le_trans (h d hd).1 hle, (h d hd).2⟩

/-- Where nothing that is kept is current, it may be of any value. -/
theorem Sound.stale (h : Sound kept current now good) (hle : now ≤ next)
    (hstale : ∀ d, d.revision ≤ now → later d = false) : Sound kept later next other := by
  refine fun d hd => ⟨Nat.le_trans (h d hd).1 hle, fun hlater => ?_⟩
  rw [hstale d (h d hd).1] at hlater
  cases hlater

end Derived

namespace Validation

theorem exact_byRevision : byRevision.Exact := by
  simp [Exact, byRevision]

end Validation

/-! ## Coherent files -/

/-- What is set of a source file. -/
structure FileInputs where
  path : Path
  text : Text
  options : ParseOptions
  deriving DecidableEq, Repr

namespace SourceFile

/-- What is set of the file. -/
def inputs (file : SourceFile) : FileInputs :=
  ⟨file.path, file.text, file.options⟩

/-- Neither the text nor the options have been set since the value was derived. -/
def isCurrent {α : Type} (file : SourceFile) (d : Derived α) : Bool :=
  file.textRevision ≤ d.revision && file.optionsRevision ≤ d.revision

/-- All that is derived from a file and current is what a fresh computation gives, and where
there is a list of problems there is a parse. -/
structure Coherent (file : SourceFile) (now : Nat) : Prop where
  short : file.text.width < Offset.limit
  text_le : file.textRevision ≤ now
  options_le : file.optionsRevision ≤ now
  parsed : Derived.Sound file.parsed file.isCurrent now fun p =>
    Verbatim.parse file.text file.options = .ok p
  lines : Derived.Sound file.lines (fun d => decide (file.textRevision ≤ d.revision)) now
    fun index => index = ⟨file.text⟩
  checked : Derived.Sound file.checked file.isCurrent now fun ds =>
    ∃ p, Verbatim.parse file.text file.options = .ok p ∧ ds = checkParse p
  parsed_of_checked : ∀ d ∈ file.checked, file.isCurrent d = true →
    ∃ p ∈ file.parsed, file.isCurrent p = true

/-- Of two versions of a file, the second has the text and the options of the first, set at
the same revisions, and keeps what is current. -/
structure Retains (before after : SourceFile) : Prop where
  textRevision_eq : after.textRevision = before.textRevision
  optionsRevision_eq : after.optionsRevision = before.optionsRevision
  parsed : ∀ d ∈ before.parsed, before.isCurrent d = true → after.parsed = some d
  checked : ∀ d ∈ before.checked, before.isCurrent d = true → after.checked = some d

theorem isCurrent_iff {α : Type} {file : SourceFile} {d : Derived α} :
    file.isCurrent d = true ↔
      file.textRevision ≤ d.revision ∧ file.optionsRevision ≤ d.revision := by
  simp [isCurrent]

/-- An exact validation takes over what is current. -/
theorem takes_eq_isCurrent {α : Type} {validation : Validation} (h : validation.Exact)
    (file : SourceFile) : (file.takes validation : Derived α → Bool) = file.isCurrent := by
  funext d
  rw [Bool.eq_iff_iff, takes, h, isCurrent_iff, List.forall_mem_cons,
    List.forall_mem_singleton]

theorem takesLines_eq_decide {α : Type} {validation : Validation} (h : validation.Exact)
    (file : SourceFile) :
    (file.takesLines validation : Derived α → Bool) =
      fun d => decide (file.textRevision ≤ d.revision) := by
  funext d
  rw [Bool.eq_iff_iff, takesLines, h, List.forall_mem_singleton, decide_eq_true_iff]

/-- A value that was derived before the text was set is not current. -/
theorem isCurrent_of_lt_text {α : Type} {file : SourceFile} {d : Derived α}
    (h : d.revision < file.textRevision) : file.isCurrent d = false :=
  Bool.eq_false_iff.mpr fun hcurrent => Nat.not_le.mpr h (isCurrent_iff.mp hcurrent).1

/-- A value that was derived before the options were set is not current. -/
theorem isCurrent_of_lt_options {α : Type} {file : SourceFile} {d : Derived α}
    (h : d.revision < file.optionsRevision) : file.isCurrent d = false :=
  Bool.eq_false_iff.mpr fun hcurrent => Nat.not_le.mpr h (isCurrent_iff.mp hcurrent).2

theorem Retains.isCurrent_eq {α : Type} {before after : SourceFile} (h : before.Retains after)
    (d : Derived α) : after.isCurrent d = before.isCurrent d := by
  rw [isCurrent, isCurrent, h.textRevision_eq, h.optionsRevision_eq]

theorem retains_refl (file : SourceFile) : file.Retains file where
  textRevision_eq := rfl
  optionsRevision_eq := rfl
  parsed := fun _ hd _ => hd
  checked := fun _ hd _ => hd

theorem Retains.trans {first second third : SourceFile} (h : first.Retains second)
    (h' : second.Retains third) : first.Retains third where
  textRevision_eq := h'.textRevision_eq.trans h.textRevision_eq
  optionsRevision_eq := h'.optionsRevision_eq.trans h.optionsRevision_eq
  parsed := fun d hd hcurrent =>
    h'.parsed d (h.parsed d hd hcurrent) ((h.isCurrent_eq d).trans hcurrent)
  checked := fun d hd hcurrent =>
    h'.checked d (h.checked d hd hcurrent) ((h.isCurrent_eq d).trans hcurrent)

/-! ## Setting -/

section Set

variable {file : SourceFile} {now : Nat}

theorem coherent_new {text : Text} (h : text.width < Offset.limit) (path : Path)
    (options : ParseOptions) (now : Nat) : (new path text options now).Coherent now where
  short := h
  text_le := Nat.le_refl now
  options_le := Nat.le_refl now
  parsed := Derived.sound_none
  lines := Derived.sound_none
  checked := Derived.sound_none
  parsed_of_checked := nofun

theorem Coherent.mono {next : Nat} (h : file.Coherent now) (hle : now ≤ next) :
    file.Coherent next where
  short := h.short
  text_le := Nat.le_trans h.text_le hle
  options_le := Nat.le_trans h.options_le hle
  parsed := h.parsed.mono hle
  lines := h.lines.mono hle
  checked := h.checked.mono hle
  parsed_of_checked := h.parsed_of_checked

/-- The path is not read by anything that is derived. -/
theorem Coherent.setPath (h : file.Coherent now) (path : Path) :
    Coherent { file with path } (now + 1) :=
  have hlater := h.mono (Nat.le_succ now)
  ⟨hlater.short, hlater.text_le, hlater.options_le, hlater.parsed, hlater.lines, hlater.checked,
    hlater.parsed_of_checked⟩

theorem retains_setPath (file : SourceFile) (path : Path) : file.Retains { file with path } :=
  ⟨rfl, rfl, fun _ hd _ => hd, fun _ hd _ => hd⟩

/-- Nothing that was derived by now is current once the text is set. -/
theorem Coherent.setText (h : file.Coherent now) {text : Text}
    (htext : text.width < Offset.limit) :
    Coherent { file with text, textRevision := now + 1 } (now + 1) where
  short := htext
  text_le := Nat.le_refl _
  options_le := Nat.le_succ_of_le h.options_le
  parsed := h.parsed.stale (Nat.le_succ now) fun _ hd =>
    isCurrent_of_lt_text (Nat.lt_succ_of_le hd)
  lines := h.lines.stale (Nat.le_succ now) fun _ hd =>
    decide_eq_false (Nat.not_le.mpr (Nat.lt_succ_of_le hd))
  checked := h.checked.stale (Nat.le_succ now) fun _ hd =>
    isCurrent_of_lt_text (Nat.lt_succ_of_le hd)
  parsed_of_checked := fun d hd hcurrent => by
    rw [isCurrent_of_lt_text (Nat.lt_succ_of_le (h.checked d hd).1)] at hcurrent
    cases hcurrent

/-- Nothing but the lines is current once the options are set. -/
theorem Coherent.setOptions (h : file.Coherent now) (options : ParseOptions) :
    Coherent { file with options, optionsRevision := now + 1 } (now + 1) where
  short := h.short
  text_le := Nat.le_succ_of_le h.text_le
  options_le := Nat.le_refl _
  parsed := h.parsed.stale (Nat.le_succ now) fun _ hd =>
    isCurrent_of_lt_options (Nat.lt_succ_of_le hd)
  lines := h.lines.mono (Nat.le_succ now)
  checked := h.checked.stale (Nat.le_succ now) fun _ hd =>
    isCurrent_of_lt_options (Nat.lt_succ_of_le hd)
  parsed_of_checked := fun d hd hcurrent => by
    rw [isCurrent_of_lt_options (Nat.lt_succ_of_le (h.checked d hd).1)] at hcurrent
    cases hcurrent

end Set

/-! ## Asking -/

/-- The parse of a file with some other computation in the place of the parser. -/
def parseBy (validation : Validation) (compute : Text → ParseOptions → Except Fault Parse)
    (file : SourceFile) (now : Nat) : Except Fault (Derived Parse × SourceFile) := do
  match file.parsed.filter (file.takes validation) with
  | some d => return (d, file)
  | none =>
      let d : Derived Parse := ⟨← compute file.text file.options, now⟩
      return (d, { file with parsed := some d })

/-- All problems of a file with some other computation in the place of the parser. -/
def checkBy (validation : Validation) (compute : Text → ParseOptions → Except Fault Parse)
    (file : SourceFile) (now : Nat) : Except Fault (Derived (List Diagnostic) × SourceFile) := do
  match file.checked.filter (file.takes validation) with
  | some d => return (d, file)
  | none =>
      let (p, file) ← file.parseBy validation compute now
      let d : Derived (List Diagnostic) := ⟨checkParse p.value, now⟩
      return (d, { file with checked := some d })

theorem parseWith_eq_parseBy (validation : Validation) (file : SourceFile) (now : Nat) :
    file.parseWith validation now = file.parseBy validation Verbatim.parse now := rfl

theorem checkWith_eq_checkBy (validation : Validation) (file : SourceFile) (now : Nat) :
    file.checkWith validation now = file.checkBy validation Verbatim.parse now := rfl

variable {validation : Validation} {file : SourceFile} {now : Nat}

theorem parseBy_of_current (hexact : validation.Exact)
    (compute : Text → ParseOptions → Except Fault Parse) {d : Derived Parse}
    (h : file.parsed = some d) (hcurrent : file.isCurrent d = true) :
    file.parseBy validation compute now = .ok (d, file) := by
  have hfilter : file.parsed.filter file.isCurrent = some d := by
    rw [h, Option.filter_some, if_pos hcurrent]
  rw [parseBy, takes_eq_isCurrent hexact, hfilter]
  rfl

theorem checkBy_of_current (hexact : validation.Exact)
    (compute : Text → ParseOptions → Except Fault Parse) {d : Derived (List Diagnostic)}
    (h : file.checked = some d) (hcurrent : file.isCurrent d = true) :
    file.checkBy validation compute now = .ok (d, file) := by
  have hfilter : file.checked.filter file.isCurrent = some d := by
    rw [h, Option.filter_some, if_pos hcurrent]
  rw [checkBy, takes_eq_isCurrent hexact, hfilter]
  rfl

/-- Where there is a current parse, a check does not parse. -/
theorem checkBy_of_parsed (hexact : validation.Exact)
    (compute : Text → ParseOptions → Except Fault Parse) {d : Derived Parse}
    (h : file.parsed = some d) (hcurrent : file.isCurrent d = true) :
    file.checkBy validation compute now = file.checkWith validation now := by
  rw [checkWith_eq_checkBy, checkBy, checkBy, parseBy_of_current hexact compute h hcurrent,
    parseBy_of_current hexact Verbatim.parse h hcurrent]

/-- No query of the file parses: any other computation could take the place of the parser. -/
def SparesParser (validation : Validation) (file : SourceFile) : Prop :=
  ∀ compute now, file.parseBy validation compute now = file.parseWith validation now ∧
    file.checkBy validation compute now = file.checkWith validation now

theorem sparesParser_of_current (hexact : validation.Exact) {d : Derived Parse}
    (h : file.parsed = some d) (hcurrent : file.isCurrent d = true) :
    file.SparesParser validation := by
  intro compute now
  rw [parseWith_eq_parseBy, parseBy_of_current hexact compute h hcurrent,
    parseBy_of_current hexact Verbatim.parse h hcurrent]
  exact ⟨rfl, checkBy_of_parsed hexact compute h hcurrent⟩

/-- What a query does to a file: it sets nothing, and keeps what is current. -/
structure Queried (file : SourceFile) (now : Nat) (after : SourceFile) : Prop where
  coherent : after.Coherent now
  retains : file.Retains after
  inputs_eq : after.inputs = file.inputs

theorem Coherent.queried_refl (h : file.Coherent now) : Queried file now file :=
  ⟨h, file.retains_refl, rfl⟩

/-- A parse is a fresh one, and is kept. -/
theorem Coherent.parseWith (h : file.Coherent now) (hexact : validation.Exact) :
    ∃ d after, file.parseWith validation now = .ok (d, after) ∧
      Verbatim.parse file.text file.options = .ok d.value ∧
      Queried file now after ∧ after.parsed = some d ∧ after.isCurrent d = true := by
  cases hfilter : file.parsed.filter file.isCurrent with
  | some d =>
      -- What is kept is current, so the invariant says that it is fresh.
      obtain ⟨hd, hcurrent⟩ := Option.filter_eq_some_iff.mp hfilter
      exact ⟨d, file, parseBy_of_current hexact Verbatim.parse hd hcurrent,
        (h.parsed d hd).2 hcurrent, h.queried_refl, hd, hcurrent⟩
  | none =>
      obtain ⟨run⟩ := exists_parseRun file.text file.options h.short
      have hnow : file.isCurrent (Derived.mk run.result now) = true :=
        isCurrent_iff.mpr ⟨h.text_le, h.options_le⟩
      have hparse : file.parseWith validation now = .ok (⟨run.result, now⟩,
          { file with parsed := some ⟨run.result, now⟩ }) := by
        rw [parseWith_eq_parseBy, parseBy, takes_eq_isCurrent hexact, hfilter, run.parse_eq]
        rfl
      refine ⟨_, _, hparse, run.parse_eq, ⟨?_, ?_, rfl⟩, rfl, hnow⟩
      · exact ⟨h.short, h.text_le, h.options_le, Derived.sound_some (Nat.le_refl now) run.parse_eq,
          h.lines, h.checked, fun _ _ _ => ⟨_, rfl, hnow⟩⟩
      · refine ⟨rfl, rfl, fun d hd hcurrent => ?_, fun _ hd _ => hd⟩
        -- The parse that is replaced, if there is one, is not current.
        rw [Option.filter_eq_none_iff] at hfilter
        exact absurd hcurrent (hfilter d hd)

/-- The lines are those of the text. -/
theorem Coherent.lineIndexWith (h : file.Coherent now) (hexact : validation.Exact) :
    (file.lineIndexWith validation now).1.value = ⟨file.text⟩ ∧
      Queried file now (file.lineIndexWith validation now).2 := by
  rw [SourceFile.lineIndexWith, takesLines_eq_decide hexact]
  split
  · rename_i d hfilter
    obtain ⟨hd, hcurrent⟩ := Option.filter_eq_some_iff.mp hfilter
    exact ⟨(h.lines d hd).2 hcurrent, h.queried_refl⟩
  · refine ⟨rfl, ⟨?_, ?_, rfl⟩⟩
    · exact ⟨h.short, h.text_le, h.options_le, h.parsed, Derived.sound_some (Nat.le_refl now) rfl,
        h.checked, h.parsed_of_checked⟩
    · exact ⟨rfl, rfl, fun _ hd _ => hd, fun _ hd _ => hd⟩

/-- The problems are those of a fresh parse, and are kept together with a parse. -/
theorem Coherent.checkWith (h : file.Coherent now) (hexact : validation.Exact) :
    ∃ d after p, file.checkWith validation now = .ok (d, after) ∧
      Verbatim.parse file.text file.options = .ok p ∧ d.value = checkParse p ∧
      Queried file now after ∧ after.checked = some d ∧ after.isCurrent d = true := by
  cases hfilter : file.checked.filter file.isCurrent with
  | some d =>
      obtain ⟨hd, hcurrent⟩ := Option.filter_eq_some_iff.mp hfilter
      obtain ⟨p, hp, hvalue⟩ := (h.checked d hd).2 hcurrent
      exact ⟨d, file, p, checkBy_of_current hexact Verbatim.parse hd hcurrent, hp, hvalue,
        h.queried_refl, hd, hcurrent⟩
  | none =>
      -- The check parses first, and the parse is kept with it.
      obtain ⟨p, after, hparse, hfresh, hqueried, hkept, hcurrent⟩ := h.parseWith hexact
      have hafter := hqueried.coherent
      have hnow : after.isCurrent (Derived.mk (checkParse p.value) now) = true :=
        isCurrent_iff.mpr ⟨hafter.text_le, hafter.options_le⟩
      have hcheck : file.checkWith validation now = .ok (⟨checkParse p.value, now⟩,
          { after with checked := some ⟨checkParse p.value, now⟩ }) := by
        rw [checkWith_eq_checkBy, checkBy, takes_eq_isCurrent hexact, hfilter,
          ← parseWith_eq_parseBy, hparse]
        rfl
      refine ⟨_, _, p.value, hcheck, hfresh, rfl, ⟨?_, ?_, hqueried.inputs_eq⟩, rfl, hnow⟩
      · have hvalue := (hafter.parsed p hkept).2 hcurrent
        exact ⟨hafter.short, hafter.text_le, hafter.options_le, hafter.parsed, hafter.lines,
          Derived.sound_some (Nat.le_refl now) ⟨p.value, hvalue, rfl⟩,
          fun _ _ _ => ⟨p, hkept, hcurrent⟩⟩
      · refine ⟨hqueried.retains.textRevision_eq, hqueried.retains.optionsRevision_eq,
          hqueried.retains.parsed, fun d hd hcurrent => ?_⟩
        rw [Option.filter_eq_none_iff] at hfilter
        exact absurd hcurrent (hfilter d hd)

end SourceFile

end Verbatim
