/-
  Emission stops at the first call that fails.

  A writer that records its calls, and what came of each of them, shows what a program does
  with a writer.  Both ways to write a tree out come to a list of calls that depends on the
  tree and on the options alone, made one after the other up to the first that fails.  For the
  source this is how it is written; the outline is written on a walk that goes on behind a
  failure, but the steps behind it make no call.
-/
import Verbatim.Proofs.OutlineWalk
import Verbatim.Proofs.TokenOrder

set_option autoImplicit false

namespace Verbatim

variable {σ ε δ : Type}

/-! ## Calls of a writer -/

/-- A call of a writer. -/
inductive WriterCall where
  | write (text : Text)
  | writeLine (text : Text)
  | close
  deriving DecidableEq, Repr

namespace WriterCall

/-- The text that is passed to the writer. -/
def text : WriterCall → Text
  | .write t => t
  | .writeLine t => t
  | .close => []

/-- What the call adds where lines end in the given way. -/
def output (newLine : Text) : WriterCall → Text
  | .write t => t
  | .writeLine t => t ++ newLine
  | .close => []

end WriterCall

/-- Calls of a writer, and what came of each of them. -/
abbrev CallLog (ε : Type) := List (WriterCall × Except ε Unit)

/-- Of the calls of a program, all are made as long as none fails, and the first that fails is
the last one that is made and the outcome of the program. -/
structure StopsAtFailure (calls : List WriterCall) (log : CallLog ε) (outcome : Except ε Unit) :
    Prop where
  made : log.map Prod.fst <+: calls
  failure : ∀ front c cause back, log = front ++ (c, .error cause) :: back →
    back = [] ∧ outcome = .error cause
  success : (∀ entry ∈ log, entry.2 = .ok ()) → log.map Prod.fst = calls ∧ outcome = .ok ()

namespace StopsAtFailure

theorem nil : StopsAtFailure [] ([] : CallLog ε) (.ok ()) where
  made := List.prefix_refl []
  failure := by
    intro front c cause back hlog
    cases front <;> cases hlog
  success := fun _ => ⟨rfl, rfl⟩

/-- A call that fails is the only one. -/
theorem failed (c : WriterCall) (cause : ε) (rest : List WriterCall) :
    StopsAtFailure (c :: rest) [(c, .error cause)] (.error cause) where
  made := ⟨rest, rfl⟩
  failure := by
    intro front c' cause' back hlog
    cases front with
    | nil =>
        cases hlog
        exact ⟨rfl, rfl⟩
    | cons entry front => cases front <;> cases (List.cons.inj hlog).2
  success := fun hall => nomatch hall (c, .error cause) List.mem_cons_self

/-- A call that does not fail goes in front of the others. -/
theorem cons {calls : List WriterCall} {log : CallLog ε} {outcome : Except ε Unit}
    (h : StopsAtFailure calls log outcome) (c : WriterCall) :
    StopsAtFailure (c :: calls) ((c, .ok ()) :: log) outcome where
  made := List.cons_prefix_cons.mpr ⟨rfl, h.made⟩
  failure := by
    intro front c' cause back hlog
    cases front with
    | nil => cases (List.cons.inj hlog).1
    | cons entry front => exact h.failure front c' cause back (List.cons.inj hlog).2
  success := by
    intro hall
    obtain ⟨hcalls, houtcome⟩ := h.success (List.forall_mem_cons.mp hall).2
    exact ⟨by rw [List.map_cons, hcalls], houtcome⟩

end StopsAtFailure

namespace TextWriter

/-- Makes one call. -/
def call (w : TextWriter σ ε) : WriterCall → Writing σ ε Unit
  | .write t => w.write t
  | .writeLine t => w.writeLine t
  | .close => w.close

/-- Makes calls one after the other, up to the first that fails. -/
def callAll (w : TextWriter σ ε) : List WriterCall → Writing σ ε Unit
  | [] => pure ()
  | c :: rest => do
      w.call c
      w.callAll rest

/-- No call of the writer fails, whatever calls came before. -/
def NeverFails (w : TextWriter σ ε) : Prop :=
  ∀ c state, ∃ after, (w.call c).run.run state = (.ok (), after)

/-- An action, with a record of it as a call. -/
def logged (c : WriterCall) (action : Writing σ ε Unit) : Writing (σ × CallLog ε) ε Unit :=
  ExceptT.mk fun s =>
    let (result, after) := action.run.run s.1
    (result, (after, s.2 ++ [(c, result)]))

/-- The writer, with a record of its calls. -/
def recording (w : TextWriter σ ε) : TextWriter (σ × CallLog ε) ε where
  write t := logged (.write t) (w.write t)
  writeLine t := logged (.writeLine t) (w.writeLine t)
  close := logged .close w.close

variable {w : TextWriter σ ε}

theorem callAll_append (first second : List WriterCall) :
    w.callAll (first ++ second) = w.callAll first >>= fun _ => w.callAll second := by
  induction first with
  | nil => rfl
  | cons c rest ih => simp only [List.cons_append, callAll, ih, bind_assoc]

theorem callAll_singleton (c : WriterCall) : w.callAll [c] = w.call c :=
  bind_pure_unit

/-- A recorded call does what the call does. -/
theorem run_recording_call {c : WriterCall} {state after : σ} {result : Except ε Unit}
    (h : (w.call c).run.run state = (result, after)) (log : CallLog ε) :
    (w.recording.call c).run.run (state, log) = (result, (after, log ++ [(c, result)])) := by
  have hlogged : (w.recording.call c).run.run (state, log) =
      (((w.call c).run.run state).1,
        (((w.call c).run.run state).2, log ++ [(c, ((w.call c).run.run state).1)])) := by
    cases c <;> rfl
  rw [hlogged, h]

/-- Calls that are made up to the first failure, with and without a record. -/
theorem exists_run_callAll (calls : List WriterCall) (state : σ) (log : CallLog ε) :
    ∃ outcome last more, (w.callAll calls).run.run state = (outcome, last) ∧
      (w.recording.callAll calls).run.run (state, log) = (outcome, (last, log ++ more)) ∧
      StopsAtFailure calls more outcome := by
  induction calls generalizing state log with
  | nil => exact ⟨.ok (), state, [], rfl, by rw [List.append_nil]; rfl, .nil⟩
  | cons c rest ih =>
      cases hcall : (w.call c).run.run state with
      | mk result after =>
          have hlogged := run_recording_call hcall log
          cases result with
          | error cause =>
              refine ⟨.error cause, after, [(c, .error cause)], ?_, ?_, .failed c cause rest⟩
              · exact Writing.run_bind_of_error hcall
              · exact Writing.run_bind_of_error hlogged
          | ok value =>
              obtain ⟨outcome, last, more, hplain, hrecorded, hstops⟩ :=
                ih after (log ++ [(c, .ok value)])
              refine ⟨outcome, last, (c, .ok ()) :: more, ?_, ?_, hstops.cons c⟩
              · exact (Writing.run_bind_of_ok hcall).trans hplain
              · rw [List.append_assoc] at hrecorded
                exact (Writing.run_bind_of_ok hlogged).trans hrecorded

/-- All calls are made with a writer that never fails. -/
theorem NeverFails.exists_run_recording (h : w.NeverFails) (calls : List WriterCall) (state : σ)
    (log : CallLog ε) :
    ∃ last, (w.recording.callAll calls).run.run (state, log) =
      (.ok (), (last, log ++ calls.map fun c => (c, .ok ()))) := by
  induction calls generalizing state log with
  | nil => exact ⟨state, by rw [List.map_nil, List.append_nil]; rfl⟩
  | cons c rest ih =>
      obtain ⟨after, hcall⟩ := h c state
      obtain ⟨last, hrest⟩ := ih after (log ++ [(c, .ok ())])
      rw [List.append_assoc] at hrest
      exact ⟨last, (Writing.run_bind_of_ok (run_recording_call hcall log)).trans hrest⟩

end TextWriter

/-! ## Programs that make planned calls -/

/-- A program makes planned calls and then closes the writer, whatever the writer is: all of
this with one that never fails, and otherwise up to the first failure, which it reports. -/
structure Emits (report : ε → δ) (plan : List WriterCall)
    (program : ∀ σ : Type, TextWriter σ ε → Writing σ δ Unit) : Prop where
  close_not_mem : WriterCall.close ∉ plan
  undisturbed (σ : Type) (w : TextWriter σ ε) (state : σ) : w.NeverFails →
    ∃ last, (program _ w.recording).run.run (state, []) =
      (.ok (), (last, (plan ++ [WriterCall.close]).map fun c => (c, .ok ())))
  stops (σ : Type) (w : TextWriter σ ε) (state : σ) :
    ∃ outcome last log, (program _ w).run.run state = (outcome.mapError report, last) ∧
      (program _ w.recording).run.run (state, []) = (outcome.mapError report, (last, log)) ∧
      StopsAtFailure (plan ++ [.close]) log outcome

/-- A program that comes to planned calls and the closing one stops at the first failure. -/
theorem emits_of_eq {report : ε → δ} {plan : List WriterCall}
    {program : ∀ σ : Type, TextWriter σ ε → Writing σ δ Unit} (hplan : WriterCall.close ∉ plan)
    (h : ∀ σ w, program σ w = (w.callAll (plan ++ [.close])).adapt report) :
    Emits report plan program where
  close_not_mem := hplan
  undisturbed := by
    intro σ w state hnever
    obtain ⟨last, hrun⟩ := hnever.exists_run_recording (plan ++ [.close]) state []
    rw [List.nil_append] at hrun
    rw [h]
    exact ⟨last, Writing.run_adapt hrun report⟩
  stops := by
    intro σ w state
    obtain ⟨outcome, last, log, hplain, hrecorded, hstops⟩ :=
      w.exists_run_callAll (plan ++ [.close]) state []
    rw [List.nil_append] at hrecorded
    rw [h, h]
    exact ⟨outcome, last, log, Writing.run_adapt hplain report,
      Writing.run_adapt hrecorded report, hstops⟩

/-! ## The source -/

/-- The calls that write a token in its three parts. -/
def Token.calls (t : Token) : List WriterCall :=
  [.write t.leading.text, .write t.text, .write t.trailing.text]

theorem Token.exists_of_mem_calls {t : Token} : ∀ c ∈ t.calls, ∃ part, c = .write part := by
  simp [calls]

theorem Token.flatMap_text_calls (t : Token) : t.calls.flatMap WriterCall.text = t.fullText := by
  simp [calls, WriterCall.text, fullText]

namespace TextWriter

variable (w : TextWriter σ ε)

theorem writeTokens_eq (ts : List Token) :
    w.writeTokens ts = w.callAll (ts.flatMap Token.calls) := by
  induction ts with
  | nil => rfl
  | cons t rest ih =>
      rw [writeTokens, ih]
      rfl

/-- Writing the source comes to the calls for its tokens. -/
theorem emitText_eq (root : Element) :
    w.emitText root = w.callAll (root.tokens.flatMap Token.calls ++ [.close]) := by
  rw [emitText, writeTokens_eq, callAll_append, callAll_singleton]
  rfl

end TextWriter

/-! ## The outline -/

namespace Placement

variable (options : FormatOptions) (p : Placement)

/-- The line of the element, where its indentation and its end are offsets. -/
def line : Text :=
  options.indentation (p.depth * options.indentSpaces) ++ p.item.kind.label ++ "@".toList ++
    Text.range p.start (p.start + p.item.width) ++
    match p.item.outlineText with
    | some t => " ".toList ++ Text.quoted t
    | none => []

/-- The line of the element can be written. -/
structure Fits : Prop where
  columns : p.depth * options.indentSpaces < Offset.limit
  stop : p.start + p.item.width < Offset.limit

variable {options p}

theorem Fits.outlineLine_eq (h : p.Fits options) :
    p.item.outlineLine options p.depth p.start = .ok (p.line options) := by
  have hcolumns : Offset.mul p.depth options.indentSpaces =
      .ok (p.depth * options.indentSpaces) := if_pos h.columns
  have hstop : Offset.add p.start p.item.width = .ok (p.start + p.item.width) := if_pos h.stop
  rw [Element.outlineLine, hcolumns, hstop, line]
  cases p.item.outlineText with
  | none => simp [bind, Except.bind, pure, Except.pure]
  | some t => simp [bind, Except.bind, pure, Except.pure]

end Placement

/-- The failure that a run ends with. -/
def firstFailure : Except ε Unit → Option ε
  | .ok _ => none
  | .error cause => some cause

namespace TextWriter

variable (w : TextWriter σ ε) (options : FormatOptions)

/-- A step in front of any failure starts with the line. -/
theorem walkLine_none (e : Element) (start depth : Nat) :
    w.walkLine options e ⟨start, depth, none⟩ = do
      let line ← ofExcept (e.outlineLine options depth start)
      match ← ExceptT.lift (w.writeLine line).run with
      | .ok () => return ⟨start, depth, none⟩
      | .error cause => return ⟨start, depth, some cause⟩ :=
  rfl

/-- A step behind a failure does nothing. -/
theorem placeLine_some (cause : ε) (p : Placement) :
    w.placeLine options (some cause) p = pure (some cause) :=
  rfl

theorem placeLines_some (cause : ε) (ps : List Placement) :
    w.placeLines options (some cause) ps = pure (some cause) := by
  induction ps with
  | nil => rfl
  | cons p rest ih => rw [placeLines_cons, placeLine_some, pure_bind, ih]

variable {w options}

/-- A step in front of any failure writes the line and keeps what comes of it. -/
theorem run_placeLine {p : Placement} (hfits : p.Fits options) {state after : σ}
    {result : Except ε Unit}
    (h : (w.writeLine (p.line options)).run.run state = (result, after)) :
    (w.placeLine options none p).run.run state = (.ok (firstFailure result), after) := by
  have hline (state : σ) : (ofExcept (.ok (p.line options)) : Writing σ Fault Text).run.run state =
      (.ok (p.line options), state) := rfl
  have hwalk : (w.walkLine options p.item ⟨p.start, p.depth, none⟩).run.run state =
      (.ok ⟨p.start, p.depth, firstFailure result⟩, after) := by
    rw [walkLine_none, hfits.outlineLine_eq, Writing.run_bind_of_ok (hline state),
      Writing.run_bind_of_ok (Writing.run_lift h)]
    cases result <;> rfl
  rw [placeLine, Writing.run_bind_of_ok hwalk]
  rfl

/-- The steps at placements come to the calls for their lines. -/
theorem run_placeLines {ps : List Placement} (hfits : ∀ p ∈ ps, p.Fits options) {state last : σ}
    {outcome : Except ε Unit}
    (h : (w.callAll (ps.map fun p => .writeLine (p.line options))).run.run state =
      (outcome, last)) :
    (w.placeLines options none ps).run.run state = (.ok (firstFailure outcome), last) := by
  induction ps generalizing state with
  | nil =>
      cases h
      rfl
  | cons p rest ih =>
      obtain ⟨hp, hrest⟩ := List.forall_mem_cons.mp hfits
      rw [placeLines_cons]
      cases hline : (w.writeLine (p.line options)).run.run state with
      | mk result after =>
          have hcall : (w.call (.writeLine (p.line options))).run.run state = (result, after) :=
            hline
          rw [Writing.run_bind_of_ok (run_placeLine hp hline)]
          cases result with
          | error cause =>
              rw [List.map_cons, callAll, Writing.run_bind_of_error hcall] at h
              cases h
              rw [firstFailure, placeLines_some]
              rfl
          | ok _ =>
              rw [List.map_cons, callAll, Writing.run_bind_of_ok hcall] at h
              exact ih hrest h

/-- Writing the outline comes to the calls for the lines of all placements. -/
theorem emitOutline_eq {root : Element} (hlimit : root.fullText.width < Offset.limit)
    (hfits : ∀ p ∈ root.placements 0 0, p.Fits options) :
    w.emitOutline options root =
      (w.callAll ((root.placements 0 0).map (fun p => .writeLine (p.line options)) ++
        [.close])).adapt .writer := by
  refine Writing.ext fun state => ?_
  rw [callAll_append, callAll_singleton]
  cases hcalls : (w.callAll ((root.placements 0 0).map fun p =>
      .writeLine (p.line options))).run.run state with
  | mk outcome last =>
      have hwalk : (w.walkOutline options root ⟨0, 0, none⟩).run.run state =
          (.ok ⟨0 + root.fullText.width, 0, firstFailure outcome⟩, last) := by
        rw [walksAs root ⟨0, 0, none⟩ (by rwa [Nat.zero_add]),
          Writing.run_bind_of_ok (run_placeLines hfits hcalls)]
        rfl
      rw [emitOutline, Writing.run_bind_of_ok (Writing.run_adapt hwalk EmitError.fault)]
      cases outcome with
      | error cause =>
          rw [Writing.run_adapt (Writing.run_bind_of_error hcalls) EmitError.writer]
          rfl
      | ok _ =>
          cases hclose : (w.call .close).run.run last with
          | mk result after =>
              rw [Writing.run_adapt ((Writing.run_bind_of_ok hcalls).trans hclose) EmitError.writer]
              exact Writing.run_adapt hclose EmitError.writer

end TextWriter

/-! ## Both ways to write a tree out -/

namespace Element

/-- What is placed in a tree ends in it. -/
theorem Regular.stop_le {root : Element} (h : root.Regular) (depth start : Nat) :
    ∀ p ∈ root.placements depth start, p.start + p.item.width ≤ start + root.width := by
  intro p hp
  obtain ⟨before, after, htext, hstart⟩ := root.hasAt_of_mem_placements depth start p hp
  rw [h.made.width_eq, (h.of_mem_placements depth start p hp).made.width_eq, htext, hstart,
    Text.width_append, Text.width_append]
  omega

/-- Where the indentations fit, all lines do. -/
theorem Regular.fits {root : Element} (h : root.Regular) (hlimit : root.width < Offset.limit)
    {options : FormatOptions}
    (hcolumns : ∀ p ∈ root.placements 0 0, p.depth * options.indentSpaces < Offset.limit) :
    ∀ p ∈ root.placements 0 0, p.Fits options := by
  intro p hp
  have hstop := h.stop_le 0 0 p hp
  exact ⟨hcolumns p hp, by omega⟩

/-- Whatever the writer does, writing out the source of a tree and writing out its outline
make calls that depend on the tree and the options alone, up to the first that fails, and
close the writer at the end; the first failure is what they answer.  The calls for the source
pass its text on in parts. -/
theorem emission_stops_at_failure {root : Element} (h : root.Constructed)
    (hnode : root.isNode = true) (hlimit : root.width < Offset.limit) {options : FormatOptions}
    (hcolumns : ∀ p ∈ root.placements 0 0, p.depth * options.indentSpaces < Offset.limit) :
    (∀ ε : Type, Emits (id : ε → ε) (root.leaves.flatMap Token.calls)
        fun _ w => w.emitText root) ∧
      (root.leaves.flatMap Token.calls).flatMap WriterCall.text = root.fullText ∧
      ∀ ε : Type, Emits (EmitError.writer : ε → EmitError ε)
        ((root.placements 0 0).map fun p => .writeLine (p.line options))
        fun _ w => w.emitOutline options root := by
  have hregular := h.regular
  refine ⟨fun ε => ?_, ?_, fun ε => ?_⟩
  · refine emits_of_eq ?_ fun σ w => ?_
    · intro hclose
      obtain ⟨t, _, hcall⟩ := List.mem_flatMap.mp hclose
      obtain ⟨part, hpart⟩ := t.exists_of_mem_calls _ hcall
      cases hpart
    · rw [w.emitText_eq, tokens_eq_leaves (isToken_of_isNode hnode), Writing.adapt_id]
  · simp only [List.flatMap_assoc, Token.flatMap_text_calls, fullText_eq_leaves]
  · refine emits_of_eq ?_ fun σ w => ?_
    · intro hclose
      obtain ⟨p, _, hcall⟩ := List.mem_map.mp hclose
      cases hcall
    · refine TextWriter.emitOutline_eq ?_ (hregular.fits hlimit hcolumns)
      rwa [← hregular.made.width_eq]

/-- A sink takes 20 bytes of the outline and refuses the second line, where the plan has eight
calls and the closing one. -/
theorem emission_unevenBlock_stops_at_failure :
    unevenBlock.Constructed ∧ unevenBlock.isNode = true ∧ unevenBlock.width < Offset.limit ∧
      (∀ p ∈ unevenBlock.placements 0 0,
        p.depth * FormatOptions.default.indentSpaces < Offset.limit) ∧
      (unevenBlock.placements 0 0).length = 8 ∧
      (((Sink.writer "\n".toList).emitOutline .default unevenBlock).run.run (Sink.limited 20)).1 =
        .error (.writer .full) ∧
      Emits (id : SinkError → SinkError) (unevenBlock.leaves.flatMap Token.calls)
        (fun _ w => w.emitText unevenBlock) ∧
      Emits (EmitError.writer : SinkError → EmitError SinkError)
        ((unevenBlock.placements 0 0).map fun p => .writeLine (p.line .default))
        fun _ w => w.emitOutline .default unevenBlock := by
  have hnode : unevenBlock.isNode = true := rfl
  have hlimit : unevenBlock.width < Offset.limit := by decide
  have hcolumns : ∀ p ∈ unevenBlock.placements 0 0,
      p.depth * FormatOptions.default.indentSpaces < Offset.limit := by decide
  obtain ⟨htext, _, houtline⟩ :=
    emission_stops_at_failure constructed_unevenBlock hnode hlimit hcolumns
  exact ⟨constructed_unevenBlock, hnode, hlimit, hcolumns, rfl, rfl, htext SinkError,
    houtline SinkError⟩

end Element

/-! ## Sinks without a limit -/

namespace Sink

/-- A place without a limit that holds parts, the latest first. -/
def holding (parts : List Text) : Sink :=
  ⟨none, parts, false⟩

theorem text_holding (parts : List Text) : (holding parts).text = parts.reverse.flatten :=
  List.append_nil _

/-- Calls go through, and what they add comes behind what is there. -/
theorem exists_run_callAll (newLine : Text) (calls : List WriterCall) (parts : List Text) :
    ∃ more, ((writer newLine).callAll calls).run.run (holding parts) = (.ok (), holding more) ∧
      (holding more).text = (holding parts).text ++ calls.flatMap (WriterCall.output newLine) := by
  induction calls generalizing parts with
  | nil => exact ⟨parts, rfl, (List.append_nil _).symm⟩
  | cons c rest ih =>
      have hcall : ∃ more, ((writer newLine).call c).run.run (holding parts) =
          (.ok (), holding (more ++ parts)) ∧ more.reverse.flatten = c.output newLine := by
        cases c with
        | write t => exact ⟨[t], rfl, by simp [WriterCall.output]⟩
        | writeLine t => exact ⟨[newLine, t], rfl, by simp [WriterCall.output]⟩
        | close => exact ⟨[], rfl, rfl⟩
      obtain ⟨here, hrun, houtput⟩ := hcall
      obtain ⟨more, hrest, htext⟩ := ih (here ++ parts)
      refine ⟨more, (Writing.run_bind_of_ok hrun).trans hrest, ?_⟩
      rw [htext, text_holding, text_holding, List.reverse_append, List.flatten_append, houtput,
        List.flatMap_cons, List.append_assoc]

end Sink

end Verbatim
