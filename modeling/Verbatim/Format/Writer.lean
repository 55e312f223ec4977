/-
  Writers: where emitted text goes.

  A writer takes text, lines and a final close, and each call may fail.  A failing
  call can still change what has been written, so the state survives a failure.
  `Sink` is a writer over a place of limited room: a text that does not fit is
  written as far as it fits, which may cut its last character.
-/
import Verbatim.Text.Basic

set_option autoImplicit false

namespace Verbatim

/-! ## Writers in general -/

/-- An action on a state that may fail and keeps the state when it does. -/
abbrev Writing (σ ε : Type) := ExceptT ε (StateM σ)

namespace Writing

variable {σ ε δ α β : Type} {state after : σ}

/-- Actions that do the same from every state are the same. -/
theorem ext {a b : Writing σ ε α} (h : ∀ state, a.run.run state = b.run.run state) : a = b :=
  funext h

/-- An action goes on with the answer of the one before it. -/
theorem run_bind_of_ok {first : Writing σ ε α} {next : α → Writing σ ε β} {value : α}
    (h : first.run.run state = (.ok value, after)) :
    (first >>= next).run.run state = (next value).run.run after := by
  have hbind : (first >>= next).run.run state =
      ExceptT.bindCont next (first.run.run state).1 (first.run.run state).2 := rfl
  rw [hbind, h]
  rfl

/-- The first failure ends an action. -/
theorem run_bind_of_error {first : Writing σ ε α} {next : α → Writing σ ε β} {cause : ε}
    (h : first.run.run state = (.error cause, after)) :
    (first >>= next).run.run state = (.error cause, after) := by
  have hbind : (first >>= next).run.run state =
      ExceptT.bindCont next (first.run.run state).1 (first.run.run state).2 := rfl
  rw [hbind, h]
  rfl

/-- A failure is passed on in another form. -/
theorem run_adapt {action : Writing σ ε α} {result : Except ε α}
    (h : action.run.run state = (result, after)) (report : ε → δ) :
    (action.adapt report).run.run state = (result.mapError report, after) := by
  have hadapt : (action.adapt report).run.run state =
      ((action.run.run state).1.mapError report, (action.run.run state).2) := rfl
  rw [hadapt, h]

theorem adapt_id (action : Writing σ ε α) : action.adapt id = action := by
  refine ext fun state => ?_
  cases h : action.run.run state with
  | mk result after =>
      rw [run_adapt h]
      cases result <;> rfl

theorem run_lift {action : StateM σ α} {value : α} (h : action.run state = (value, after)) :
    (ExceptT.lift action : Writing σ ε α).run.run state = (.ok value, after) := by
  have hlift : (ExceptT.lift action : Writing σ ε α).run.run state =
      (.ok (action.run state).1, (action.run state).2) := rfl
  rw [hlift, h]

end Writing

/-- The three calls of a writer. -/
structure TextWriter (σ ε : Type) where
  write : Text → Writing σ ε Unit
  writeLine : Text → Writing σ ε Unit
  close : Writing σ ε Unit

/-! ## Sinks -/

/-- Why a sink refuses a call. -/
inductive SinkError where
  | full | cannotFlush
  deriving DecidableEq, Repr, Inhabited

namespace SinkError

/-- Wording of a refusal. -/
def message : SinkError → String
  | .full => "sink is full"
  | .cannotFlush => "cannot flush"

end SinkError

/-- A place for text: the bytes that still fit, if there is a limit, the parts
written, the latest first, and whether the last character was cut. -/
structure Sink where
  room : Option Nat
  parts : List Text
  torn : Bool
  deriving DecidableEq, Repr, Inhabited

namespace Sink

/-- A place without a limit. -/
def unlimited : Sink := ⟨none, [], false⟩

/-- A place for a number of bytes. -/
def limited (room : Nat) : Sink := ⟨some room, [], false⟩

/-- The longest part of a text from its start that takes at most `room` bytes. -/
def fitting : Text → Nat → Text
  | [], _ => []
  | c :: rest, room =>
      if c.utf8Size ≤ room then c :: fitting rest (room - c.utf8Size) else []

/-- Writes a text, or as much of it as fits. -/
def put (t : Text) : Writing Sink SinkError Unit := do
  let sink ← get
  match sink.room with
  | none => set { sink with parts := t :: sink.parts }
  | some room =>
      if t.width ≤ room then
        set { sink with room := some (room - t.width), parts := t :: sink.parts }
      else
        let front := fitting t room
        set { sink with
          room := some 0
          parts := front :: sink.parts
          torn := sink.torn || front.width != room }
        throw .full

/-- Fails when a limited place is full. -/
def flush : Writing Sink SinkError Unit := do
  if (← get).room = some 0 then throw .cannotFlush

/-- A writer over a sink with the given line end. -/
def writer (newLine : Text) : TextWriter Sink SinkError where
  write := put
  writeLine := fun t => do put t; put newLine
  close := flush

/-- The whole characters written. -/
def written (s : Sink) : Text :=
  s.parts.reverse.flatten

/-- The text written.  A character that was cut shows as a replacement character. -/
def text (s : Sink) : Text :=
  s.written ++ if s.torn then ['\uFFFD'] else []

end Sink

end Verbatim
