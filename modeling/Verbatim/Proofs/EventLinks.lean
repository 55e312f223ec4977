/-
  Where a replay breaks off.

  Apart from a call that the builder refuses, a replay breaks off only at a link that leads to
  no start, or where links do not come to an end.  Neither happens where every link leads
  forward to a start: dealing with a start leaves one there, without a link, so this stays so
  until the log ends.
-/
import Verbatim.Proofs.ReplayedCalls

set_option autoImplicit false

namespace Verbatim

/-! ## Refusals -/

/-- A builder refuses a call with this fault. -/
def Fault.isRefusal : Fault → Bool
  | .misuse _ | .notTokenKind _ | .notNodeKind _ => true
  | _ => false

/-- A computation that fails only where a builder refuses a call. -/
def Refuses {α : Type} (x : Except Fault α) : Prop :=
  ∀ fault, x = .error fault → fault.isRefusal = true

theorem refuses_ok {α : Type} (a : α) : Refuses (.ok a : Except Fault α) :=
  nofun

theorem refuses_error {α : Type} {fault : Fault} (h : fault.isRefusal = true) :
    Refuses (.error fault : Except Fault α) := by
  intro other hother
  cases hother
  exact h

theorem Refuses.bind {α β : Type} {x : Except Fault α} {f : α → Except Fault β} (h : Refuses x)
    (hf : ∀ a, x = .ok a → Refuses (f a)) : Refuses (x >>= f) := by
  cases x with
  | error fault => exact refuses_error (h fault rfl)
  | ok a => exact hf a rfl

namespace Builder

theorem refuses_innermost (b : Builder) : Refuses b.innermost := by
  unfold innermost
  split
  · exact refuses_error rfl
  · exact refuses_ok _

theorem refuses_requireNode (b : Builder) : Refuses b.requireNode := by
  refine b.refuses_innermost.bind fun frame _ => ?_
  cases frame with
  | node _ _ => exact refuses_ok _
  | list _ | separated _ => exact refuses_error rfl

theorem refuses_requireNodes (es : List Element) : Refuses (requireNodes es) := by
  induction es with
  | nil => exact refuses_ok _
  | cons e rest ih =>
      rw [requireNodes]
      split
      · exact ih
      · exact refuses_error rfl

theorem refuses_requireSlots (es : List Element) : Refuses (requireSlots es) := by
  induction es with
  | nil => exact refuses_ok _
  | cons e rest ih =>
      rw [requireSlots]
      split
      · exact ih
      · exact refuses_error rfl

theorem refuses_newNode (kind : Kind) (es : List Element) : Refuses (Element.newNode kind es) := by
  unfold Element.newNode
  split
  · exact refuses_ok _
  · exact refuses_error rfl

theorem refuses_newToken (kind : Kind) (text : Text) (leading trailing : TriviaList) :
    Refuses (Token.new kind text leading trailing) := by
  unfold Token.new
  split
  · exact refuses_ok _
  · exact refuses_error rfl

theorem refuses_pushToken (b : Builder) (t : Token) : Refuses (b.pushToken t) := by
  refine b.refuses_innermost.bind fun frame _ => ?_
  cases frame with
  | list _ => exact refuses_error rfl
  | node _ _ | separated _ => exact refuses_ok _

/-- A call fails only where it is refused. -/
theorem refuses_call (b : Builder) (c : Call) : Refuses (b.call c) := by
  cases c with
  | startNode kind => exact refuses_ok _
  | finishNode =>
      refine b.refuses_innermost.bind fun frame _ => ?_
      cases frame with
      | node kind mark => exact (refuses_newNode kind _).bind fun _ _ => refuses_ok _
      | list _ | separated _ => exact refuses_error rfl
  | startList | startSeparated => exact b.refuses_requireNode.bind fun _ _ => refuses_ok _
  | finishList =>
      refine b.refuses_innermost.bind fun frame _ => ?_
      cases frame with
      | list mark => exact (refuses_requireNodes _).bind fun _ _ => refuses_ok _
      | node _ _ | separated _ => exact refuses_error rfl
  | finishSeparated =>
      refine b.refuses_innermost.bind fun frame _ => ?_
      cases frame with
      | separated mark =>
          refine (refuses_requireSlots _).bind fun _ _ => ?_
          split
          · exact refuses_ok _
          · exact refuses_error rfl
      | node _ _ | list _ => exact refuses_error rfl
  | token kind text leading trailing =>
      exact (refuses_newToken kind text leading trailing).bind fun t _ => b.refuses_pushToken t
  | pushToken t => exact b.refuses_pushToken t
  | pushNode e => exact b.refuses_innermost.bind fun _ _ => refuses_ok _

theorem refuses_finish (b : Builder) : Refuses b.finish := by
  unfold finish
  split
  · split
    · exact refuses_ok _
    · exact refuses_error rfl
  · exact refuses_error rfl

end Builder

/-! ## Links -/

namespace Segment

variable {events : Segment}

/-- Every link leads forward, and to a start. -/
def Linked (events : Segment) : Prop :=
  ∀ (index : Nat) (kind : Kind) (distance : Nat),
    events[index]? = some (.start kind (some distance)) →
      0 < distance ∧ ∃ target, events[index + distance]? = some target ∧ target.isStart = true

theorem Linked.tail {event : Event} (h : Linked (event :: events)) : events.Linked := by
  intro index kind distance hget
  obtain ⟨hpositive, target, htarget, hstart⟩ := h (index + 1) kind distance hget
  rw [Nat.add_right_comm, List.getElem?_cons_succ] at htarget
  exact ⟨hpositive, target, htarget, hstart⟩

/-- Where a start is put in place of an event, links that lead there stay good. -/
theorem exists_start_of_set (index : Nat) (start : Event) (hset : start.isStart = true)
    {place : Nat} {target : Event} (htarget : events[place]? = some target)
    (hstart : target.isStart = true) :
    ∃ target, (events.set index start)[place]? = some target ∧ target.isStart = true := by
  have hlt := (List.getElem?_eq_some_iff.mp htarget).1
  rw [List.getElem?_set]
  split
  · rename_i heq
    rw [if_pos (heq ▸ hlt)]
    exact ⟨start, rfl, hset⟩
  · exact ⟨target, htarget, hstart⟩

/-- Links stay good where a start is put in place of an event, if its own link is good. -/
theorem Linked.set (h : events.Linked) (index : Nat) (start : Event) (hset : start.isStart = true)
    (hlink : ∀ kind distance, start = .start kind (some distance) →
      0 < distance ∧ ∃ target, events[index + distance]? = some target ∧ target.isStart = true) :
    Linked (events.set index start) := by
  intro place kind distance hget
  have hgood : 0 < distance ∧
      ∃ target, events[place + distance]? = some target ∧ target.isStart = true := by
    rw [List.getElem?_set] at hget
    split at hget
    · rename_i hplace
      split at hget
      · rw [← hplace]
        exact hlink kind distance (Option.some.inj hget)
      · cases hget
    · exact h place kind distance hget
  obtain ⟨hpositive, target, htarget, hstart⟩ := hgood
  exact ⟨hpositive, exists_start_of_set index start hset htarget hstart⟩

/-- A start that is dealt with has no link. -/
theorem Linked.mark (h : events.Linked) (index : Nat) : Linked (events.set index .tombstone) :=
  h.set index .tombstone rfl nofun

/-! ### Links in what is written -/

theorem linked_nil : Linked [] :=
  fun _ _ _ hget => nomatch hget

/-- An event without a link. -/
theorem linked_singleton (event : Event)
    (h : ∀ kind distance, event ≠ .start kind (some distance)) : Linked [event] := by
  intro index kind distance hget
  cases index with
  | zero => exact absurd (Option.some.inj hget) (h kind distance)
  | succ index => cases hget

theorem Linked.append (h : events.Linked) {next : Segment} (hnext : next.Linked) :
    Linked (events ++ next) := by
  intro place kind distance hget
  rcases Nat.lt_or_ge place events.length with hlt | hge
  · rw [List.getElem?_append_left hlt] at hget
    obtain ⟨hpositive, target, htarget, hstart⟩ := h place kind distance hget
    refine ⟨hpositive, target, ?_, hstart⟩
    rwa [List.getElem?_append_left (List.getElem?_eq_some_iff.mp htarget).1]
  · rw [List.getElem?_append_right hge] at hget
    obtain ⟨hpositive, target, htarget, hstart⟩ := hnext _ kind distance hget
    refine ⟨hpositive, target, ?_, hstart⟩
    rw [List.getElem?_append_right (by omega),
      show place + distance - events.length = place - events.length + distance by omega, htarget]

/-- A link from a start to the end of a piece leads to the start of the next piece. -/
theorem Linked.link (h : events.Linked) {next : Segment} (hnext : next.Linked) {first : Event}
    (hfirst : next[0]? = some first) (hstart : first.isStart = true) {index : Nat}
    (hindex : index < events.length) (kind : Kind) :
    Linked (events.set index (.start kind (some (events.length - index))) ++ next) := by
  have hboth := (h.append hnext).set index (.start kind (some (events.length - index))) rfl <| by
    intro kind distance heq
    cases heq
    refine ⟨by omega, first, ?_, hstart⟩
    rw [Nat.add_sub_cancel' (Nat.le_of_lt hindex), List.getElem?_append_right (Nat.le_refl _),
      Nat.sub_self, hfirst]
  rwa [List.set_append_left _ _ hindex] at hboth

theorem Linked.node (h : events.Linked) (kind : Kind) : Linked (Segment.node kind events) :=
  (linked_singleton (.start kind none) fun _ _ => nofun).append
    (h.append (linked_singleton .finish fun _ _ => nofun))

theorem Linked.list (h : events.Linked) : Linked (Segment.list events) :=
  (linked_singleton .startList fun _ _ => nofun).append
    (h.append (linked_singleton .finishList fun _ _ => nofun))

theorem Linked.separated (h : events.Linked) : Linked (Segment.separated events) :=
  (linked_singleton .startSeparated fun _ _ => nofun).append
    (h.append (linked_singleton .finishSeparated fun _ _ => nofun))

/-! ### Links that are followed -/

/-- Links are followed up to a start without one. -/
theorem Linked.exists_follow (h : events.Linked) {index : Nat} {event : Event}
    (hget : events[index]? = some event) (hstart : event.isStart = true) (budget : Nat)
    (hbudget : events.length ≤ budget + index) :
    ∃ kinds marked, follow budget index events = .ok (kinds, marked) ∧ marked.Linked := by
  have hlt := (List.getElem?_eq_some_iff.mp hget).1
  induction budget generalizing index events event with
  | zero => omega
  | succ budget ih =>
      cases event with
      | finish | startList | finishList | startSeparated | finishSeparated | token _ | missing _ =>
          cases hstart
      | start kind link =>
          rw [follow, hget]
          cases link with
          | none => exact ⟨_, _, rfl, h.mark index⟩
          | some distance =>
              obtain ⟨hpositive, target, htarget, htargetStart⟩ := h index kind distance hget
              obtain ⟨next, hnext, hnextStart⟩ :=
                exists_start_of_set index .tombstone rfl htarget htargetStart
              obtain ⟨kinds, marked, hfollow, hmarked⟩ :=
                ih (h.mark index) hnext hnextStart (by rw [List.length_set]; omega)
                  (List.getElem?_eq_some_iff.mp hnext).1
              simp only [hfollow]
              exact ⟨_, marked, rfl, hmarked⟩

/-- Where every link leads forward to a start, a replay breaks off only where the builder
refuses a call. -/
theorem Linked.refuses_replayFrom (h : events.Linked) (budget : Nat) (b : Builder) :
    Refuses (replayFrom budget events b) := by
  induction budget generalizing events b with
  | zero => exact refuses_ok _
  | succ budget ih =>
      cases events with
      | nil => exact refuses_ok _
      | cons event rest =>
          cases hcall : event.call? with
          | some c =>
              rw [replayFrom_call hcall]
              exact (b.refuses_call c).bind fun next _ => ih h.tail next
          | none =>
              cases event with
              | finish | startList | finishList | startSeparated | finishSeparated | token _
                | missing _ => cases hcall
              | start kind link =>
                  unfold replayFrom
                  split
                  · exact ih h.tail b
                  · split
                    · exact ih h.tail _
                    · exact ih h.tail _
                    · rename_i distance
                      obtain ⟨_, target, htarget, hstart⟩ := h 0 kind (distance + 1) rfl
                      rw [Nat.zero_add, List.getElem?_cons_succ] at htarget
                      obtain ⟨kinds, marked, hfollow, hmarked⟩ :=
                        h.tail.exists_follow htarget hstart (rest.length + 1) (by omega)
                      rw [hfollow]
                      exact ih hmarked _

theorem Linked.refuses_replay (h : events.Linked) : Refuses events.replay :=
  (h.refuses_replayFrom _ _).bind fun b _ => b.refuses_finish

end Segment

end Verbatim
