/-
  What a draft writes.

  A draft completes its markers in stack order, so the log holds one piece of output for each
  of its nodes and lists.  A start is changed twice at most: a completion decides its kind, and
  when the node is preceded by another one, it gets a link to the place where that one starts.
  So a node that precedes a completed one comes about as the functions on finished output say
  that it does.
-/
import Verbatim.Parse.Marker
import Verbatim.Proofs.EventReplay

set_option autoImplicit false

namespace Verbatim

/-! ## What a draft writes -/

mutual

/-- The output that a draft writes. -/
def Draft.segment : Draft → Segment
  | .done => []
  | .token t rest => [.token t] ++ rest.segment
  | .missing kind rest => [.missing kind] ++ rest.segment
  | .list inner rest => Segment.list inner.segment ++ rest.segment
  | .separated inner rest => Segment.separated inner.segment ++ rest.segment
  | .node first rest => first.completed.events ++ rest.segment

/-- The output that a node writes. -/
def NodeDraft.completed : NodeDraft → Completed
  | .complete inner kind => .node kind inner.segment
  | .precede first inner kind => first.completed.wrap kind inner.segment

end

theorem length_enclosed (first last : Event) (inner : Segment) :
    (first :: (inner ++ [last])).length = inner.length + 2 := by
  rw [List.length_cons, List.length_append, List.length_singleton]

mutual

theorem Draft.length_segment : ∀ d : Draft, d.segment.length = d.size
  | .done => rfl
  | .token _ rest => by
      rw [Draft.segment, List.length_append, rest.length_segment, Draft.size, Nat.add_comm]
      rfl
  | .missing _ rest => by
      rw [Draft.segment, List.length_append, rest.length_segment, Draft.size, Nat.add_comm]
      rfl
  | .list inner rest => by
      rw [Draft.segment, List.length_append, Segment.list, length_enclosed, inner.length_segment,
        rest.length_segment, Draft.size]
  | .separated inner rest => by
      rw [Draft.segment, List.length_append, Segment.separated, length_enclosed,
        inner.length_segment, rest.length_segment, Draft.size]
  | .node first rest => by
      rw [Draft.segment, List.length_append, rest.length_segment, first.length_events, Draft.size]

theorem NodeDraft.length_events : ∀ n : NodeDraft, n.completed.events.length = n.size
  | .complete inner _ => by
      rw [NodeDraft.completed, Completed.node, Completed.length_node, inner.length_segment,
        NodeDraft.size]
  | .precede first inner _ => by
      rw [NodeDraft.completed, Completed.length_wrap, first.length_events, inner.length_segment,
        NodeDraft.size]

end

/-- The outermost start of a node has no link yet. -/
theorem NodeDraft.exists_outer (n : NodeDraft) :
    ∃ front kind back, n.completed.events = front ++ .start kind none :: back ∧
      front.length = n.completed.outer := by
  cases n with
  | complete inner kind => exact ⟨[], kind, inner.segment ++ [.finish], rfl, rfl⟩
  | precede first inner kind => exact ⟨_, kind, inner.segment ++ [.finish], rfl,
      Segment.length_setLink _ _ _⟩

/-! ## Writing -/

namespace Log

variable {α β : Type} {events after : Segment}

theorem run_bind_of_ok {x : Log α} {f : α → Log β} {a : α} (h : x.run events = .ok (a, after)) :
    (x >>= f).run events = (f a).run after := by
  rw [StateT.run_bind, h]
  rfl

theorem run_push (e : Event) (events : Segment) :
    (push e).run events = .ok ((), events ++ [e]) := rfl

theorem run_start (events : Segment) :
    start.run events = .ok (⟨events.length.toUInt32⟩, events ++ [.tombstone]) := rfl

/-- The start that stands behind a front is changed. -/
theorem run_changeStart {position : UInt32} {front : Segment} (h : position.toNat = front.length)
    (change : Kind → Option Nat → Event) (kind : Kind) (link : Option Nat) (back : Segment) :
    (changeStart position change).run (front ++ .start kind link :: back) =
      .ok ((), front ++ change kind link :: back) := by
  have hget : (front ++ .start kind link :: back)[position.toNat]? = some (.start kind link) := by
    rw [h, List.getElem?_append_right (Nat.le_refl _), Nat.sub_self, List.getElem?_cons_zero]
  have hset : (front ++ .start kind link :: back).set position.toNat (change kind link) =
      front ++ change kind link :: back := by
    rw [h, List.set_append_right _ _ (Nat.le_refl _), Nat.sub_self, List.set_cons_zero]
  have hrun : (changeStart position change).run (front ++ .start kind link :: back) =
      .ok ((), (front ++ .start kind link :: back).set position.toNat (change kind link)) := by
    rw [changeStart, run_bind_of_ok (a := front ++ .start kind link :: back) rfl, hget]
    rfl
  rw [hrun, hset]

end Log

theorem toNat_place {n : Nat} (h : n < Offset.limit) : n.toUInt32.toNat = n :=
  UInt32.toNat_ofNat_of_lt' h

/-- Ending a list writes its end. -/
theorem ListMarker.run_complete (m : ListMarker) (events : Segment) :
    m.complete.run events = .ok ((), events ++ [m.finish]) := rfl

/-- What is written between the start and the end of a list stands between them. -/
theorem ListMarker.run_enclosed {begin : Log ListMarker} {body rest : Log Unit}
    {events inner : Segment} {first last : Event}
    (hbegin : begin.run events = .ok (⟨last⟩, events ++ [first]))
    (hbody : body.run (events ++ [first]) = .ok ((), events ++ [first] ++ inner)) :
    (do let m ← begin; body; m.complete; rest : Log Unit).run events =
      rest.run (events ++ first :: (inner ++ [last])) := by
  rw [Log.run_bind_of_ok hbegin, Log.run_bind_of_ok hbody, Log.run_bind_of_ok (run_complete _ _),
    List.append_assoc, List.append_assoc, List.singleton_append]

/-- Completing a node writes it as a piece behind what was there when it was started. -/
theorem Marker.run_complete {m : Marker} {front : Segment} (h : m.position.toNat = front.length)
    (inner : Segment) (kind : Kind) :
    (m.complete kind).run (front ++ [.tombstone] ++ inner) =
      .ok (⟨m.position⟩, front ++ Segment.node kind inner) := by
  have hchange := Log.run_changeStart h (fun _ link => .start kind link) .tombstone none inner
  rw [List.append_assoc, List.singleton_append, Event.tombstone, Marker.complete,
    Log.run_bind_of_ok hchange, Log.run_bind_of_ok (Log.run_push _ _), List.append_assoc,
    List.cons_append]
  rfl

/-- Preceding a completed node links its outermost start to the new one. -/
theorem CompletedMarker.run_precede {m : CompletedMarker} {front events before back : Segment}
    {kind : Kind} (hevents : events = before ++ .start kind none :: back)
    (hplace : m.position.toNat = front.length + before.length)
    (hlimit : front.length + events.length < Offset.limit) :
    m.precede.run (front ++ events) =
      .ok (⟨(front.length + events.length).toUInt32⟩,
        front ++ events.setLink before.length (events.length - before.length) ++
          [.tombstone]) := by
  have hlength : before.length ≤ events.length := by
    rw [hevents, List.length_append]
    exact Nat.le_add_right _ _
  have hdistance : ((front.length + events.length).toUInt32 - m.position).toNat =
      events.length - before.length := by
    rw [UInt32.toNat_sub_of_le, toNat_place hlimit, hplace]
    · omega
    · rw [UInt32.le_iff_toNat_le, toNat_place hlimit, hplace]
      omega
  have hstart := Log.run_start (front ++ events)
  rw [List.length_append] at hstart
  rw [← List.length_append] at hplace
  have hchange := Log.run_changeStart hplace
    (fun kind _ => .start kind (some (events.length - before.length))) kind none
    (back ++ [.tombstone])
  have hlog : front ++ events ++ [.tombstone] =
      front ++ before ++ .start kind none :: (back ++ [.tombstone]) := by
    rw [hevents]
    simp only [List.append_assoc, List.cons_append]
  have hlinked : front ++ events.setLink before.length (events.length - before.length) ++
      [.tombstone] = front ++ before ++
        .start kind (some (events.length - before.length)) :: (back ++ [.tombstone]) := by
    generalize events.length - before.length = distance
    rw [hevents, Segment.setLink_append, Segment.setLink]
    simp only [List.append_assoc, List.cons_append]
  rw [CompletedMarker.precede, Log.run_bind_of_ok hstart]
  simp only [hdistance]
  rw [hlog, Log.run_bind_of_ok hchange, hlinked]
  rfl

/-- Preceding a completed node, writing behind it and completing the new node makes the one the
first child of the other. -/
theorem CompletedMarker.run_wrap {m : CompletedMarker} {c : Completed} {front before back : Segment}
    {outerKind : Kind} (hevents : c.events = before ++ .start outerKind none :: back)
    (houter : before.length = c.outer) (hplace : m.position.toNat = front.length + c.outer)
    (hlimit : front.length + c.events.length < Offset.limit) {body : Log Unit} {inner : Segment}
    (hbody : ∀ events : Segment, events.length = front.length + c.events.length + 1 →
      body.run events = .ok ((), events ++ inner)) (kind : Kind) :
    (do let m ← m.precede; body; m.complete kind : Log CompletedMarker).run (front ++ c.events) =
      .ok (⟨(front.length + c.events.length).toUInt32⟩,
        front ++ (c.wrap kind inner).events) := by
  rw [← houter] at hplace
  have hprecede := run_precede hevents hplace hlimit
  rw [houter] at hprecede
  have hlinked : (front ++ c.events.setLink c.outer (c.events.length - c.outer)).length =
      front.length + c.events.length := by
    rw [List.length_append, Segment.length_setLink]
  have hinner := hbody
    (front ++ c.events.setLink c.outer (c.events.length - c.outer) ++ [.tombstone])
    (by rw [List.length_append, hlinked, List.length_singleton])
  have hmarker : (front.length + c.events.length).toUInt32.toNat =
      front.length + c.events.length := toNat_place hlimit
  have hcomplete := Marker.run_complete (m := ⟨(front.length + c.events.length).toUInt32⟩)
    (hmarker.trans hlinked.symm) inner kind
  rw [Log.run_bind_of_ok hprecede, Log.run_bind_of_ok hinner, hcomplete, List.append_assoc,
    Completed.wrap]

mutual

/-- A draft writes its output behind what has been written. -/
theorem Draft.run_write : ∀ (d : Draft) (events : Segment),
    events.length + d.size < Offset.limit → d.write.run events = .ok ((), events ++ d.segment)
  | .done, events, _ => by
      rw [Draft.segment, List.append_nil]
      rfl
  | .token t rest, events, h => by
      have hrest := rest.run_write (events ++ [.token t])
        (by rw [Draft.size] at h; rw [List.length_append, List.length_singleton]; omega)
      rw [Draft.write, Log.run_bind_of_ok (Log.run_push _ _), hrest, Draft.segment,
        List.append_assoc]
  | .missing kind rest, events, h => by
      have hrest := rest.run_write (events ++ [.missing kind])
        (by rw [Draft.size] at h; rw [List.length_append, List.length_singleton]; omega)
      rw [Draft.write, Log.run_bind_of_ok (Log.run_push _ _), hrest, Draft.segment,
        List.append_assoc]
  | .list inner rest, events, h => by
      rw [Draft.size] at h
      have hinner := inner.run_write (events ++ [.startList])
        (by rw [List.length_append, List.length_singleton]; omega)
      have hrest := rest.run_write (events ++ Segment.list inner.segment)
        (by
          rw [List.length_append, Segment.list, length_enclosed, inner.length_segment]
          omega)
      rw [Draft.write, ListMarker.run_enclosed rfl hinner, Draft.segment, ← List.append_assoc]
      exact hrest
  | .separated inner rest, events, h => by
      rw [Draft.size] at h
      have hinner := inner.run_write (events ++ [.startSeparated])
        (by rw [List.length_append, List.length_singleton]; omega)
      have hrest := rest.run_write (events ++ Segment.separated inner.segment)
        (by
          rw [List.length_append, Segment.separated, length_enclosed, inner.length_segment]
          omega)
      rw [Draft.write, ListMarker.run_enclosed rfl hinner, Draft.segment, ← List.append_assoc]
      exact hrest
  | .node first rest, events, h => by
      rw [Draft.size] at h
      have hrest := rest.run_write (events ++ first.completed.events)
        (by rw [List.length_append, first.length_events]; omega)
      rw [Draft.write, Log.run_bind_of_ok (first.run_write events (by omega)), hrest, Draft.segment,
        List.append_assoc]

/-- A node writes its output, and its marker is the place of its outermost start. -/
theorem NodeDraft.run_write : ∀ (n : NodeDraft) (events : Segment),
    events.length + n.size < Offset.limit →
      n.write.run events = .ok (⟨(events.length + n.completed.outer).toUInt32⟩,
        events ++ n.completed.events)
  | .complete inner kind, events, h => by
      rw [NodeDraft.size] at h
      have hinner := inner.run_write (events ++ [.tombstone])
        (by rw [List.length_append, List.length_singleton]; omega)
      have hplace : events.length.toUInt32.toNat = events.length := toNat_place (by omega)
      have hcomplete :=
        Marker.run_complete (m := ⟨events.length.toUInt32⟩) hplace inner.segment kind
      rw [NodeDraft.write, Log.run_bind_of_ok (Log.run_start events), Log.run_bind_of_ok hinner,
        hcomplete]
      rfl
  | .precede first inner kind, events, h => by
      rw [NodeDraft.size] at h
      have hlength := first.length_events
      obtain ⟨before, outerKind, back, hevents, houter⟩ := first.exists_outer
      have hbefore : before.length ≤ first.completed.events.length := by
        rw [hevents, List.length_append]
        exact Nat.le_add_right _ _
      have hplace : (events.length + first.completed.outer).toUInt32.toNat =
          events.length + first.completed.outer := toNat_place (by omega)
      have hwrap := CompletedMarker.run_wrap
        (m := ⟨(events.length + first.completed.outer).toUInt32⟩) hevents houter hplace (by omega)
        (fun log hlog => inner.run_write log (by omega)) kind
      rw [NodeDraft.write, Log.run_bind_of_ok (first.run_write events (by omega))]
      exact hwrap

end

end Verbatim
