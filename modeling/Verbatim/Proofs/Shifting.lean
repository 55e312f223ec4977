/-
  Positions that are moved as a whole.

  A text that comes behind another one is scanned and parsed as it would be on its own,
  at positions that are larger by the width of the text in front of it.  Nodes and
  tokens of a tree have no positions, so output whose tokens are moved stands for the
  same elements; reports that are moved keep their order.
-/
import Verbatim.Proofs.EventReplay
import Verbatim.Diagnostic

set_option autoImplicit false

namespace Verbatim

/-! ## Tokens and output -/

/-- The token at a position further on. -/
def ScannedToken.shift (n : Nat) (t : ScannedToken) : ScannedToken :=
  { t with start := t.start + n, stop := t.stop + n }

/-- The event with its token further on. -/
def Event.shift (n : Nat) : Event → Event
  | .token t => .token (t.shift n)
  | e => e

namespace Segment

/-- The piece of output with its tokens further on. -/
def shift (n : Nat) (events : Segment) : Segment :=
  events.map (Event.shift n)

@[simp] theorem shift_nil (n : Nat) : shift n [] = [] := rfl

@[simp] theorem shift_append (n : Nat) (a b : Segment) :
    shift n (a ++ b) = shift n a ++ shift n b :=
  List.map_append

@[simp] theorem shift_token (n : Nat) (t : ScannedToken) :
    shift n [.token t] = [.token (t.shift n)] := rfl

@[simp] theorem shift_missing (n : Nat) (kind : Kind) : shift n [.missing kind] = [.missing kind] :=
  rfl

@[simp] theorem shift_node (n : Nat) (kind : Kind) (inner : Segment) :
    shift n (node kind inner) = node kind (shift n inner) := by
  simp [shift, node, Event.shift]

@[simp] theorem shift_list (n : Nat) (inner : Segment) :
    shift n (list inner) = list (shift n inner) := by
  simp [shift, list, Event.shift]

@[simp] theorem shift_separated (n : Nat) (inner : Segment) :
    shift n (separated inner) = separated (shift n inner) := by
  simp [shift, separated, Event.shift]

@[simp] theorem length_shift (n : Nat) (events : Segment) :
    (shift n events).length = events.length :=
  List.length_map _

@[simp] theorem shift_zero (events : Segment) : shift 0 events = events := by
  have hid : Event.shift 0 = id := by
    funext e
    cases e <;> rfl
  rw [shift, hid, List.map_id]

theorem shift_setLink (n : Nat) (events : Segment) (index link : Nat) :
    shift n (setLink events index link) = setLink (shift n events) index link := by
  induction events generalizing index with
  | nil => rfl
  | cons e rest ih =>
      cases index with
      | zero => cases e <;> rfl
      | succ index =>
          rw [setLink, shift, List.map_cons]
          change _ :: shift n _ = _
          rw [ih]
          cases e <;> rfl

end Segment

namespace Completed

/-- The finished node with its tokens further on. -/
def shift (n : Nat) (c : Completed) : Completed :=
  ⟨c.events.shift n, c.outer⟩

@[simp] theorem events_shift (n : Nat) (c : Completed) :
    (c.shift n).events = c.events.shift n := rfl

@[simp] theorem shift_node (n : Nat) (kind : Kind) (inner : Segment) :
    (node kind inner).shift n = node kind (inner.shift n) := by
  simp [node, shift]

@[simp] theorem shift_wrap (n : Nat) (c : Completed) (kind : Kind) (inner : Segment) :
    (c.wrap kind inner).shift n = (c.shift n).wrap kind (inner.shift n) := by
  simp [wrap, shift, Segment.shift_setLink]

end Completed

/-! ## Replay -/

/-- The event with its token at no position. -/
def Event.unplaced : Event → Event
  | .token t => .token { t with start := 0, stop := 0 }
  | e => e

namespace Segment

/-- Following links does not look at positions. -/
theorem follow_unplaced (budget index : Nat) (events : Segment) :
    follow budget index (events.map Event.unplaced) =
      (follow budget index events).map fun found => (found.1, found.2.map Event.unplaced) := by
  induction budget generalizing index events with
  | zero => rfl
  | succ budget ih =>
      rw [follow, follow, List.getElem?_map]
      cases events[index]? with
      | none => rfl
      | some e =>
          cases e with
          | start kind link =>
              have hset : (events.map Event.unplaced).set index .tombstone =
                  (events.set index .tombstone).map Event.unplaced := by
                rw [List.map_set]
                rfl
              cases link with
              | none => simp [Event.unplaced, hset, Except.map]
              | some distance =>
                  simp only [Option.map_some, Event.unplaced, hset, ih]
                  cases follow budget (index + distance) (events.set index .tombstone) <;> rfl
          | finish | startList | finishList | startSeparated | finishSeparated => rfl
          | token _ | missing _ => rfl

/-- Replaying does not look at positions. -/
theorem replayFrom_unplaced (budget : Nat) (events : Segment) (b : Builder) :
    replayFrom budget (events.map Event.unplaced) b = replayFrom budget events b := by
  induction budget generalizing events b with
  | zero => cases events <;> rfl
  | succ budget ih =>
      cases events with
      | nil => rfl
      | cons e rest =>
          cases e with
          | start kind link =>
              rcases link with _ | _ | distance
              · simp only [List.map_cons, Event.unplaced, replayFrom, ih]
              · simp only [List.map_cons, Event.unplaced, replayFrom, ih]
              · simp only [List.map_cons, Event.unplaced, replayFrom, ih, List.length_map,
                  follow_unplaced]
                split
                · rfl
                · cases follow (rest.length + 1) distance rest with
                  | error fault => rfl
                  | ok found => exact ih _ _
          | finish | startList | finishList | startSeparated | finishSeparated =>
              simp only [List.map_cons, Event.unplaced, replayFrom, ih]
          | token _ | missing _ => simp only [List.map_cons, Event.unplaced, replayFrom, ih]

theorem map_unplaced_shift (n : Nat) (events : Segment) :
    (shift n events).map Event.unplaced = events.map Event.unplaced := by
  rw [shift, List.map_map]
  refine List.map_congr_left fun e _ => ?_
  cases e <;> rfl

/-- Output whose tokens are moved stands for the same elements. -/
theorem Stands.shift {events : Segment} {es : List Element} (h : events.Stands es) (n : Nat) :
    Stands (events.shift n) es := by
  intro budget rest b hadmits
  have hsame :
      (events.shift n ++ rest).map Event.unplaced = (events ++ rest).map Event.unplaced := by
    rw [List.map_append, List.map_append, map_unplaced_shift]
  rw [length_shift, ← replayFrom_unplaced, hsame, replayFrom_unplaced]
  exact h budget rest b hadmits

end Segment

/-! ## Reports -/

namespace Diagnostic

/-- The report at a position further on. -/
def shift (n : Nat) (d : Diagnostic) : Diagnostic :=
  { d with start := d.start + n, stop := d.stop + n }

theorem insert_map_shift (n : Nat) (d : Diagnostic) (ds : List Diagnostic) :
    insert (d.shift n) (ds.map (shift n)) = (insert d ds).map (shift n) := by
  induction ds with
  | nil => rfl
  | cons e rest ih =>
      simp only [List.map_cons, insert, shift, Nat.add_le_add_iff_right]
      split
      · rfl
      · rw [List.map_cons, ← ih]
        rfl

/-- Moving reports keeps their order. -/
theorem sort_map_shift (n : Nat) (ds : List Diagnostic) :
    sort (ds.map (shift n)) = (sort ds).map (shift n) := by
  induction ds with
  | nil => rfl
  | cons d rest ih =>
      change insert (d.shift n) (sort (rest.map (shift n))) = (insert d (sort rest)).map (shift n)
      rw [ih, insert_map_shift]

theorem eq_nil_of_sort {ds : List Diagnostic} (h : sort ds = []) : ds = [] := by
  have hperm := sort_perm ds
  rw [h] at hperm
  exact List.nil_perm.mp hperm

end Diagnostic

end Verbatim
