/-
  What a replay does with a log, however the log came about.

  A replay makes calls to a builder: for each event that is no start of a node the call that
  the event stands for, in order, and for the starts of nodes openings, none of them twice,
  since a start that a link has led to is dealt with.  So the leaves of a replayed tree are the
  tokens of the log in order, and no more nodes end than have been decided.
-/
import Verbatim.Proofs.Serialization

set_option autoImplicit false

namespace Verbatim

/-! ## The calls for events -/

namespace Builder

/-- Calls are made one part after the other. -/
theorem callAll_append (b : Builder) (xs ys : List Call) :
    b.callAll (xs ++ ys) = b.callAll xs >>= fun mid => mid.callAll ys := by
  induction xs generalizing b with
  | nil => rfl
  | cons c rest ih =>
      rw [List.cons_append, callAll, callAll]
      cases b.call c with
      | error fault => rfl
      | ok mid => exact ih mid

theorem callAll_startNode (b : Builder) (kinds : List Kind) :
    b.callAll (kinds.map .startNode) = .ok (kinds.foldl startNode b) := by
  induction kinds generalizing b with
  | nil => rfl
  | cons kind rest ih => exact ih (b.startNode kind)

/-- A call that is given nothing that is there already. -/
def Call.isFresh : Call → Bool
  | .pushToken _ | .pushNode _ => false
  | _ => true

/-- A call that opens a node. -/
def Call.isStart : Call → Bool
  | .startNode _ => true
  | _ => false

end Builder

/-- The call that an event other than a start of a node stands for. -/
def Event.call? : Event → Option Builder.Call
  | .start _ _ => none
  | .finish => some .finishNode
  | .startList => some .startList
  | .finishList => some .finishList
  | .startSeparated => some .startSeparated
  | .finishSeparated => some .finishSeparated
  | .token t => some (.token t.kind t.text t.leading t.trailing)
  | .missing kind => some (.token kind [] .empty .empty)

/-- A node starts, and its kind has been decided. -/
def Event.opens : Event → Bool
  | .start kind _ => kind != .tombstone
  | _ => false

namespace Segment

variable {b next : Builder} {events : Segment}

theorem replayFrom_call {event : Event} {c : Builder.Call} (h : event.call? = some c)
    (budget : Nat) (rest : Segment) :
    replayFrom (budget + 1) (event :: rest) b = b.call c >>= replayFrom budget rest := by
  cases event with
  | start _ _ => cases h
  | finish | startList | finishList | startSeparated | finishSeparated | token _ | missing _ =>
      cases h
      rfl

/-- The calls that events are replayed as: one call for each event that is no start of a node,
in the order of the events, and between them starts of nodes, none of them made twice. -/
structure CallsOf (events : Segment) (calls : List Builder.Call) : Prop where
  others : calls.filter (fun c => !c.isStart) = events.filterMap Event.call?
  starts : calls.countP Builder.Call.isStart ≤ events.countP Event.opens

theorem CallsOf.cons {calls : List Builder.Call} (h : events.CallsOf calls) {event : Event}
    {c : Builder.Call} (hcall : event.call? = some c) : CallsOf (event :: events) (c :: calls) := by
  have hplain : c.isStart = false ∧ event.opens = false := by
    cases event with
    | start _ _ => cases hcall
    | finish | startList | finishList | startSeparated | finishSeparated | token _ | missing _ =>
        cases hcall
        exact ⟨rfl, rfl⟩
  refine ⟨?_, ?_⟩
  · rw [List.filterMap_cons_some hcall, ← h.others]
    exact List.filter_cons_of_pos (by rw [hplain.1]; rfl)
  · rw [List.countP_cons_of_neg (by simp [hplain.1]), List.countP_cons_of_neg (by simp [hplain.2])]
    exact h.starts

/-- Nodes are opened for starts that are no longer there when the replay goes on. -/
theorem CallsOf.open {calls : List Builder.Call} {marked : Segment} (h : marked.CallsOf calls)
    (kinds : List Kind) (hothers : marked.filterMap Event.call? = events.filterMap Event.call?)
    (hstarts : kinds.length + marked.countP Event.opens ≤ events.countP Event.opens) :
    events.CallsOf (kinds.map .startNode ++ calls) := by
  refine ⟨?_, ?_⟩
  · have hnone : (kinds.map Builder.Call.startNode).filter (fun c => !c.isStart) = [] := by
      simp [Builder.Call.isStart]
    rw [List.filter_append, hnone, h.others, hothers, List.nil_append]
  · have hall : (kinds.map Builder.Call.startNode).countP Builder.Call.isStart = kinds.length := by
      simp [List.countP_map, Builder.Call.isStart]
    have hmore := h.starts
    rw [List.countP_append, hall]
    omega

/-- The calls for events are given nothing that is there already. -/
theorem CallsOf.isFresh {calls : List Builder.Call} (h : events.CallsOf calls) :
    ∀ c ∈ calls, c.isFresh = true := by
  intro c hc
  cases hstart : c.isStart with
  | true =>
      cases c with
      | startNode _ => rfl
      | finishNode | startList | finishList | startSeparated | finishSeparated | token _ _ _ _
        | pushToken _ | pushNode _ => cases hstart
  | false =>
      have hother : c ∈ events.filterMap Event.call? := by
        rw [← h.others]
        exact List.mem_filter.mpr ⟨hc, by rw [hstart]; rfl⟩
      obtain ⟨event, _, hcall⟩ := List.mem_filterMap.mp hother
      cases event with
      | start _ _ => cases hcall
      | finish | startList | finishList | startSeparated | finishSeparated | token _ | missing _ =>
          cases hcall
          rfl

theorem exists_split_of_getElem? {index : Nat} {event : Event} (h : events[index]? = some event) :
    ∃ front back, events = front ++ event :: back ∧
      ∀ other, events.set index other = front ++ other :: back := by
  obtain ⟨hlt, rfl⟩ := List.getElem?_eq_some_iff.mp h
  refine ⟨events.take index, events.drop (index + 1), ?_, fun other => ?_⟩
  · rw [List.getElem_cons_drop, List.take_append_drop]
  · rw [List.set_eq_take_append_cons_drop, if_pos hlt]

/-- A start that is dealt with is opened, unless its kind has not been decided, and no other
event changes. -/
theorem mark_start {index : Nat} {kind : Kind} {link : Option Nat}
    (h : events[index]? = some (.start kind link)) :
    (events.set index .tombstone).filterMap Event.call? = events.filterMap Event.call? ∧
      (if kind = .tombstone then [] else [kind]).length +
          (events.set index .tombstone).countP Event.opens = events.countP Event.opens := by
  obtain ⟨front, back, rfl, hset⟩ := exists_split_of_getElem? h
  rw [hset]
  refine ⟨?_, ?_⟩
  · rw [List.filterMap_append, List.filterMap_append, List.filterMap_cons_none rfl,
      List.filterMap_cons_none rfl]
  · simp only [List.countP_append, List.countP_cons, Event.opens, Event.tombstone]
    by_cases hkind : kind = .tombstone <;> simp [hkind]
    omega

/-- Following links opens the starts that it deals with, and leaves all other events alone. -/
theorem opens_of_follow {budget index : Nat} {kinds : List Kind} {marked : Segment}
    (h : follow budget index events = .ok (kinds, marked)) :
    marked.length = events.length ∧
      marked.filterMap Event.call? = events.filterMap Event.call? ∧
      kinds.length + marked.countP Event.opens = events.countP Event.opens := by
  induction budget generalizing index events kinds marked with
  | zero => cases h
  | succ budget ih =>
      rw [follow] at h
      split at h
      · rename_i kind link hget
        obtain ⟨hothers, hopens⟩ := mark_start hget
        cases link with
        | none =>
            cases h
            exact ⟨List.length_set, hothers, hopens⟩
        | some distance =>
            obtain ⟨⟨outer, more⟩, hfollow, h⟩ := exists_of_bind h
            cases h
            obtain ⟨hlength, hothers', hopens'⟩ := ih hfollow
            rw [List.length_set] at hlength
            refine ⟨hlength, hothers'.trans hothers, ?_⟩
            rw [List.length_append]
            omega
      · cases h

/-- A replay makes the calls for the events. -/
theorem exists_calls_of_replayFrom {budget : Nat} (hbudget : events.length ≤ budget)
    (h : replayFrom budget events b = .ok next) :
    ∃ calls : List Builder.Call, b.callAll calls = .ok next ∧ events.CallsOf calls := by
  induction budget generalizing events b with
  | zero =>
      obtain rfl := List.eq_nil_of_length_eq_zero (Nat.le_zero.mp hbudget)
      cases h
      exact ⟨[], rfl, rfl, Nat.le_refl _⟩
  | succ budget ih =>
      cases events with
      | nil =>
          cases h
          exact ⟨[], rfl, rfl, Nat.le_refl _⟩
      | cons event rest =>
          have hrest : rest.length ≤ budget := Nat.le_of_succ_le_succ hbudget
          cases hcall : event.call? with
          | some c =>
              rw [replayFrom_call hcall] at h
              obtain ⟨mid, hmid, h⟩ := exists_of_bind h
              obtain ⟨calls, hcalls, hof⟩ := ih hrest h
              exact ⟨c :: calls, by rw [Builder.callAll_cons hmid, hcalls], hof.cons hcall⟩
          | none =>
              cases event with
              | finish | startList | finishList | startSeparated | finishSeparated | token _
                | missing _ => cases hcall
              | start kind link =>
                  -- Nodes are opened for this start, and the replay goes on with what is left.
                  have hopen (kinds : List Kind) {marked : Segment}
                      (hlength : marked.length = rest.length)
                      (hothers : marked.filterMap Event.call? = rest.filterMap Event.call?)
                      (hstarts : kinds.length + marked.countP Event.opens ≤
                        List.countP Event.opens (.start kind link :: rest))
                      (hmore : replayFrom budget marked (kinds.foldl Builder.startNode b) =
                        .ok next) :
                      ∃ calls : List Builder.Call, b.callAll calls = .ok next ∧
                        CallsOf (.start kind link :: rest) calls := by
                    obtain ⟨calls, hcalls, hof⟩ := ih (by omega) hmore
                    refine ⟨kinds.map .startNode ++ calls, ?_,
                      hof.open kinds (hothers.trans (List.filterMap_cons_none rfl).symm) hstarts⟩
                    rw [Builder.callAll_append, Builder.callAll_startNode]
                    exact hcalls
                  unfold replayFrom at h
                  split at h
                  · exact hopen [] rfl rfl (by simp [List.countP_cons, Event.opens]) h
                  · rename_i hkind
                    have hstart : [kind].length + rest.countP Event.opens ≤
                        List.countP Event.opens (.start kind link :: rest) := by
                      simp [List.countP_cons, Event.opens, hkind, Nat.add_comm]
                    split at h
                    · exact hopen [kind] rfl rfl hstart h
                    · exact hopen [kind] rfl rfl hstart h
                    · obtain ⟨⟨outer, marked⟩, hfollow, h⟩ := exists_of_bind h
                      obtain ⟨hlength, hothers, hopens⟩ := opens_of_follow hfollow
                      refine hopen (kind :: outer).reverse hlength hothers ?_ h
                      simp [List.countP_cons, Event.opens, hkind]
                      omega

end Segment

/-! ## Replayed trees -/

namespace Builder

/-- The leaves that a call adds. -/
def Call.leaves : Call → List Token
  | .token kind text leading trailing => [.make kind text leading trailing]
  | .pushToken t => [t]
  | .pushNode e => e.leaves
  | _ => []

/-- A call that closes a node. -/
def Call.isFinish : Call → Bool
  | .finishNode => true
  | _ => false

/-- The leaves of written elements are those that the calls add, in order. -/
theorem Writes.leavesAll_eq {calls : List Call} {es : List Element} (h : Writes calls es) :
    Element.leavesAll es = calls.flatMap Call.leaves := by
  induction h with
  | nil => rfl
  | token _ _ ih | pushToken _ _ ih | pushNode _ _ ih =>
      rw [Element.leavesAll, ih, List.flatMap_cons]
      rfl
  | node _ _ _ ihinner ih | list _ _ _ ihinner ih | separated _ _ _ ihinner ih =>
      change Element.leavesAll _ ++ Element.leavesAll _ = _
      rw [ihinner, ih, List.flatMap_cons, List.flatMap_append, List.flatMap_cons]
      rfl

/-- As many nodes are closed as are opened. -/
theorem Writes.countP_isFinish {calls : List Call} {es : List Element} (h : Writes calls es) :
    calls.countP Call.isFinish = calls.countP Call.isStart := by
  induction h with
  | nil => rfl
  | token _ _ ih | pushToken _ _ ih | pushNode _ _ ih =>
      simpa [List.countP_cons, Call.isFinish, Call.isStart] using ih
  | node _ _ _ ihinner ih | list _ _ _ ihinner ih | separated _ _ _ ihinner ih =>
      simp [List.countP_cons, List.countP_append, Call.isFinish, Call.isStart, ihinner, ih,
        Nat.add_assoc]

end Builder

/-- The leaf that an event adds. -/
def Event.leaf? : Event → Option Token
  | .token t => some (.make t.kind t.text t.leading t.trailing)
  | .missing kind => some (.make kind [] .empty .empty)
  | _ => none

namespace Segment

variable {events : Segment} {root : Element}

theorem CallsOf.flatMap_leaves {calls : List Builder.Call} (h : events.CallsOf calls) :
    calls.flatMap Builder.Call.leaves = events.filterMap Event.leaf? := by
  have hstart : ∀ c ∈ calls, c.isStart = true → c.leaves = [] := by
    intro c _ hstart
    cases c with
    | startNode _ => rfl
    | finishNode | startList | finishList | startSeparated | finishSeparated | token _ _ _ _
      | pushToken _ | pushNode _ => cases hstart
  have hothers : calls.flatMap Builder.Call.leaves =
      (calls.filter fun c => !c.isStart).flatMap Builder.Call.leaves := by
    clear h
    induction calls with
    | nil => rfl
    | cons c rest ih =>
        obtain ⟨hc, hrest⟩ := List.forall_mem_cons.mp hstart
        rw [List.flatMap_cons, ih hrest]
        cases hc' : c.isStart with
        | true => rw [List.filter_cons_of_neg (by simp [hc']), hc hc', List.nil_append]
        | false => rw [List.filter_cons_of_pos (by simp [hc']), List.flatMap_cons]
  rw [hothers, h.others]
  clear h hothers hstart
  induction events with
  | nil => rfl
  | cons event rest ih =>
      cases event <;> simpa [List.filterMap_cons, Event.call?, Event.leaf?, Builder.Call.leaves]

theorem CallsOf.countP_isFinish {calls : List Builder.Call} (h : events.CallsOf calls) :
    calls.countP Builder.Call.isFinish = events.countP (· == .finish) := by
  have hothers : calls.countP Builder.Call.isFinish =
      (calls.filter fun c => !c.isStart).countP Builder.Call.isFinish := by
    rw [List.countP_filter]
    refine List.countP_congr fun c _ => ?_
    cases c <;> simp [Builder.Call.isFinish, Builder.Call.isStart]
  rw [hothers, h.others, List.countP_filterMap]
  refine List.countP_congr fun event _ => ?_
  cases event <;> simp [Event.call?, Builder.Call.isFinish]

/-- A tree that is replayed has been written down by the calls for the events. -/
theorem exists_serializes_of_replay (h : events.replay = .ok root) :
    ∃ calls, events.CallsOf calls ∧ Builder.Serializes calls root := by
  obtain ⟨b, hb, hroot⟩ := exists_of_bind h
  obtain ⟨calls, hcalls, hof⟩ := exists_calls_of_replayFrom (Nat.le_refl _) hb
  refine ⟨calls, hof, Builder.serializes_of_builds (fun c hc => ?_) hcalls hroot⟩
  have hfresh := hof.isFresh c hc
  cases c with
  | pushToken _ | pushNode _ => cases hfresh
  | startNode _ | finishNode | startList | finishList | startSeparated | finishSeparated
    | token _ _ _ _ => trivial

/-- The leaves of a replayed tree are the tokens of the log, each once and in order. -/
theorem leaves_of_replay (h : events.replay = .ok root) :
    root.leaves = events.filterMap Event.leaf? := by
  obtain ⟨calls, hof, hserializes⟩ := exists_serializes_of_replay h
  have hleaves := hserializes.writes.leavesAll_eq
  rw [Element.leavesAll, Element.leavesAll, List.append_nil] at hleaves
  rw [hleaves, hof.flatMap_leaves]

/-- Where a tree is replayed, no more nodes end than have been decided. -/
theorem finishes_le_of_replay (h : events.replay = .ok root) :
    events.countP (· == .finish) ≤ events.countP Event.opens := by
  obtain ⟨calls, hof, hserializes⟩ := exists_serializes_of_replay h
  rw [← hof.countP_isFinish, hserializes.writes.countP_isFinish]
  exact hof.starts

end Segment

end Verbatim
