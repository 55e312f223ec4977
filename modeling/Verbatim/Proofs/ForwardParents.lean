/-
  Forward parents mean wrapping.

  Replayed, what a draft writes makes the calls that open a wrapping node in front of its first
  child, however long the chain of links is and whatever it is nested in; and given these
  calls, a builder puts together what the draft says directly.  A node whose kind has not been
  decided is not opened, but it ends; then one end too many is left, and neither the replay nor
  the direct construction gives a tree.
-/
import Verbatim.Proofs.DraftCalls
import Verbatim.Proofs.EventLinks
import Verbatim.Proofs.MarkerLogs

set_option autoImplicit false

namespace Verbatim

/-! ## Replay -/

namespace Segment

/-- Replaying the piece is making the calls, whatever comes behind it. -/
def Makes (events : Segment) (calls : List Builder.Call) : Prop :=
  ∀ (budget : Nat) (rest : Segment) (b : Builder),
    replayFrom (events.length + budget) (events ++ rest) b =
      b.callAll calls >>= replayFrom budget rest

variable {events more : Segment} {calls others : List Builder.Call}

theorem makes_nil : Makes [] [] := by
  intro budget rest b
  rw [List.length_nil, Nat.zero_add]
  rfl

theorem makes_singleton (event : Event) {c : Builder.Call} (h : event.call? = some c) :
    Makes [event] [c] := by
  intro budget rest b
  rw [List.length_singleton, Nat.add_comm, List.singleton_append, replayFrom_call h,
    Builder.callAll]
  cases b.call c <;> rfl

theorem Makes.append (h : events.Makes calls) (h' : more.Makes others) :
    Makes (events ++ more) (calls ++ others) := by
  intro budget rest b
  rw [List.length_append, Nat.add_assoc, List.append_assoc, h, Builder.callAll_append, bind_assoc]
  exact congrArg _ (funext fun mid => h' budget rest mid)

/-- Events on both sides of a piece, and what comes behind them. -/
theorem Makes.enclose (h : events.Makes calls) (first last : Event) {c c' : Builder.Call}
    (hfirst : first.call? = some c) (hlast : last.call? = some c') (hmore : more.Makes others) :
    Makes (first :: (events ++ [last]) ++ more) (c :: (calls ++ c' :: others)) := by
  have hall := (makes_singleton first hfirst).append
    (h.append ((makes_singleton last hlast).append hmore))
  rw [List.cons_append, List.append_assoc, List.singleton_append]
  exact hall

/-- The whole output of a parser is replayed by making the calls. -/
theorem Makes.replay_eq (h : events.Makes calls) :
    events.replay = Builder.empty.callAll calls >>= Builder.finish := by
  have hreplay := h 0 [] .empty
  rw [Nat.add_zero, List.append_nil] at hreplay
  rw [replay, hreplay]
  cases Builder.empty.callAll calls <;> rfl

end Segment

namespace Completed

/-- Behind calls that are made in an open node, a piece and the end of the node make theirs. -/
theorem closes_of_makes {inner : Segment} {calls : List Builder.Call} (h : inner.Makes calls)
    (kind : Kind) (before : List Builder.Call) :
    Closes kind (fun b => b.callAll before) inner
      fun b => b.callAll (.startNode kind :: (before ++ (calls ++ [.finishNode]))) := by
  intro budget rest b
  have hpiece := h.append (Segment.makes_singleton .finish rfl)
  have hrest (mid : Builder) :
      Segment.replayFrom (inner.length + 1 + budget) (inner ++ .finish :: rest) mid =
        mid.callAll (calls ++ [.finishNode]) >>= Segment.replayFrom budget rest := by
    have hmid := hpiece budget rest mid
    rwa [List.length_append, List.length_singleton, List.append_assoc,
      List.singleton_append] at hmid
  have hopen : b.call (.startNode kind) = .ok (b.startNode kind) := rfl
  simp only [Builder.callAll_cons hopen]
  rw [Builder.callAll_append, bind_assoc]
  exact congrArg _ (funext hrest)

theorem Runs.makes {c : Completed} {calls : List Builder.Call}
    (h : c.Runs fun b => b.callAll calls) : c.events.Makes calls :=
  h.replay

end Completed

mutual

/-- Where all kinds have been decided, the output of a draft makes its calls. -/
theorem Draft.makes : ∀ d : Draft, (∀ c ∈ d.calls, c.isUndecided = false) →
    d.segment.Makes d.calls
  | .done, _ => Segment.makes_nil
  | .token t rest, h => by
      rw [Draft.calls, List.forall_mem_cons] at h
      exact (Segment.makes_singleton (.token t) rfl).append (rest.makes h.2)
  | .missing kind rest, h => by
      rw [Draft.calls, List.forall_mem_cons] at h
      exact (Segment.makes_singleton (.missing kind) rfl).append (rest.makes h.2)
  | .list inner rest, h => by
      rw [Draft.calls, List.forall_mem_cons, List.forall_mem_append, List.forall_mem_cons] at h
      exact (inner.makes h.2.1).enclose .startList .finishList rfl rfl (rest.makes h.2.2.2)
  | .separated inner rest, h => by
      rw [Draft.calls, List.forall_mem_cons, List.forall_mem_append, List.forall_mem_cons] at h
      exact (inner.makes h.2.1).enclose .startSeparated .finishSeparated rfl rfl
        (rest.makes h.2.2.2)
  | .node first rest, h => by
      rw [Draft.calls, List.forall_mem_append] at h
      exact (first.runs h.1).makes.append (rest.makes h.2)

theorem NodeDraft.runs : ∀ n : NodeDraft, (∀ c ∈ n.calls, c.isUndecided = false) →
    n.completed.Runs fun b => b.callAll n.calls
  | .complete inner kind, h => by
      rw [NodeDraft.calls, List.forall_mem_cons, List.forall_mem_append] at h
      exact Completed.runs_node (by simpa [Builder.Call.isUndecided] using h.1)
        (Completed.closes_of_makes (inner.makes h.2.1) kind [])
  | .precede first inner kind, h => by
      rw [NodeDraft.calls, List.forall_mem_cons, List.forall_mem_append,
        List.forall_mem_append] at h
      -- The link makes the calls for the first child run inside of the new node.
      exact (first.runs h.2.1).wrap (by simpa [Builder.Call.isUndecided] using h.1)
        (Completed.closes_of_makes (inner.makes h.2.2.1) kind first.calls)

end

/-! ## Undecided kinds -/

/-- Around a piece, a node has an end, and a start that opens it if its kind is decided. -/
theorem Segment.countP_finish_node {inner : Segment} {undecided : Nat}
    (h : inner.countP (· == .finish) = inner.countP Event.opens + undecided) (kind : Kind) :
    (node kind inner).countP (· == .finish) = (node kind inner).countP Event.opens +
      (undecided + if kind == .tombstone then 1 else 0) := by
  have hfinish : (node kind inner).countP (· == .finish) = inner.countP (· == .finish) + 1 := by
    simp [node]
  have hopens : (node kind inner).countP Event.opens =
      inner.countP Event.opens + if kind == .tombstone then 0 else 1 := by
    by_cases hkind : kind = .tombstone <;> simp [node, List.countP_cons, Event.opens, hkind]
  rw [hfinish, hopens, h]
  split <;> omega

mutual

/-- In what a draft writes, the ends that have no start are those of nodes without a kind. -/
theorem Draft.countP_finish : ∀ d : Draft,
    d.segment.countP (· == .finish) =
      d.segment.countP Event.opens + d.calls.countP Builder.Call.isUndecided
  | .done => rfl
  | .token t rest => rest.countP_finish
  | .missing kind rest => rest.countP_finish
  | .list inner rest | .separated inner rest => by
      have hinner := inner.countP_finish
      have hrest := rest.countP_finish
      simp [Draft.segment, Draft.calls, Segment.list, Segment.separated, Event.opens,
        Builder.Call.isUndecided]
      omega
  | .node first rest => by
      have hfirst := first.countP_finish
      have hrest := rest.countP_finish
      rw [Draft.segment, Draft.calls, List.countP_append, List.countP_append, List.countP_append]
      omega

theorem NodeDraft.countP_finish : ∀ n : NodeDraft,
    n.completed.events.countP (· == .finish) =
      n.completed.events.countP Event.opens + n.calls.countP Builder.Call.isUndecided
  | .complete inner kind => by
      have hnode := Segment.countP_finish_node inner.countP_finish kind
      have hcalls : (NodeDraft.complete inner kind).calls.countP Builder.Call.isUndecided =
          inner.calls.countP Builder.Call.isUndecided + if kind == .tombstone then 1 else 0 := by
        simp [NodeDraft.calls, List.countP_cons, Builder.Call.isUndecided]
      rw [NodeDraft.completed, Completed.node, hcalls, hnode]
  | .precede first inner kind => by
      have hfirst := first.countP_finish
      have hnode := Segment.countP_finish_node inner.countP_finish kind
      have hcalls : (NodeDraft.precede first inner kind).calls.countP Builder.Call.isUndecided =
          first.calls.countP Builder.Call.isUndecided +
            (inner.calls.countP Builder.Call.isUndecided +
              if kind == .tombstone then 1 else 0) := by
        simp [NodeDraft.calls, List.countP_cons, Builder.Call.isUndecided, Nat.add_assoc]
      rw [NodeDraft.completed, Completed.wrap, List.countP_append, List.countP_append,
        Segment.countP_setLink (fun _ _ _ => rfl), Segment.countP_setLink (fun _ _ _ => rfl),
        hcalls, hnode, hfirst]
      omega

end

/-! ## Links -/

mutual

/-- Every link that a draft writes leads forward to a start. -/
theorem Draft.linked : ∀ d : Draft, d.segment.Linked
  | .done => Segment.linked_nil
  | .token t rest => (Segment.linked_singleton (.token t) fun _ _ => nofun).append rest.linked
  | .missing kind rest =>
      (Segment.linked_singleton (.missing kind) fun _ _ => nofun).append rest.linked
  | .list inner rest => inner.linked.list.append rest.linked
  | .separated inner rest => inner.linked.separated.append rest.linked
  | .node first rest => first.linked.append rest.linked

theorem NodeDraft.linked : ∀ n : NodeDraft, n.completed.events.Linked
  | .complete inner kind => inner.linked.node kind
  | .precede first inner kind => by
      -- The new link replaces that of the outermost start, and leads to the start of this node.
      obtain ⟨before, outerKind, back, hevents, houter⟩ := first.exists_outer
      have hlt : first.completed.outer < first.completed.events.length := by
        rw [hevents, List.length_append, List.length_cons, houter]
        omega
      have hset : first.completed.events.setLink first.completed.outer
            (first.completed.events.length - first.completed.outer) =
          first.completed.events.set first.completed.outer
            (.start outerKind (some (first.completed.events.length - first.completed.outer))) := by
        generalize first.completed.events.length - first.completed.outer = distance
        rw [hevents, ← houter, Segment.setLink_append, Segment.setLink,
          List.set_append_right _ _ (Nat.le_refl _), Nat.sub_self, List.set_cons_zero]
      rw [NodeDraft.completed, Completed.wrap, hset]
      exact first.linked.link (inner.linked.node kind) rfl rfl hlt outerKind

end

/-! ## Direct construction -/

mutual

/-- The output of a draft stands for the elements that the draft builds. -/
theorem Draft.stands : ∀ (d : Draft) {es : List Element}, d.build = .ok es → d.segment.Stands es
  | .done, es, h => by
      cases h
      exact Segment.stands_nil
  | .token t rest, es, h => by
      obtain ⟨token, htoken, h⟩ := exists_of_bind h
      obtain ⟨more, hrest, h⟩ := exists_of_bind h
      obtain ⟨hkind, rfl⟩ := Token.eq_of_new htoken
      cases h
      exact (Segment.stands_token hkind).append (rest.stands hrest)
  | .missing kind rest, es, h => by
      obtain ⟨token, htoken, h⟩ := exists_of_bind h
      obtain ⟨more, hrest, h⟩ := exists_of_bind h
      obtain ⟨hkind, rfl⟩ := Token.eq_of_new htoken
      cases h
      exact (Segment.stands_missing hkind).append (rest.stands hrest)
  | .list inner rest, es, h => by
      obtain ⟨nodes, hinner, h⟩ := exists_of_bind h
      obtain ⟨_, hnodes, h⟩ := exists_of_bind h
      obtain ⟨more, hrest, h⟩ := exists_of_bind h
      cases h
      exact ((inner.stands hinner).list (Builder.isNode_of_requireNodes hnodes)).append
        (rest.stands hrest)
  | .separated inner rest, es, h => by
      obtain ⟨slots, hinner, h⟩ := exists_of_bind h
      obtain ⟨_, hslots, h⟩ := exists_of_bind h
      split at h
      · rename_i list hlist
        obtain ⟨more, hrest, h⟩ := exists_of_bind h
        obtain ⟨_, hcheck, hlist⟩ := exists_of_bind hlist
        cases h
        cases hlist
        have hroles := Builder.isSlot_of_requireSlots hslots
        exact ((inner.stands hinner).separated hroles hcheck).append (rest.stands hrest)
      · cases h
  | .node first rest, es, h => by
      obtain ⟨e, hfirst, h⟩ := exists_of_bind h
      obtain ⟨more, hrest, h⟩ := exists_of_bind h
      cases h
      exact (first.stands hfirst).segment.append (rest.stands hrest)

theorem NodeDraft.stands : ∀ (n : NodeDraft) {e : Element}, n.build = .ok e →
    n.completed.Stands e
  | .complete inner kind, e, h => by
      obtain ⟨children, hinner, h⟩ := exists_of_bind h
      obtain ⟨hkind, rfl⟩ := Element.eq_of_newNode h
      exact Completed.stands_node (inner.stands hinner) hkind
  | .precede first inner kind, e, h => by
      obtain ⟨child, hfirst, h⟩ := exists_of_bind h
      obtain ⟨children, hinner, h⟩ := exists_of_bind h
      obtain ⟨hkind, rfl⟩ := Element.eq_of_newNode h
      exact (first.stands hfirst).wrap (inner.stands hinner) hkind

end

namespace Draft

variable {d : Draft} {root : Element}

theorem build_of_tree (h : d.tree = .ok root) : d.build = .ok [root] ∧ root.isNode = true := by
  obtain ⟨es, hbuild, h⟩ := exists_of_bind h
  split at h
  · cases h
    exact ⟨hbuild, rfl⟩
  · cases h

/-- A draft that builds one node is replayed into this node. -/
theorem replay_of_tree (h : d.tree = .ok root) : d.segment.replay = .ok root := by
  obtain ⟨hbuild, hroot⟩ := build_of_tree h
  exact (d.stands hbuild).replay_eq hroot

/-- A draft that is replayed into a tree has no node without a kind. -/
theorem forall_decided_of_replay (h : d.segment.replay = .ok root) :
    ∀ c ∈ d.calls, c.isUndecided = false := by
  have hcount := d.countP_finish
  have hle := Segment.finishes_le_of_replay h
  have hzero : d.calls.countP Builder.Call.isUndecided = 0 := by omega
  intro c hc
  exact Bool.eq_false_iff.mpr (List.countP_eq_zero.mp hzero c hc)

/-- What a draft is replayed into is what it builds. -/
theorem tree_of_replay (h : d.segment.replay = .ok root) : d.tree = .ok root := by
  rw [(d.makes (forall_decided_of_replay h)).replay_eq] at h
  obtain ⟨b, hb, hfinish⟩ := exists_of_bind h
  obtain ⟨es, hbuild, rfl⟩ := d.exists_build hb
  rw [tree, hbuild]
  simp only [Builder.finish, Builder.pushAll, Builder.empty, List.isEmpty_nil, if_true,
    List.nil_append] at hfinish
  split at hfinish
  · cases hfinish
    rfl
  · cases hfinish

/-- Forward parents mean wrapping.  A draft within the limit of positions can be written, and
what it writes is replayed into a tree exactly if the draft itself builds this tree, where a
completion closes a node over what has been written since its start, and a node that precedes a
completed one has that one as its first child.  The leaves of the tree are the tokens that have
been written and those that are missing, each once and in order.  Where there is no tree, it is
the builder that refuses a call; every link leads to a start. -/
theorem replay_iff_tree (d : Draft) (hsize : d.size < Offset.limit) :
    ∃ events, d.write.run [] = .ok ((), events) ∧ events.length = d.size ∧
      (∀ root, events.replay = .ok root ↔ d.tree = .ok root) ∧
      (∀ root, events.replay = .ok root → root.leaves = events.filterMap Event.leaf?) ∧
      ∀ fault, events.replay = .error fault → fault.isRefusal = true := by
  refine ⟨d.segment, ?_, d.length_segment, fun root => ⟨tree_of_replay, replay_of_tree⟩,
    fun root => Segment.leaves_of_replay, d.linked.refuses_replay⟩
  exact d.run_write [] (by rwa [List.length_nil, Nat.zero_add])

/-- A token without trivia, wherever it stands. -/
def plainToken (kind : Kind) (text : String) : ScannedToken :=
  ⟨.empty, kind, 0, 0, text.toList, .empty⟩

/-- A name. -/
def plainName (text : String) : NodeDraft :=
  .complete (.token (plainToken .identifier text) .done) .nameExpression

/-- An access to a member of what has been completed. -/
def memberOf (first : NodeDraft) (name : String) : NodeDraft :=
  .precede first
    (.token (plainToken .dot ".") (.token (plainToken .identifier name) .done))
    .memberAccessExpression

/-- The source unit `f(a.b).c`, with a missing semicolon.  One chain of nodes that precede
others has another one in it, below a separated list. -/
def memberOfCall : Draft :=
  let arguments : NodeDraft := .complete
    (.token (plainToken .openParen "(") (.separated (.node (memberOf (plainName "a") "b") .done)
      (.token (plainToken .closeParen ")") .done)))
    .argumentList
  let call : NodeDraft := .precede (plainName "f") (.node arguments .done) .invocationExpression
  let statement : NodeDraft := .complete
    (.node (memberOf call "c") (.missing .semicolon .done)) .expressionStatement
  .node (.complete (.list (.node statement .done) (.token (plainToken .eof "") .done)) .sourceUnit)
    .done

/-- The tree of the source unit. -/
def memberOfCallTree : Element :=
  let leaf (kind : Kind) (text : String) : Element :=
    .token (.make kind text.toList .empty .empty)
  let name (text : String) : Element := .makeNode .nameExpression [leaf .identifier text]
  let member (first : Element) (text : String) : Element :=
    .makeNode .memberAccessExpression [first, leaf .dot ".", leaf .identifier text]
  let slots := [member (name "a") "b"]
  let arguments := Element.makeNode .argumentList
    [leaf .openParen "(", .separated (Element.measureAll slots) slots, leaf .closeParen ")"]
  let call := Element.makeNode .invocationExpression [name "f", arguments]
  let statement :=
    Element.makeNode .expressionStatement [member call "c", leaf .semicolon ""]
  .makeNode .sourceUnit [.makeList [statement], leaf .eof ""]

/-- The outer chain is opened in front of its first name, and the inner one where it stands. -/
theorem replay_iff_tree_memberOfCall :
    memberOfCall.size < Offset.limit ∧ memberOfCall.tree = .ok memberOfCallTree ∧
      ∃ events, memberOfCall.write.run [] = .ok ((), events) ∧ events.length = 30 ∧
        events.replay = .ok memberOfCallTree ∧
        memberOfCallTree.leaves = events.filterMap Event.leaf? := by
  have hsize : memberOfCall.size < Offset.limit := by decide
  have htree : memberOfCall.tree = .ok memberOfCallTree := rfl
  obtain ⟨events, hrun, hlength, hiff, hleaves, _⟩ := replay_iff_tree memberOfCall hsize
  have hreplay := (hiff memberOfCallTree).mpr htree
  exact ⟨hsize, htree, events, hrun, hlength, hreplay, hleaves memberOfCallTree hreplay⟩

end Draft

end Verbatim
