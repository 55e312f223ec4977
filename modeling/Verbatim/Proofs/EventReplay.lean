/-
  The elements that parse events stand for.

  A piece of output stands for elements if replaying it, whatever comes behind it,
  adds exactly these elements to the builder.  The property is closed under
  everything a production does with output: putting pieces one behind the other,
  closing a node or a list over a piece, and making a finished node the first
  child of a larger one.  The last is the delicate case: the larger node starts
  later in the list, and the replay has to find it by its link and open it first.
-/
import Verbatim.Parse.Event

set_option autoImplicit false

namespace Verbatim

/-! ## What a builder takes -/

namespace Builder

/-- The builder has a place for the element: a list takes nodes, a separated list
takes nodes and tokens, and only a node stands outside of everything. -/
def admits (b : Builder) (e : Element) : Bool :=
  match b.opened with
  | [] => e.isNode
  | .node .. :: _ => true
  | .list _ :: _ => e.isNode
  | .separated _ :: _ => e.isNode || e.isToken

/-- Adds finished elements. -/
def pushAll (b : Builder) (es : List Element) : Builder :=
  { b with finished := b.finished ++ es }

@[simp] theorem pushAll_nil (b : Builder) : b.pushAll [] = b := by
  simp [pushAll]

@[simp] theorem pushAll_pushAll (b : Builder) (xs ys : List Element) :
    (b.pushAll xs).pushAll ys = b.pushAll (xs ++ ys) := by
  simp [pushAll]

theorem pushToken_eq {b : Builder} {t : Token} (h : b.admits (.token t) = true) :
    b.pushToken t = .ok (b.pushAll [.token t]) := by
  unfold admits at h
  unfold pushToken innermost
  split at h
  · cases h
  · rename_i hopened
    rw [hopened]
    rfl
  · cases h
  · rename_i hopened
    rw [hopened]
    rfl

theorem token_eq {b : Builder} {kind : Kind} (hkind : kind.isToken = true) {text : Text}
    {leading trailing : TriviaList}
    (h : b.admits (.token (.make kind text leading trailing)) = true) :
    b.token kind text leading trailing =
      .ok (b.pushAll [.token (.make kind text leading trailing)]) := by
  unfold token Token.new
  rw [if_pos hkind]
  exact pushToken_eq h

/-- A node is closed over everything that was added since it was opened. -/
theorem finishNode_pushAll (b : Builder) {kind : Kind} (hkind : kind.isNode = true)
    (es : List Element) :
    ((b.startNode kind).pushAll es).finishNode = .ok (b.pushAll [.makeNode kind es]) := by
  simp [finishNode, innermost, startNode, pushAll, Element.newNode, hkind, close, bind, Except.bind,
    pure, Except.pure]

theorem requireNodes_eq {es : List Element} (h : ∀ e ∈ es, e.isNode = true) :
    requireNodes es = .ok () := by
  induction es with
  | nil => rfl
  | cons e rest ih =>
      obtain ⟨he, hrest⟩ := List.forall_mem_cons.mp h
      rw [requireNodes, if_pos he, ih hrest]

theorem requireSlots_eq {es : List Element} (h : ∀ e ∈ es, (e.isNode || e.isToken) = true) :
    requireSlots es = .ok () := by
  induction es with
  | nil => rfl
  | cons e rest ih =>
      obtain ⟨he, hrest⟩ := List.forall_mem_cons.mp h
      rw [requireSlots, if_pos he, ih hrest]

/-- Where a builder takes a list, a node is open. -/
theorem requireNode_eq {b : Builder} {e : Element} (hnode : e.isNode = false)
    (htoken : e.isToken = false) (h : b.admits e = true) : b.requireNode = .ok () := by
  unfold admits at h
  unfold requireNode innermost
  split at h
  · rw [hnode] at h
    cases h
  · rename_i hopened
    rw [hopened]
    rfl
  · rw [hnode] at h
    cases h
  · rw [hnode, htoken] at h
    cases h

end Builder

/-! ## Pieces of output -/

namespace Segment

attribute [local simp] replayFrom

/-- Replaying the piece adds the elements, whatever comes behind it. -/
def Stands (events : Segment) (es : List Element) : Prop :=
  ∀ (budget : Nat) (rest : Segment) (b : Builder), (∀ e ∈ es, b.admits e = true) →
    replayFrom (events.length + budget) (events ++ rest) b =
      replayFrom budget rest (b.pushAll es)

theorem stands_nil : Stands [] [] := by
  intro budget rest b _
  simp

theorem Stands.append {a b : Segment} {xs ys : List Element} (ha : a.Stands xs)
    (hb : b.Stands ys) : Stands (a ++ b) (xs ++ ys) := by
  intro budget rest builder hadmits
  have hxs := fun e he => hadmits e (List.mem_append_left ys he)
  have hys := fun e he => hadmits e (List.mem_append_right xs he)
  rw [List.length_append, Nat.add_assoc, List.append_assoc, ha _ _ _ hxs,
    hb _ _ (builder.pushAll xs) hys, Builder.pushAll_pushAll]

theorem stands_token {t : ScannedToken} (hkind : t.kind.isToken = true) :
    Stands [.token t] [.token (.make t.kind t.text t.leading t.trailing)] := by
  intro budget rest b hadmits
  rw [List.length_singleton, Nat.add_comm, List.singleton_append, replayFrom,
    Builder.token_eq hkind (hadmits _ (List.mem_singleton_self _))]
  rfl

theorem stands_missing {kind : Kind} (hkind : kind.isToken = true) :
    Stands [.missing kind] [.token (.make kind [] .empty .empty)] := by
  intro budget rest b hadmits
  have htoken := Builder.token_eq hkind (hadmits _ (List.mem_singleton_self _))
  rw [List.length_singleton, Nat.add_comm, List.singleton_append, replayFrom,
    show b.missing kind = b.token kind [] .empty .empty from rfl, htoken]
  rfl

/-- A kind of nodes is a decided kind. -/
theorem ne_tombstone_of_isNode {kind : Kind} (h : kind.isNode = true) : kind ≠ .tombstone := by
  rintro rfl
  cases h

/-- The rest of a node that is open: what is inside, and its end. -/
theorem Stands.replay_finish {inner : Segment} {es : List Element} (h : inner.Stands es)
    {kind : Kind} (hkind : kind.isNode = true) (budget : Nat) (rest : Segment) (b : Builder)
    (before : List Element) :
    replayFrom (inner.length + 1 + budget) (inner ++ .finish :: rest)
        ((b.startNode kind).pushAll before) =
      replayFrom budget rest (b.pushAll [.makeNode kind (before ++ es)]) := by
  rw [Nat.add_assoc, h _ _ _ (fun _ _ => rfl), Builder.pushAll_pushAll, Nat.add_comm 1, replayFrom,
    Builder.finishNode_pushAll b hkind]
  rfl

theorem Stands.list {inner : Segment} {es : List Element} (h : inner.Stands es)
    (hnodes : ∀ e ∈ es, e.isNode = true) : Stands (Segment.list inner) [.makeList es] := by
  intro budget rest b hadmits
  have hopen := Builder.requireNode_eq rfl rfl (hadmits _ (List.mem_singleton_self _))
  rw [show (Segment.list inner).length + budget = inner.length + (budget + 1) + 1 by
      simp only [Segment.list, List.length_cons, List.length_append, List.length_nil]; omega]
  simp only [Segment.list, List.cons_append, List.append_assoc, List.nil_append, replayFrom,
    Builder.startList, hopen, bind, Except.bind, pure, Except.pure]
  rw [h _ _ ⟨.list b.finished.length :: b.opened, b.finished⟩ hnodes]
  simp [Builder.finishList, Builder.innermost, Builder.pushAll, bind, Except.bind, pure,
    Except.pure, Builder.requireNodes_eq hnodes, Builder.close]

theorem Stands.separated {inner : Segment} {es : List Element} (h : inner.Stands es)
    (hslots : ∀ e ∈ es, (e.isNode || e.isToken) = true)
    (halternate : Element.checkSlots 0 es = .ok ()) :
    Stands (Segment.separated inner) [.separated (Element.measureAll es) es] := by
  intro budget rest b hadmits
  have hopen := Builder.requireNode_eq rfl rfl (hadmits _ (List.mem_singleton_self _))
  rw [show (Segment.separated inner).length + budget = inner.length + (budget + 1) + 1 by
      simp only [Segment.separated, List.length_cons, List.length_append, List.length_nil]; omega]
  simp only [Segment.separated, List.cons_append, List.append_assoc, List.nil_append, replayFrom,
    Builder.startSeparated, hopen, bind, Except.bind, pure, Except.pure]
  rw [h _ _ ⟨.separated b.finished.length :: b.opened, b.finished⟩ hslots]
  simp [Builder.finishSeparated, Builder.innermost, Builder.pushAll, bind, Except.bind,
    pure, Except.pure, Builder.requireSlots_eq hslots, Element.newSeparated, halternate,
    Builder.close]

/-- The whole output of a parser, standing for one node, is replayed into it. -/
theorem Stands.replay_eq {events : Segment} {root : Element} (h : events.Stands [root])
    (hroot : root.isNode = true) : events.replay = .ok root := by
  have hreplay := h 0 [] .empty (List.forall_mem_singleton.mpr hroot)
  rw [List.append_nil, Nat.add_zero] at hreplay
  unfold replay
  rw [hreplay]
  cases root with
  | node kind measure children => rfl
  | token _ => cases hroot
  | list _ _ => cases hroot
  | separated _ _ => cases hroot

/-! ## Links -/

theorem length_setLink (events : Segment) (index link : Nat) :
    (events.setLink index link).length = events.length := by
  induction events generalizing index with
  | nil => rfl
  | cons e rest ih =>
      cases index with
      | zero => cases e <;> rfl
      | succ index => cases e <;> simp only [setLink, List.length_cons, ih]

theorem setLink_append (a b : Segment) (link : Nat) :
    setLink (a ++ b) a.length link = a ++ setLink b 0 link := by
  induction a with
  | nil => rfl
  | cons e rest ih =>
      rw [List.cons_append, List.length_cons, List.cons_append]
      cases e <;> simp only [setLink, ih]

/-- Following links from a position of the piece meets the kinds, innermost first,
and marks their starts, whatever stands before the piece. -/
def Resolves (piece : Segment) (position : Nat) (kinds : List Kind) (marked : Segment) : Prop :=
  ∀ (before : Segment) (fuel : Nat), piece.length ≤ fuel + position →
    follow (fuel + 1) (before.length + position) (before ++ piece) = .ok (kinds, before ++ marked)

/-- Following links from a start: the start is marked, and the search goes on if it
has a link. -/
theorem follow_start (before rest : Segment) {kind : Kind} (hkind : kind ≠ .tombstone)
    (link : Option Nat) (fuel : Nat) :
    follow (fuel + 1) before.length (before ++ .start kind link :: rest) =
      match link with
      | none => .ok ([kind], before ++ .tombstone :: rest)
      | some distance => do
          let (outer, marked) ←
            follow fuel (before.length + distance) (before ++ .tombstone :: rest)
          return (kind :: outer, marked) := by
  have hget : (before ++ .start kind link :: rest)[before.length]? = some (.start kind link) := by
    simp
  have hset : (before ++ .start kind link :: rest).set before.length .tombstone =
      before ++ .tombstone :: rest := by
    simp
  rw [follow, hget]
  simp only [if_neg hkind, hset]
  cases link <;> rfl

/-- A start without a link ends the search. -/
theorem resolves_start {kind : Kind} (hkind : kind ≠ .tombstone) (rest : Segment) :
    Resolves (.start kind none :: rest) 0 [kind] (.tombstone :: rest) := by
  intro before fuel _
  exact follow_start before rest hkind none fuel

/-- A start with a link goes on where the link points. -/
theorem Resolves.start {rest marked : Segment} {position : Nat} {kinds : List Kind}
    (h : Resolves rest position kinds marked) {kind : Kind} (hkind : kind ≠ .tombstone) :
    Resolves (.start kind (some (position + 1)) :: rest) 0 (kind :: kinds)
      (.tombstone :: marked) := by
  intro before fuel hfuel
  rw [List.length_cons] at hfuel
  obtain ⟨fuel, rfl⟩ : ∃ n, fuel = n + 1 := ⟨fuel - 1, by omega⟩
  have hnext := h (before ++ [.tombstone]) fuel (by omega)
  rw [List.length_append, List.length_singleton, List.append_assoc, List.singleton_append,
    List.append_assoc, List.singleton_append, Nat.add_assoc, Nat.add_comm 1] at hnext
  have hhere := follow_start before rest hkind (some (position + 1)) (fuel + 1)
  simp only [hnext, bind, Except.bind] at hhere
  exact hhere

/-- What stands before the target is passed over. -/
theorem Resolves.append {piece marked : Segment} {position : Nat} {kinds : List Kind}
    (h : Resolves piece position kinds marked) (between : Segment) :
    Resolves (between ++ piece) (between.length + position) kinds (between ++ marked) := by
  intro before fuel hfuel
  rw [List.length_append] at hfuel
  have hlater := h (before ++ between) fuel (by omega)
  rwa [List.length_append, List.append_assoc, List.append_assoc, Nat.add_assoc] at hlater

end Segment

/-! ## Completed output -/

namespace Event

/-- A node starts. -/
def isStart : Event → Bool
  | .start .. => true
  | _ => false

/-- The kind of a node that starts has been decided. -/
def isDecided : Event → Bool
  | .start kind _ => kind.isNode
  | _ => true

end Event

namespace Segment

/-- Every node that is started has a kind, and everything that is started is
finished. -/
structure Balanced (events : Segment) : Prop where
  decided : ∀ e ∈ events, e.isDecided = true
  nodes : events.countP Event.isStart = events.countP (· == .finish)
  lists : events.countP (· == .startList) = events.countP (· == .finishList)
  separatedLists : events.countP (· == .startSeparated) = events.countP (· == .finishSeparated)

theorem balanced_nil : Balanced [] :=
  ⟨List.forall_mem_nil _, rfl, rfl, rfl⟩

theorem balanced_token (t : ScannedToken) : Balanced [.token t] :=
  ⟨by simp [Event.isDecided], rfl, rfl, rfl⟩

theorem balanced_missing (kind : Kind) : Balanced [.missing kind] :=
  ⟨by simp [Event.isDecided], rfl, rfl, rfl⟩

theorem Balanced.append {a b : Segment} (ha : a.Balanced) (hb : b.Balanced) :
    Balanced (a ++ b) where
  decided := by
    intro e he
    rcases List.mem_append.mp he with he | he
    · exact ha.decided e he
    · exact hb.decided e he
  nodes := by simp only [List.countP_append, ha.nodes, hb.nodes]
  lists := by simp only [List.countP_append, ha.lists, hb.lists]
  separatedLists := by simp only [List.countP_append, ha.separatedLists, hb.separatedLists]

/-- Closing balanced output with a pair of events that match. -/
theorem Balanced.enclose {inner : Segment} (h : inner.Balanced) {first last : Event}
    (hpair : Balanced [first, last]) : Balanced (first :: (inner ++ [last])) := by
  have hperm : (first :: (inner ++ [last])).Perm ([first, last] ++ inner) := by
    refine .cons first ?_
    exact List.perm_append_comm
  have hall := hpair.append h
  exact ⟨fun e he => hall.decided e (hperm.mem_iff.mp he),
    by rw [hperm.countP_eq, hperm.countP_eq, hall.nodes],
    by rw [hperm.countP_eq, hperm.countP_eq, hall.lists],
    by rw [hperm.countP_eq, hperm.countP_eq, hall.separatedLists]⟩

theorem Balanced.node {inner : Segment} (h : inner.Balanced) {kind : Kind}
    (hkind : kind.isNode = true) : Balanced (Segment.node kind inner) :=
  h.enclose ⟨by simp [Event.isDecided, hkind], rfl, rfl, rfl⟩

theorem Balanced.list {inner : Segment} (h : inner.Balanced) : Balanced (Segment.list inner) :=
  h.enclose ⟨by simp [Event.isDecided], rfl, rfl, rfl⟩

theorem Balanced.separated {inner : Segment} (h : inner.Balanced) :
    Balanced (Segment.separated inner) :=
  h.enclose ⟨by simp [Event.isDecided], rfl, rfl, rfl⟩

/-- A link changes nothing that can be seen without it. -/
theorem countP_setLink {p : Event → Bool}
    (hp : ∀ kind link link', p (.start kind link) = p (.start kind link')) (events : Segment)
    (index link : Nat) : (events.setLink index link).countP p = events.countP p := by
  induction events generalizing index with
  | nil => rfl
  | cons e rest ih =>
      cases index with
      | zero =>
          cases e with
          | start kind old => simp only [setLink, List.countP_cons, hp kind (some link) old]
          | _ => rfl
      | succ index => cases e <;> simp only [setLink, List.countP_cons, ih]

theorem Balanced.setLink {events : Segment} (h : events.Balanced) (index link : Nat) :
    Balanced (Segment.setLink events index link) where
  decided := by
    have hcount := countP_setLink (p := fun e => !e.isDecided) (fun _ _ _ => rfl) events index link
    have hzero : events.countP (fun e => !e.isDecided) = 0 :=
      List.countP_eq_zero.mpr fun e he => by simp [h.decided e he]
    rw [hzero] at hcount
    intro e he
    simpa using List.countP_eq_zero.mp hcount e he
  nodes := by rw [countP_setLink (fun _ _ _ => rfl), countP_setLink (fun _ _ _ => rfl), h.nodes]
  lists := by rw [countP_setLink (fun _ _ _ => rfl), countP_setLink (fun _ _ _ => rfl), h.lists]
  separatedLists := by
    rw [countP_setLink (fun _ _ _ => rfl), countP_setLink (fun _ _ _ => rfl), h.separatedLists]

theorem Balanced.wrap {c : Completed} (hc : c.events.Balanced) {inner : Segment}
    (h : inner.Balanced) {kind : Kind} (hkind : kind.isNode = true) :
    (c.wrap kind inner).events.Balanced :=
  (hc.setLink _ _).append (h.node hkind)

end Segment

/-! ## Finished nodes -/

/-- Replaying the output of a finished node is running `f`, and inside of the nodes that a link
from its outermost start leads to, it is running `f` there. -/
structure Completed.Runs (c : Completed) (f : Builder → Except Fault Builder) : Prop where
  replay : ∀ (budget : Nat) (rest : Segment) (b : Builder),
    Segment.replayFrom (c.events.length + budget) (c.events ++ rest) b =
      f b >>= Segment.replayFrom budget rest
  linked : ∀ (budget : Nat) (rest marked : Segment) (position : Nat) (kinds : List Kind)
    (b : Builder), rest.Resolves position kinds marked →
    Segment.replayFrom (c.events.length + budget)
        (c.events.setLink c.outer (c.events.length - c.outer + position) ++ rest) b =
      f (kinds.reverse.foldl Builder.startNode b) >>= Segment.replayFrom budget marked

/-- The output of a finished node stands for the node, and still does so inside of
the nodes that a link from its outermost start leads to. -/
structure Completed.Stands (c : Completed) (e : Element) : Prop where
  replay : ∀ (budget : Nat) (rest : Segment) (b : Builder),
    Segment.replayFrom (c.events.length + budget) (c.events ++ rest) b =
      Segment.replayFrom budget rest (b.pushAll [e])
  linked : ∀ (budget : Nat) (rest marked : Segment) (position : Nat) (kinds : List Kind)
    (b : Builder), rest.Resolves position kinds marked →
    Segment.replayFrom (c.events.length + budget)
        (c.events.setLink c.outer (c.events.length - c.outer + position) ++ rest) b =
      Segment.replayFrom budget marked ((kinds.reverse.foldl Builder.startNode b).pushAll [e])

namespace Completed

variable {c : Completed} {kind : Kind} {inner : Segment} {f g : Builder → Except Fault Builder}

theorem stands_iff_runs {e : Element} : c.Stands e ↔ c.Runs fun b => .ok (b.pushAll [e]) :=
  ⟨fun h => ⟨h.replay, h.linked⟩, fun h => ⟨h.replay, h.linked⟩⟩

theorem Stands.segment {e : Element} (h : c.Stands e) : c.events.Stands [e] :=
  fun budget rest b _ => h.replay budget rest b

theorem length_node (kind : Kind) (inner : Segment) :
    (Segment.node kind inner).length = inner.length + 2 := by
  simp [Segment.node]

/-- Replaying a start with a link opens the linked nodes first. -/
theorem replay_linkedStart (hkind : kind ≠ .tombstone) {rest marked : Segment}
    {position : Nat} {kinds : List Kind} (h : rest.Resolves position kinds marked)
    (budget : Nat) (b : Builder) :
    Segment.replayFrom (budget + 1) (.start kind (some (position + 1)) :: rest) b =
      Segment.replayFrom budget marked
        ((kinds.reverse.foldl Builder.startNode b).startNode kind) := by
  have hfollow := h [] rest.length (Nat.le_add_right _ _)
  rw [List.length_nil, Nat.zero_add, List.nil_append, List.nil_append] at hfollow
  simp only [Segment.replayFrom, if_neg hkind, hfollow, bind, Except.bind, List.reverse_cons,
    List.foldl_append, List.foldl_cons, List.foldl_nil]

/-- Running `f` in an open node, and then replaying a piece and the end of the node, is
running `g`. -/
def Closes (kind : Kind) (f : Builder → Except Fault Builder) (inner : Segment)
    (g : Builder → Except Fault Builder) : Prop :=
  ∀ (budget : Nat) (rest : Segment) (b : Builder),
    (f (b.startNode kind) >>=
        Segment.replayFrom (inner.length + 1 + budget) (inner ++ .finish :: rest)) =
      g b >>= Segment.replayFrom budget rest

/-- A node over a piece. -/
theorem runs_node (hkind : kind ≠ .tombstone) (h : Closes kind .ok inner g) :
    (Completed.node kind inner).Runs g where
  replay := by
    intro budget rest b
    have hlength : (Segment.node kind inner).length + budget = inner.length + 1 + budget + 1 := by
      rw [length_node]
      omega
    rw [Completed.node, hlength, Segment.node, List.cons_append, List.append_assoc,
      List.singleton_append, Segment.replayFrom, if_neg hkind]
    exact h budget rest b
  linked := by
    intro budget rest marked position kinds b hresolves
    have hinside := hresolves.append (inner ++ [.finish])
    rw [List.append_assoc, List.singleton_append, List.append_assoc, List.singleton_append,
      List.length_append, List.length_singleton] at hinside
    have hstart := replay_linkedStart hkind hinside (inner.length + 1 + budget) b
    have hclosed : Segment.replayFrom (inner.length + 1 + budget) (inner ++ .finish :: marked)
        ((kinds.reverse.foldl Builder.startNode b).startNode kind) = _ := h budget marked _
    have hlink : (Segment.node kind inner).length - 0 + position =
        inner.length + 1 + position + 1 := by
      rw [length_node]
      omega
    have hlength : (Segment.node kind inner).length + budget = inner.length + 1 + budget + 1 := by
      rw [length_node]
      omega
    rw [← hclosed, ← hstart, Completed.node, hlink, hlength, Segment.node, Segment.setLink,
      List.cons_append, List.append_assoc, List.singleton_append]

theorem length_wrap (c : Completed) (kind : Kind) (inner : Segment) :
    (c.wrap kind inner).events.length = c.events.length + (inner.length + 2) := by
  rw [Completed.wrap, List.length_append, Segment.length_setLink, length_node]

theorem outer_wrap (c : Completed) (kind : Kind) (inner : Segment) :
    (c.wrap kind inner).outer = c.events.length := rfl

/-- The wrapping node is opened at its first child, as the link says, and passed over
at its own start. -/
theorem Runs.replay_wrap (hc : c.Runs f) (h : Closes kind f inner g) {start : Event}
    {rest marked : Segment} {kinds : List Kind}
    (hresolves : Segment.Resolves (start :: (inner ++ .finish :: rest)) 0 (kind :: kinds)
      (.tombstone :: (inner ++ .finish :: marked)))
    (budget : Nat) (b : Builder) :
    Segment.replayFrom (c.events.length + (inner.length + 2 + budget))
        (c.events.setLink c.outer (c.events.length - c.outer) ++
          start :: (inner ++ .finish :: rest)) b =
      g (kinds.reverse.foldl Builder.startNode b) >>= Segment.replayFrom budget marked := by
  have hlinked := hc.linked (inner.length + 2 + budget) _ _ _ _ b hresolves
  have hskip : Segment.replayFrom (inner.length + 2 + budget)
        (.tombstone :: (inner ++ .finish :: marked)) =
      Segment.replayFrom (inner.length + 1 + budget) (inner ++ .finish :: marked) := by
    rw [show inner.length + 2 + budget = inner.length + 1 + budget + 1 by omega]
    rfl
  rw [Nat.add_zero (c.events.length - c.outer), hskip, List.reverse_cons, List.foldl_append,
    List.foldl_cons, List.foldl_nil] at hlinked
  rw [hlinked]
  exact h budget marked _

/-- Making a finished node the first child of a new node. -/
theorem Runs.wrap (hc : c.Runs f) (hkind : kind ≠ .tombstone) (h : Closes kind f inner g) :
    (Completed.wrap c kind inner).Runs g where
  replay := by
    intro budget rest b
    have hresolves := Segment.resolves_start hkind (inner ++ .finish :: rest)
    have hwrap := hc.replay_wrap h hresolves budget b
    rw [length_wrap, Nat.add_assoc, Completed.wrap, Segment.node, List.append_assoc,
      List.cons_append, List.append_assoc, List.singleton_append]
    exact hwrap
  linked := by
    intro budget rest marked position kinds b hresolves
    have hinside := hresolves.append (inner ++ [.finish])
    rw [List.append_assoc, List.singleton_append, List.append_assoc,
      List.singleton_append] at hinside
    have houter := hinside.start hkind
    have hwrap := hc.replay_wrap h houter budget b
    have hlink : (Completed.wrap c kind inner).events.length - (Completed.wrap c kind inner).outer +
        position = (inner ++ [Event.finish]).length + position + 1 := by
      rw [length_wrap, outer_wrap, List.length_append, List.length_singleton]
      omega
    have hset := Segment.setLink_append
      (c.events.setLink c.outer (c.events.length - c.outer)) (Segment.node kind inner)
      ((inner ++ [Event.finish]).length + position + 1)
    rw [Segment.length_setLink] at hset
    rw [hlink, length_wrap, Nat.add_assoc, ← hwrap, Completed.wrap, hset, Segment.node,
      Segment.setLink, List.append_assoc, List.cons_append, List.append_assoc,
      List.singleton_append]

/-- Elements that were added to an open node, and those that a piece stands for, are its
children. -/
theorem closes_of_stands {es : List Element} (h : inner.Stands es) (hkind : kind.isNode = true)
    (before : List Element) :
    Closes kind (fun b => .ok (b.pushAll before)) inner
      fun b => .ok (b.pushAll [.makeNode kind (before ++ es)]) :=
  fun budget rest b => h.replay_finish hkind budget rest b before

theorem stands_node {es : List Element} (h : inner.Stands es) (hkind : kind.isNode = true) :
    (Completed.node kind inner).Stands (.makeNode kind es) := by
  have hcloses := closes_of_stands h hkind []
  simp only [Builder.pushAll_nil, List.nil_append] at hcloses
  exact stands_iff_runs.mpr (runs_node (Segment.ne_tombstone_of_isNode hkind) hcloses)

theorem Stands.wrap {e : Element} (hc : c.Stands e) {es : List Element} (h : inner.Stands es)
    (hkind : kind.isNode = true) :
    (Completed.wrap c kind inner).Stands (.makeNode kind (e :: es)) :=
  stands_iff_runs.mpr ((stands_iff_runs.mp hc).wrap (Segment.ne_tombstone_of_isNode hkind)
    (closes_of_stands h hkind [e]))

end Completed

theorem Segment.Stands.node {inner : Segment} {es : List Element} (h : inner.Stands es)
    {kind : Kind} (hkind : kind.isNode = true) :
    Stands (Segment.node kind inner) [.makeNode kind es] :=
  (Completed.stands_node h hkind).segment

end Verbatim
