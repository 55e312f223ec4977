/-
  A builder accepts exactly the calls that write a tree down.

  Written down, a tree is a sequence of calls: start and finish brackets around what
  stands inside, and one call for a token or for a node that is there already.  A builder
  that is given such calls adds the elements that they write, whatever is open around
  them.  The other way round, a builder never knows more than that what has been finished
  since each open bracket has been written by the calls since then: one call keeps this,
  so it holds of every sequence of calls that is not refused, and at the end, with nothing
  open and one node left, the calls are that node written down.
-/
import Verbatim.Proofs.Construction

set_option autoImplicit false

namespace Verbatim

namespace Element

/-! ## Slots in turn -/

/-- Nodes and tokens in turn, a node first. -/
def alternating : List Element → Bool
  | [] => true
  | [e] => e.isNode
  | e :: separator :: rest => e.isNode && separator.isToken && alternating rest

theorem isNode_eq_false_of_isToken {e : Element} (h : e.isToken = true) : e.isNode = false := by
  cases e with
  | token t => rfl
  | node _ _ _ | list _ _ | separated _ _ => cases h

/-- What stands in turn are the slots of a separated list. -/
theorem slots_of_alternating {es : List Element} (h : alternating es = true) {slot : Nat}
    (hslot : slot % 2 = 0) :
    (∀ e ∈ es, (e.isNode || e.isToken) = true) ∧ checkSlots slot es = .ok () := by
  fun_induction alternating es generalizing slot with
  | case1 => exact ⟨List.forall_mem_nil _, rfl⟩
  | case2 e => simp [checkSlots, SlotRole.ofIndex, hslot, h]
  | case3 e separator rest ih =>
      simp only [Bool.and_eq_true] at h
      obtain ⟨⟨hnode, hseparator⟩, hrest⟩ := h
      have hodd : (slot + 1) % 2 ≠ 0 := by omega
      obtain ⟨hslots, hcheck⟩ := ih hrest (by omega : (slot + 1 + 1) % 2 = 0)
      refine ⟨?_, ?_⟩
      · simp only [List.forall_mem_cons]
        exact ⟨by simp [hnode], by simp [hseparator], hslots⟩
      · simp [checkSlots, SlotRole.ofIndex, hslot, hnode, hodd,
          isNode_eq_false_of_isToken hseparator, hcheck]

/-- The slots of a separated list stand in turn. -/
theorem alternating_of_slots {es : List Element} {slot : Nat} (hslot : slot % 2 = 0)
    (hslots : ∀ e ∈ es, (e.isNode || e.isToken) = true) (hcheck : checkSlots slot es = .ok ()) :
    alternating es = true := by
  fun_induction alternating es generalizing slot with
  | case1 => rfl
  | case2 e =>
      cases hnode : e.isNode with
      | true => rfl
      | false => simp [checkSlots, SlotRole.ofIndex, hslot, hnode] at hcheck
  | case3 e separator rest ih =>
      simp only [List.forall_mem_cons] at hslots
      obtain ⟨_, hseparator, hrest⟩ := hslots
      have hodd : (slot + 1) % 2 ≠ 0 := by omega
      cases hnode : e.isNode with
      | false => simp [checkSlots, SlotRole.ofIndex, hslot, hnode] at hcheck
      | true =>
          cases hother : separator.isNode with
          | true => simp [checkSlots, SlotRole.ofIndex, hslot, hnode, hodd, hother] at hcheck
          | false =>
              rw [hother, Bool.false_or] at hseparator
              simp only [checkSlots, SlotRole.ofIndex, hslot, hnode, hodd, hother, if_true,
                if_false] at hcheck
              rw [hseparator, ih (by omega : (slot + 1 + 1) % 2 = 0) hrest hcheck]
              rfl

end Element

namespace Builder

/-! ## Calls that write elements -/

/-- What the types of the arguments promise: a token that is there already is of a kind
of tokens, and a node that is there already is a node. -/
def Call.Typed : Call → Prop
  | .pushToken t => t.kind.isToken = true
  | .pushNode e => e.isNode = true
  | _ => True

/-- Calls that write neighbours down, one after the other. -/
inductive Writes : List Call → List Element → Prop where
  | nil : Writes [] []
  | token {kind : Kind} {text : Text} {leading trailing : TriviaList} {calls : List Call}
      {es : List Element} :
      kind.isToken = true → Writes calls es →
        Writes (.token kind text leading trailing :: calls)
          (.token (.make kind text leading trailing) :: es)
  | pushToken {t : Token} {calls : List Call} {es : List Element} :
      t.kind.isToken = true → Writes calls es → Writes (.pushToken t :: calls) (.token t :: es)
  | pushNode {e : Element} {calls : List Call} {es : List Element} :
      e.isNode = true → Writes calls es → Writes (.pushNode e :: calls) (e :: es)
  | node {kind : Kind} {inner calls : List Call} {children es : List Element} :
      kind.isNode = true → Writes inner children → Writes calls es →
        Writes (.startNode kind :: (inner ++ .finishNode :: calls))
          (.makeNode kind children :: es)
  | list {inner calls : List Call} {nodes es : List Element} :
      (∀ e ∈ nodes, e.isNode = true) → Writes inner nodes → Writes calls es →
        Writes (.startList :: (inner ++ .finishList :: calls)) (.makeList nodes :: es)
  | separated {inner calls : List Call} {slots es : List Element} :
      Element.alternating slots = true → Writes inner slots → Writes calls es →
        Writes (.startSeparated :: (inner ++ .finishSeparated :: calls))
          (.separated (Element.measureAll slots) slots :: es)

/-- The calls write one tree down: its root is bracketed by a start and a finish. -/
def Serializes (calls : List Call) (root : Element) : Prop :=
  ∃ kind inner children, kind.isNode = true ∧ Writes inner children ∧
    calls = .startNode kind :: (inner ++ [.finishNode]) ∧ root = .makeNode kind children

theorem Writes.append {calls calls' : List Call} {es es' : List Element} (h : Writes calls es)
    (h' : Writes calls' es') : Writes (calls ++ calls') (es ++ es') := by
  induction h with
  | nil => exact h'
  | token hkind _ ih => exact .token hkind ih
  | pushToken hkind _ ih => exact .pushToken hkind ih
  | pushNode hnode _ ih => exact .pushNode hnode ih
  | node hkind hinner _ _ ih =>
      rw [List.cons_append, List.append_assoc]
      exact .node hkind hinner ih
  | list hnodes hinner _ _ ih =>
      rw [List.cons_append, List.append_assoc]
      exact .list hnodes hinner ih
  | separated hslots hinner _ _ ih =>
      rw [List.cons_append, List.append_assoc]
      exact .separated hslots hinner ih

theorem Serializes.writes {calls : List Call} {root : Element} (h : Serializes calls root) :
    Writes calls [root] := by
  obtain ⟨kind, inner, children, hkind, hinner, rfl, rfl⟩ := h
  exact .node hkind hinner .nil

/-! ## Written elements are accepted -/

variable {b next : Builder}

theorem callAll_cons {c : Call} (h : b.call c = .ok next) (rest : List Call) :
    b.callAll (c :: rest) = next.callAll rest := by
  rw [callAll, h]

theorem pushNode_eq (hopened : b.opened ≠ []) (e : Element) :
    b.pushNode e = .ok (b.pushAll [e]) := by
  unfold pushNode innermost
  cases hframes : b.opened with
  | nil => exact absurd hframes hopened
  | cons frame frames => rfl

/-- A list is closed over the nodes that were added since it was opened. -/
theorem finishList_pushAll (b : Builder) {es : List Element} (h : ∀ e ∈ es, e.isNode = true) :
    (pushAll ⟨.list b.finished.length :: b.opened, b.finished⟩ es).finishList =
      .ok (b.pushAll [.makeList es]) := by
  simp [finishList, innermost, pushAll, requireNodes_eq h, close, bind, Except.bind, pure,
    Except.pure]

/-- A separated list is closed over the slots that were added since it was opened. -/
theorem finishSeparated_pushAll (b : Builder) {es : List Element}
    (h : Element.alternating es = true) :
    (pushAll ⟨.separated b.finished.length :: b.opened, b.finished⟩ es).finishSeparated =
      .ok (b.pushAll [.separated (Element.measureAll es) es]) := by
  obtain ⟨hslots, hcheck⟩ := Element.slots_of_alternating h (Nat.zero_mod 2)
  simp [finishSeparated, innermost, pushAll, requireSlots_eq hslots, Element.newSeparated, hcheck,
    close, bind, Except.bind, pure, Except.pure]

/-- Inside an open frame that has a place for them, written elements are added. -/
theorem Writes.callAll_eq {calls : List Call} {es : List Element} (h : Writes calls es)
    (hopened : b.opened ≠ []) (hadmits : ∀ e ∈ es, b.admits e = true) (rest : List Call) :
    b.callAll (calls ++ rest) = (b.pushAll es).callAll rest := by
  induction h generalizing b rest with
  | nil => rw [pushAll_nil, List.nil_append]
  | token hkind _ ih =>
      obtain ⟨hfirst, hmore⟩ := List.forall_mem_cons.mp hadmits
      rw [List.cons_append, callAll_cons (c := .token ..) (token_eq hkind hfirst),
        ih (b := b.pushAll _) hopened hmore, pushAll_pushAll]
      rfl
  | pushToken _ _ ih =>
      obtain ⟨hfirst, hmore⟩ := List.forall_mem_cons.mp hadmits
      rw [List.cons_append, callAll_cons (c := .pushToken _) (pushToken_eq hfirst),
        ih (b := b.pushAll _) hopened hmore, pushAll_pushAll]
      rfl
  | @pushNode e _ _ _ _ ih =>
      obtain ⟨_, hmore⟩ := List.forall_mem_cons.mp hadmits
      rw [List.cons_append, callAll_cons (c := .pushNode e) (pushNode_eq hopened e),
        ih (b := b.pushAll _) hopened hmore, pushAll_pushAll]
      rfl
  | @node kind inner calls children es hkind _ _ ihinner ih =>
      obtain ⟨_, hmore⟩ := List.forall_mem_cons.mp hadmits
      have hstart : b.call (.startNode kind) = .ok (b.startNode kind) := rfl
      rw [List.cons_append, List.append_assoc, List.cons_append, callAll_cons hstart,
        ihinner (b := b.startNode kind) (List.cons_ne_nil _ _) (fun _ _ => rfl),
        callAll_cons (c := .finishNode) (finishNode_pushAll b hkind children),
        ih (b := b.pushAll _) hopened hmore, pushAll_pushAll]
      rfl
  | @list inner calls nodes es hnodes _ _ ihinner ih =>
      obtain ⟨hfirst, hmore⟩ := List.forall_mem_cons.mp hadmits
      have hstart : b.call .startList = .ok ⟨.list b.finished.length :: b.opened, b.finished⟩ := by
        simp only [call, startList, requireNode_eq rfl rfl hfirst]
        rfl
      rw [List.cons_append, List.append_assoc, List.cons_append, callAll_cons hstart,
        ihinner (b := ⟨.list b.finished.length :: b.opened, b.finished⟩)
          (List.cons_ne_nil _ _) hnodes,
        callAll_cons (c := .finishList) (finishList_pushAll b hnodes),
        ih (b := b.pushAll _) hopened hmore, pushAll_pushAll]
      rfl
  | @separated inner calls slots es hslots _ _ ihinner ih =>
      obtain ⟨hfirst, hmore⟩ := List.forall_mem_cons.mp hadmits
      have hstart :
          b.call .startSeparated = .ok ⟨.separated b.finished.length :: b.opened, b.finished⟩ := by
        simp only [call, startSeparated, requireNode_eq rfl rfl hfirst]
        rfl
      rw [List.cons_append, List.append_assoc, List.cons_append, callAll_cons hstart,
        ihinner (b := ⟨.separated b.finished.length :: b.opened, b.finished⟩)
          (List.cons_ne_nil _ _) (Element.slots_of_alternating hslots (Nat.zero_mod 2)).1,
        callAll_cons (c := .finishSeparated) (finishSeparated_pushAll b hslots),
        ih (b := b.pushAll _) hopened hmore, pushAll_pushAll]
      rfl

/-- A tree that is written down is built. -/
theorem Serializes.builds {calls : List Call} {root : Element} (h : Serializes calls root) :
    ∃ b, empty.callAll calls = .ok b ∧ b.finish = .ok root := by
  obtain ⟨kind, inner, children, hkind, hinner, rfl, rfl⟩ := h
  refine ⟨empty.pushAll [.makeNode kind children], ?_, rfl⟩
  have hstart : empty.call (.startNode kind) = .ok (empty.startNode kind) := rfl
  rw [callAll_cons hstart, hinner.callAll_eq (b := empty.startNode kind) (List.cons_ne_nil _ _)
      (fun _ _ => rfl),
    callAll_cons (c := .finishNode) (finishNode_pushAll empty hkind children)]
  rfl

/-! ## Accepted calls write elements -/

/-- Calls that write whole trees down, one after the other. -/
inductive WritesTrees : List Call → List Element → Prop where
  | nil : WritesTrees [] []
  | snoc {calls piece : List Call} {roots : List Element} {root : Element} :
      WritesTrees calls roots → Serializes piece root →
        WritesTrees (calls ++ piece) (roots ++ [root])

/-- The frame that a call opens in front of which so many elements are finished. -/
def Call.frame? (mark : Nat) : Call → Option Frame
  | .startNode kind => some (.node kind mark)
  | .startList => some (.list mark)
  | .startSeparated => some (.separated mark)
  | _ => none

/-- The calls that have led to a builder: outside of everything they have written trees,
and since the call that opened a frame they have written what is finished since then.
Only a node is opened outside of everything. -/
inductive History : List Call → Builder → Prop where
  | outside {calls : List Call} {roots : List Element} :
      WritesTrees calls roots → History calls ⟨[], roots⟩
  | inside {calls inner : List Call} {b : Builder} {c : Call} {frame : Frame}
      {es : List Element} :
      History calls b → c.frame? b.finished.length = some frame →
        (b.opened = [] → ∃ kind, c = .startNode kind) → Writes inner es →
        History (calls ++ c :: inner) ⟨frame :: b.opened, b.finished ++ es⟩

/-- Writing one more element goes on with the history. -/
theorem History.push {calls piece : List Call} {e : Element} (h : History calls b)
    (hpiece : Writes piece [e]) (houtside : b.opened = [] → Serializes piece e) :
    History (calls ++ piece) (b.push e) := by
  cases h with
  | outside htrees => exact .outside (.snoc htrees (houtside rfl))
  | inside hbefore hframe hopens hinner =>
      rw [List.append_assoc, List.cons_append]
      unfold Builder.push
      rw [List.append_assoc]
      exact .inside hbefore hframe hopens (hinner.append hpiece)

/-- Opening a frame goes on with the history. -/
theorem History.open {calls : List Call} {c : Call} {frame : Frame} (h : History calls b)
    (hframe : c.frame? b.finished.length = some frame)
    (hopens : b.opened = [] → ∃ kind, c = .startNode kind) :
    History (calls ++ [c]) ⟨frame :: b.opened, b.finished⟩ := by
  have hinside := History.inside h hframe hopens .nil
  rwa [List.append_nil] at hinside

/-- What a history says of an open frame: the builder that it was opened in, the call that
opened it, and what has been written since. -/
theorem History.exists_opening {calls : List Call} {frame : Frame} {frames : List Frame}
    (h : History calls b) (hopened : b.opened = frame :: frames) :
    ∃ calls' b' c inner es, History calls' b' ∧ c.frame? b'.finished.length = some frame ∧
      (b'.opened = [] → ∃ kind, c = .startNode kind) ∧ Writes inner es ∧
      calls = calls' ++ c :: inner ∧ b = ⟨frame :: b'.opened, b'.finished ++ es⟩ := by
  cases h with
  | outside _ => cases hopened
  | inside hbefore hframe hopens hinner =>
      cases hopened
      exact ⟨_, _, _, _, _, hbefore, hframe, hopens, hinner, rfl, rfl⟩

/-- Closing a frame replaces what has been written since it was opened by one element. -/
theorem close_inside (b : Builder) (frame : Frame) (es : List Element) (e : Element) :
    close ⟨frame :: b.opened, b.finished ++ es⟩ b.finished.length e = b.push e := by
  simp [close, push]

theorem exists_frame_of_innermost {frame : Frame} (h : b.innermost = .ok frame) :
    ∃ frames, b.opened = frame :: frames := by
  unfold innermost at h
  split at h
  · cases h
  · rename_i frames hopened
    cases h
    exact ⟨frames, hopened⟩

theorem opened_ne_nil_of_requireNode (h : b.requireNode = .ok ()) : b.opened ≠ [] := by
  intro hnil
  rw [requireNode, innermost, hnil] at h
  cases h

variable {calls : List Call}

theorem History.finishNode (h : History calls b) (hnext : b.finishNode = .ok next) :
    History (calls ++ [.finishNode]) next := by
  obtain ⟨frame, hframe, hnext⟩ := exists_of_bind hnext
  obtain ⟨frames, hopened⟩ := exists_frame_of_innermost hframe
  obtain ⟨calls', b', c, inner, es, hbefore, hopening, _, hinner, rfl, rfl⟩ :=
    h.exists_opening hopened
  cases frame with
  | list _ | separated _ => cases hnext
  | node kind mark =>
      obtain ⟨e, he, hnext⟩ := exists_of_bind hnext
      cases hnext
      cases c with
      | startNode kind' =>
          cases hopening
          rw [List.drop_left] at he
          obtain ⟨hkind, rfl⟩ := Element.eq_of_newNode he
          rw [close_inside, List.append_assoc, List.cons_append]
          exact hbefore.push (.node hkind hinner .nil) fun _ => ⟨_, _, _, hkind, hinner, rfl, rfl⟩
      | startList | startSeparated | finishNode | finishList | finishSeparated | token _ _ _ _
        | pushToken _ | pushNode _ => cases hopening

theorem History.finishList (h : History calls b) (hnext : b.finishList = .ok next) :
    History (calls ++ [.finishList]) next := by
  obtain ⟨frame, hframe, hnext⟩ := exists_of_bind hnext
  obtain ⟨frames, hopened⟩ := exists_frame_of_innermost hframe
  obtain ⟨calls', b', c, inner, es, hbefore, hopening, hopens, hinner, rfl, rfl⟩ :=
    h.exists_opening hopened
  cases frame with
  | node _ _ | separated _ => cases hnext
  | list mark =>
      obtain ⟨_, hnodes, hnext⟩ := exists_of_bind hnext
      cases hnext
      cases c with
      | startList =>
          cases hopening
          rw [List.drop_left] at hnodes ⊢
          rw [close_inside, List.append_assoc, List.cons_append]
          refine hbefore.push (.list (isNode_of_requireNodes hnodes) hinner .nil) fun houtside => ?_
          obtain ⟨kind, hkind⟩ := hopens houtside
          cases hkind
      | startNode _ | startSeparated | finishNode | finishList | finishSeparated | token _ _ _ _
        | pushToken _ | pushNode _ => cases hopening

theorem History.finishSeparated (h : History calls b) (hnext : b.finishSeparated = .ok next) :
    History (calls ++ [.finishSeparated]) next := by
  obtain ⟨frame, hframe, hnext⟩ := exists_of_bind hnext
  obtain ⟨frames, hopened⟩ := exists_frame_of_innermost hframe
  obtain ⟨calls', b', c, inner, es, hbefore, hopening, hopens, hinner, rfl, rfl⟩ :=
    h.exists_opening hopened
  cases frame with
  | node _ _ | list _ => cases hnext
  | separated mark =>
      obtain ⟨_, hslots, hnext⟩ := exists_of_bind hnext
      split at hnext
      · rename_i e he
        cases hnext
        obtain ⟨_, hcheck, he⟩ := exists_of_bind he
        cases he
        cases c with
        | startSeparated =>
            cases hopening
            rw [List.drop_left] at hslots hcheck ⊢
            have halternating :=
              Element.alternating_of_slots (Nat.zero_mod 2) (isSlot_of_requireSlots hslots) hcheck
            rw [close_inside, List.append_assoc, List.cons_append]
            refine hbefore.push (.separated halternating hinner .nil) fun houtside => ?_
            obtain ⟨kind, hkind⟩ := hopens houtside
            cases hkind
        | startNode _ | startList | finishNode | finishList | finishSeparated | token _ _ _ _
          | pushToken _ | pushNode _ => cases hopening
      · cases hnext

theorem History.pushToken (h : History calls b) {t : Token} {c : Call}
    (hwrites : Writes [c] [.token t]) (hnext : b.pushToken t = .ok next) :
    History (calls ++ [c]) next := by
  obtain ⟨frame, hframe, hnext⟩ := exists_of_bind hnext
  obtain ⟨frames, hopened⟩ := exists_frame_of_innermost hframe
  have hinside : b.opened = [] → Serializes [c] (.token t) := by
    rw [hopened]
    exact nofun
  cases frame with
  | list _ => cases hnext
  | node _ _ | separated _ =>
      cases hnext
      exact h.push hwrites hinside

/-- One call that is not refused goes on with the history. -/
theorem History.call (h : History calls b) {c : Call} (hc : c.Typed) (hnext : b.call c = .ok next) :
    History (calls ++ [c]) next := by
  cases c with
  | startNode kind =>
      cases hnext
      exact h.open rfl fun _ => ⟨kind, rfl⟩
  | finishNode => exact h.finishNode hnext
  | startList =>
      obtain ⟨_, hnode, hnext⟩ := exists_of_bind hnext
      cases hnext
      exact h.open rfl fun hnil => absurd hnil (opened_ne_nil_of_requireNode hnode)
  | finishList => exact h.finishList hnext
  | startSeparated =>
      obtain ⟨_, hnode, hnext⟩ := exists_of_bind hnext
      cases hnext
      exact h.open rfl fun hnil => absurd hnil (opened_ne_nil_of_requireNode hnode)
  | finishSeparated => exact h.finishSeparated hnext
  | token kind text leading trailing =>
      obtain ⟨t, ht, hnext⟩ := exists_of_bind hnext
      obtain ⟨hkind, rfl⟩ := Token.eq_of_new ht
      exact h.pushToken (.token hkind .nil) hnext
  | pushToken t => exact h.pushToken (.pushToken hc .nil) hnext
  | pushNode e =>
      obtain ⟨frame, hframe, hnext⟩ := exists_of_bind hnext
      obtain ⟨frames, hopened⟩ := exists_frame_of_innermost hframe
      cases hnext
      refine h.push (.pushNode hc .nil) ?_
      rw [hopened]
      exact nofun

/-- Calls that are not refused go on with the history. -/
theorem History.callAll (h : History calls b) {more : List Call} (hmore : ∀ c ∈ more, c.Typed)
    (hnext : b.callAll more = .ok next) : History (calls ++ more) next := by
  induction more generalizing b calls with
  | nil =>
      cases hnext
      rwa [List.append_nil]
  | cons c rest ih =>
      obtain ⟨hc, hrest⟩ := List.forall_mem_cons.mp hmore
      rw [Builder.callAll] at hnext
      split at hnext
      · cases hnext
      · rename_i mid hmid
        have hhistory := ih (h.call hc hmid) hrest hnext
        rwa [List.append_assoc] at hhistory

/-- Calls that write exactly one tree down. -/
theorem WritesTrees.serializes {root : Element} (h : WritesTrees calls [root]) :
    Serializes calls root := by
  generalize hroots : [root] = roots at h
  cases h with
  | nil => cases hroots
  | @snoc before piece others last hbefore hpiece =>
      cases others with
      | cons other others => simp at hroots
      | nil =>
          generalize hnone : ([] : List Element) = none at hbefore
          cases hbefore with
          | nil =>
              obtain rfl : root = last := by simpa using hroots
              exact hpiece
          | snoc _ _ => simp at hnone

/-- Calls after which a root is left have written it down. -/
theorem History.serializes {root : Element} (h : History calls b) (hroot : b.finish = .ok root) :
    Serializes calls root := by
  unfold finish at hroot
  cases h with
  | inside _ _ _ _ => cases hroot
  | outside htrees =>
      simp only [List.isEmpty_nil, if_true] at hroot
      split at hroot
      · cases hroot
        exact htrees.serializes
      · cases hroot

theorem serializes_of_builds {root : Element} (hcalls : ∀ c ∈ calls, c.Typed)
    (hb : empty.callAll calls = .ok b) (hroot : b.finish = .ok root) : Serializes calls root :=
  ((History.outside .nil).callAll hcalls hb).serializes hroot

end Builder

end Verbatim
