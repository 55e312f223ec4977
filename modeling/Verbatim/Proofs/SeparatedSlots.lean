/-
  What slots that alternate say about a separated list.

  A list is made exactly of slots that fit their index, a node at an even one and a token at
  an odd one.  Counts, access by index and enumeration work on the indexes and never look at
  the other slots.  They agree with the nodes and the tokens among the slots since the even
  slots are the nodes and the odd ones are the tokens: the entry with a number in the even
  slots is the slot with twice the number.
-/
import Verbatim.Tree.Separated
import Verbatim.Proofs.Serialization
import Verbatim.Proofs.TriviaCursor

set_option autoImplicit false

namespace Verbatim

/-! ## Queues that are open at both ends -/

namespace RunEnd

variable {α : Type}

/-- What calls for the ends of a queue are answered. -/
def answers : List RunEnd → List α → List (Option α)
  | [], _ => []
  | side :: sides, items => (side.draw items).1 :: answers sides (side.draw items).2

theorem draw_reverse (items : List α) :
    front.draw items.reverse = ((back.draw items).1, (back.draw items).2.reverse) := by
  simp [draw]

theorem answers_front (items : List α) (more : Nat) :
    answers (List.replicate (items.length + more) front) items =
      items.map some ++ List.replicate more none := by
  induction items with
  | nil =>
      rw [List.length_nil, Nat.zero_add]
      induction more with
      | zero => rfl
      | succ more ih => exact congrArg (none :: ·) ih
  | cons a items ih =>
      rw [List.length_cons, Nat.add_right_comm, List.replicate_succ]
      exact congrArg (some a :: ·) ih

theorem answers_back (n : Nat) (items : List α) :
    answers (List.replicate n back) items = answers (List.replicate n front) items.reverse := by
  induction n generalizing items with
  | zero => rfl
  | succ n ih =>
      rw [List.replicate_succ, List.replicate_succ, answers, answers, draw_reverse, ih]

end RunEnd

/-- What calls for the ends of a cursor are answered. -/
def answersTo {σ : Type} (call : RunEnd → σ → Option Element × σ) :
    List RunEnd → σ → List (Option Element)
  | [], _ => []
  | side :: sides, c => (call side c).1 :: answersTo call sides (call side c).2

/-- A cursor enumerates elements: any calls for its ends are answered as by a queue of them.
From the front they come in order, from the back in reverse order, and then none does. -/
structure Enumerates {σ : Type} (call : RunEnd → σ → Option Element × σ) (c : σ)
    (items : List Element) : Prop where
  mixed : ∀ sides, answersTo call sides c = RunEnd.answers sides items
  forward : ∀ more, answersTo call (List.replicate (items.length + more) .front) c =
    items.map some ++ List.replicate more none
  backward : ∀ more, answersTo call (List.replicate (items.length + more) .back) c =
    items.reverse.map some ++ List.replicate more none

/-- A cursor enumerates what it holds if every call draws from that. -/
theorem Enumerates.of_call {σ : Type} {call : RunEnd → σ → Option Element × σ}
    {H : σ → List Element → Prop}
    (hcall : ∀ c items side, H c items → (call side c).1 = (side.draw items).1 ∧
      H (call side c).2 (side.draw items).2)
    {c : σ} {items : List Element} (h : H c items) : Enumerates call c items := by
  have hmixed (sides : List RunEnd) : answersTo call sides c = RunEnd.answers sides items := by
    induction sides generalizing c items with
    | nil => rfl
    | cons side sides ih =>
        obtain ⟨hanswer, hafter⟩ := hcall c items side h
        rw [answersTo, RunEnd.answers, hanswer, ih hafter]
  refine ⟨hmixed, fun more => ?_, fun more => ?_⟩
  · rw [hmixed, RunEnd.answers_front]
  · rw [hmixed, RunEnd.answers_back, ← List.length_reverse, RunEnd.answers_front]

/-- Entries of two lists in turn, those of the first one first. -/
def interleave : List Element → List Element → List Element
  | [], others => others
  | e :: es, others => e :: interleave others es
termination_by es others => es.length + others.length

namespace Separated

variable {slots : List Element}

/-! ## The even slots -/

theorem evenSlots_cons (e : Element) (es : List Element) :
    evenSlots (e :: es) = e :: evenSlots es.tail := by
  cases es <;> rfl

theorem getElem?_evenSlots (es : List Element) (i : Nat) :
    (evenSlots es)[i]? = es[2 * i]? := by
  fun_induction evenSlots es generalizing i with
  | case1 => rfl
  | case2 e => cases i <;> simp [Nat.mul_add]
  | case3 e separator rest ih =>
      cases i with
      | zero => rfl
      | succ i => exact ih i

theorem length_evenSlots (es : List Element) : (evenSlots es).length = (es.length + 1) / 2 := by
  fun_induction evenSlots es with
  | case1 => rfl
  | case2 e => exact (Nat.div_self Nat.two_pos).symm
  | case3 e separator rest ih =>
      simp only [List.length_cons, ih]
      omega

theorem interleave_evenSlots (es : List Element) :
    interleave (evenSlots es) (evenSlots es.tail) = es := by
  induction es with
  | nil => rw [evenSlots, List.tail_nil, evenSlots, interleave]
  | cons e es ih => rw [evenSlots_cons, List.tail_cons, interleave, ih]

theorem evenSlots_take (es : List Element) (n : Nat) :
    evenSlots (es.take (2 * n)) = (evenSlots es).take n := by
  apply List.ext_getElem?
  intro i
  rw [getElem?_evenSlots, List.getElem?_take, List.getElem?_take, getElem?_evenSlots]
  by_cases hi : i < n
  · rw [if_pos hi, if_pos (by omega)]
  · rw [if_neg hi, if_neg (by omega)]

theorem evenSlots_drop_two (es : List Element) :
    evenSlots (es.drop 2) = (evenSlots es).tail := by
  fun_cases evenSlots es <;> rfl

/-! ## Cursors over slots -/

namespace SlotCursor

/-- The ends of a cursor stand in order within the slots. -/
structure Within (c : SlotCursor) : Prop where
  start_le : c.start ≤ c.stop
  stop_le : c.stop ≤ c.slots.length

/-- What has not been handed out. -/
def left (c : SlotCursor) : List Element :=
  (c.slots.drop c.start).take c.remaining

variable {c : SlotCursor}

theorem Within.length_left (h : c.Within) : c.left.length = c.remaining := by
  rw [left, List.length_take, List.length_drop, remaining]
  have hstop := h.stop_le
  omega

theorem within_ofSlots (slots : List Element) : (ofSlots slots).Within :=
  ⟨Nat.zero_le _, Nat.le_refl _⟩

theorem left_ofSlots (slots : List Element) : (ofSlots slots).left = slots :=
  List.take_length

theorem Within.nth (h : c.Within) (skipped : Nat) :
    (c.nth skipped).1 = c.left[skipped]? ∧ (c.nth skipped).2.left = c.left.drop (skipped + 1) ∧
      (c.nth skipped).2.Within := by
  have hlength := h.length_left
  obtain ⟨hstart, hstop⟩ := h
  by_cases hleft : skipped < c.remaining
  · rw [SlotCursor.nth, if_pos hleft]
    rw [remaining] at hleft
    refine ⟨?_, ?_, Nat.add_lt_of_lt_sub' hleft, hstop⟩
    · simp only [left, remaining, List.getElem?_take_of_lt hleft, List.getElem?_drop]
    · simp only [left, remaining, List.drop_take, List.drop_drop, Nat.sub_sub, Nat.add_assoc]
  · rw [SlotCursor.nth, if_neg hleft]
    refine ⟨(List.getElem?_eq_none (by omega)).symm, ?_, Nat.le_refl _, hstop⟩
    rw [List.drop_of_length_le (by omega)]
    simp only [left, remaining, Nat.sub_self, List.take_zero]

theorem Within.nthBack (h : c.Within) (skipped : Nat) :
    (c.nthBack skipped).1 =
        (if skipped < c.left.length then c.left[c.left.length - skipped - 1]? else none) ∧
      (c.nthBack skipped).2.left = c.left.take (c.left.length - skipped - 1) ∧
      (c.nthBack skipped).2.Within := by
  rw [h.length_left]
  obtain ⟨hstart, hstop⟩ := h
  by_cases hleft : skipped < c.remaining
  · rw [SlotCursor.nthBack, if_pos hleft, if_pos hleft]
    rw [remaining] at hleft
    have hplace : c.start + (c.stop - c.start - skipped - 1) = c.stop - skipped - 1 := by omega
    refine ⟨?_, ?_, ?_, ?_⟩
    · simp only [left, remaining]
      rw [List.getElem?_take_of_lt (by omega), List.getElem?_drop, hplace]
    · simp only [left, remaining]
      rw [List.take_take, ← hplace, Nat.add_sub_cancel_left, Nat.min_eq_left (by omega)]
    · exact hplace ▸ Nat.le_add_right _ _
    · exact Nat.le_trans (Nat.le_trans (Nat.sub_le _ _) (Nat.sub_le _ _)) hstop
  · rw [SlotCursor.nthBack, if_neg hleft, if_neg hleft]
    refine ⟨rfl, ?_, Nat.le_refl _, Nat.le_trans hstart hstop⟩
    rw [Nat.sub_sub, Nat.sub_eq_zero_of_le (by omega), List.take_zero]
    simp only [left, remaining, Nat.sub_self, List.take_zero]

/-- Makes a call for an end. -/
def call : RunEnd → SlotCursor → Option Element × SlotCursor
  | .front, c => c.next
  | .back, c => c.nextBack

/-- A cursor over slots enumerates them. -/
theorem enumerates (slots : List Element) : Enumerates call (ofSlots slots) slots := by
  refine .of_call (H := fun c items => c.Within ∧ c.left = items) ?_
    ⟨within_ofSlots slots, left_ofSlots slots⟩
  rintro c _ side ⟨hwithin, rfl⟩
  cases side with
  | front =>
      obtain ⟨hanswer, hleft, hafter⟩ := hwithin.nth 0
      exact ⟨by rw [call, next, hanswer, RunEnd.draw, List.head?_eq_getElem?], hafter,
        by rw [call, next, hleft, RunEnd.draw, List.drop_one]⟩
  | back =>
      obtain ⟨hanswer, hleft, hafter⟩ := hwithin.nthBack 0
      refine ⟨?_, hafter, by rw [call, nextBack, hleft, RunEnd.draw, List.dropLast_eq_take]; rfl⟩
      rw [call, nextBack, hanswer, RunEnd.draw, List.getLast?_eq_getElem?]
      split
      · rfl
      · exact (List.getElem?_eq_none (by omega)).symm

end SlotCursor

namespace NodeCursor

/-- Number of slots in front of the first one of every two. -/
def lead (c : NodeCursor) : Nat :=
  if c.fresh then 0 else 1

/-- Every second slot of those that have not been handed out. -/
def ahead (c : NodeCursor) : List Element :=
  evenSlots (c.inner.left.drop c.lead)

variable {c : NodeCursor}

theorem length_ahead (c : NodeCursor) :
    c.ahead.length = (c.inner.left.length - c.lead + 1) / 2 := by
  rw [ahead, length_evenSlots, List.length_drop]

theorem getElem?_ahead (c : NodeCursor) (i : Nat) :
    c.ahead[i]? = c.inner.left[c.lead + 2 * i]? := by
  rw [ahead, getElem?_evenSlots, List.getElem?_drop]

/-- A step from the front takes the first entry. -/
theorem step_spec (h : c.inner.Within) :
    c.step.1 = c.ahead.head? ∧ c.step.2.ahead = c.ahead.tail ∧ c.step.2.inner.Within := by
  obtain ⟨hanswer, hleft, hafter⟩ := h.nth c.lead
  refine ⟨?_, ?_, hafter⟩
  · rw [List.head?_eq_getElem?, getElem?_ahead]
    exact hanswer
  · have hahead : c.step.2.ahead = evenSlots ((c.inner.nth c.lead).2.left.drop 1) := rfl
    rw [hahead, hleft, List.drop_drop, ahead, ← evenSlots_drop_two, List.drop_drop]

/-- Behind the last one of every two there is at most one slot. -/
theorem skippedBack_spec (h : c.inner.Within) :
    if c.lead < c.inner.left.length then
      c.skippedBack < c.inner.left.length ∧
        c.inner.left.length - c.skippedBack - 1 = c.lead + 2 * (c.ahead.length - 1)
    else c.inner.left.length ≤ c.skippedBack := by
  rw [length_ahead, h.length_left, skippedBack, lead]
  cases c.fresh with
  | true =>
      simp only [if_true]
      split <;> split <;> omega
  | false =>
      simp only [Bool.false_eq_true, if_false]
      split <;> omega

/-- A step from the back takes the last entry. -/
theorem stepBack_spec (h : c.inner.Within) :
    c.stepBack.1 = c.ahead.getLast? ∧ c.stepBack.2.ahead = c.ahead.dropLast ∧
      c.stepBack.2.inner.Within := by
  obtain ⟨hanswer, hleft, hafter⟩ := h.nthBack c.skippedBack
  have hskipped := skippedBack_spec h
  have hahead : c.stepBack.2.ahead =
      evenSlots ((c.inner.nthBack c.skippedBack).2.left.drop c.lead) := rfl
  have hstep : c.stepBack.1 = (c.inner.nthBack c.skippedBack).1 := rfl
  rw [List.getLast?_eq_getElem?, List.dropLast_eq_take, hahead, hleft, hstep, hanswer]
  split at hskipped
  · obtain ⟨hlt, hplace⟩ := hskipped
    refine ⟨?_, ?_, hafter⟩
    · rw [if_pos hlt, hplace, getElem?_ahead]
    · rw [hplace, List.drop_take, Nat.add_sub_cancel_left, evenSlots_take, ahead]
  · have hnone : c.ahead = [] := by
      rw [ahead, List.drop_of_length_le (by omega), evenSlots]
    refine ⟨?_, ?_, hafter⟩
    · rw [if_neg (by omega), hnone]
      rfl
    · rw [Nat.sub_eq_zero_of_le hskipped, Nat.zero_sub, List.take_zero, List.drop_nil, hnone]
      rfl

/-- Where every step comes to a node, the first step does. -/
theorem findNode_eq {advance : NodeCursor → Option Element × NodeCursor} (budget : Nat)
    (h : ∀ e, (advance c).1 = some e → e.isNode = true) :
    findNode advance (budget + 1) c = advance c := by
  rw [findNode]
  split
  · rename_i after hstep
    exact hstep.symm
  · rename_i e after hstep
    rw [if_pos (h e (by rw [hstep])), hstep]

/-- Makes a call for an end. -/
def call : RunEnd → NodeCursor → Option Element × NodeCursor
  | .front, c => c.next
  | .back, c => c.nextBack

/-- A cursor over every second slot enumerates the even slots if they are all nodes. -/
theorem enumerates (h : ∀ e ∈ evenSlots slots, e.isNode = true) :
    Enumerates call (ofSlots slots) (evenSlots slots) := by
  refine .of_call (H := fun c items =>
    c.inner.Within ∧ c.ahead = items ∧ ∀ e ∈ items, e.isNode = true) ?_ 
    ⟨SlotCursor.within_ofSlots slots, ?_, h⟩
  · rintro c _ side ⟨hwithin, rfl, hnodes⟩
    cases side with
    | front =>
        obtain ⟨hanswer, hahead, hafter⟩ := step_spec hwithin
        have hnext : c.next = c.step := findNode_eq _ fun e he =>
          hnodes e (List.mem_of_head? (hanswer.symm.trans he))
        rw [call, hnext]
        exact ⟨hanswer, hafter, hahead, fun e he => hnodes e (List.mem_of_mem_tail he)⟩
    | back =>
        obtain ⟨hanswer, hahead, hafter⟩ := stepBack_spec hwithin
        have hnext : c.nextBack = c.stepBack := findNode_eq _ fun e he =>
          hnodes e (List.mem_of_getLast? (hanswer.symm.trans he))
        rw [call, hnext]
        exact ⟨hanswer, hafter, hahead, fun e he => hnodes e (List.dropLast_subset _ he)⟩
  · exact congrArg evenSlots (SlotCursor.left_ofSlots slots)

end NodeCursor

/-! ## Slots that fit -/

/-- Nodes stand in the even slots and tokens in the odd ones. -/
def FitsAt (slot : Nat) (e : Element) : Prop :=
  if slot % 2 = 0 then e.isNode = true else e.isToken = true

/-- The first slot that does not hold what it has to. -/
def FirstMisfit (slots : List Element) (i : Nat) : Prop :=
  (∃ e, slots[i]? = some e ∧ ¬ FitsAt i e) ∧ ∀ j < i, ∀ e, slots[j]? = some e → FitsAt j e

theorem FirstMisfit.unique {i j : Nat} (hi : FirstMisfit slots i) (hj : FirstMisfit slots j) :
    i = j := by
  obtain ⟨⟨e, he, hmisfit⟩, hbefore⟩ := hi
  obtain ⟨⟨e', he', hmisfit'⟩, hbefore'⟩ := hj
  rcases Nat.lt_trichotomy i j with hlt | heq | hgt
  · exact absurd (hbefore' i hlt e he) hmisfit
  · exact heq
  · exact absurd (hbefore j hgt e' he') hmisfit'

/-- A slot that fits is passed, and one that does not is reported with its role. -/
theorem checkSlots_cons (slot : Nat) {e : Element} (h : (e.isNode || e.isToken) = true)
    (rest : List Element) :
    (FitsAt slot e ∧ Element.checkSlots slot (e :: rest) = Element.checkSlots (slot + 1) rest) ∨
      (¬ FitsAt slot e ∧ Element.checkSlots slot (e :: rest) =
        .error (.malformedSeparatedList slot (.ofIndex slot))) := by
  have htoken : e.isToken = !e.isNode := by
    cases hnode : e.isNode with
    | false => rwa [hnode, Bool.false_or] at h
    | true =>
        cases e with
        | node _ _ _ => rfl
        | token _ | list _ _ | separated _ _ => cases hnode
  rw [Element.checkSlots, FitsAt, SlotRole.ofIndex, htoken]
  split <;> cases e.isNode <;> simp

/-- Behind a slot that fits, the slots are one further to the right. -/
theorem fitsAt_cons {slot n : Nat} {e : Element} {rest : List Element} (h : FitsAt slot e)
    (hrest : ∀ i < n, ∀ e', rest[i]? = some e' → FitsAt (slot + 1 + i) e') :
    ∀ i < n + 1, ∀ e', (e :: rest)[i]? = some e' → FitsAt (slot + i) e' := by
  intro i hi e' he'
  cases i with
  | zero =>
      cases he'
      exact h
  | succ i =>
      rw [← Nat.add_assoc, Nat.add_right_comm]
      exact hrest i (Nat.lt_of_succ_lt_succ hi) e' he'

/-- The check passes slots that fit, and stops at the first one that does not. -/
theorem checkSlots_cases (h : ∀ e ∈ slots, (e.isNode || e.isToken) = true) (slot : Nat) :
    (Element.checkSlots slot slots = .ok () ∧
      ∀ i < slots.length, ∀ e, slots[i]? = some e → FitsAt (slot + i) e) ∨
    ∃ i, (∃ e, slots[i]? = some e ∧ ¬ FitsAt (slot + i) e) ∧
      (∀ j < i, ∀ e, slots[j]? = some e → FitsAt (slot + j) e) ∧
      Element.checkSlots slot slots =
        .error (.malformedSeparatedList (slot + i) (.ofIndex (slot + i))) := by
  induction slots generalizing slot with
  | nil => exact .inl ⟨rfl, fun i hi => absurd hi (Nat.not_lt_zero i)⟩
  | cons e rest ih =>
      obtain ⟨hfirst, hrest⟩ := List.forall_mem_cons.mp h
      rcases checkSlots_cons slot hfirst rest with ⟨hfits, hcheck⟩ | ⟨hmisfit, hcheck⟩
      · rw [hcheck]
        rcases ih hrest (slot + 1) with ⟨hok, hall⟩ | ⟨i, ⟨e', he', hmisfit⟩, hbefore, herror⟩
        · exact .inl ⟨hok, fitsAt_cons hfits hall⟩
        · rw [Nat.add_right_comm] at hmisfit herror
          exact .inr ⟨i + 1, ⟨e', he', hmisfit⟩, fitsAt_cons hfits hbefore, herror⟩
      · exact .inr ⟨0, ⟨e, rfl, hmisfit⟩, fun j hj => absurd hj (Nat.not_lt_zero j), hcheck⟩

/-- Slots make a list, or the first one that does not fit is reported. -/
theorem newSeparated_cases (h : ∀ e ∈ slots, (e.isNode || e.isToken) = true) :
    (Element.newSeparated slots = .ok (.separated (Element.measureAll slots) slots) ∧
      ∀ i e, slots[i]? = some e → FitsAt i e) ∨
    ∃ i, FirstMisfit slots i ∧
      Element.newSeparated slots = .error (.malformedSeparatedList i (.ofIndex i)) := by
  rcases checkSlots_cases h 0 with ⟨hcheck, hall⟩ | ⟨i, hmisfit, hbefore, hcheck⟩
  · refine .inl ⟨by rw [Element.newSeparated, hcheck]; rfl, fun i e he => ?_⟩
    have hfits := hall i (List.getElem?_eq_some_iff.mp he).1 e he
    rwa [Nat.zero_add] at hfits
  · simp only [Nat.zero_add] at hmisfit hbefore hcheck
    exact .inr ⟨i, ⟨hmisfit, hbefore⟩, by rw [Element.newSeparated, hcheck]; rfl⟩

theorem newSeparated_ok_iff (h : ∀ e ∈ slots, (e.isNode || e.isToken) = true) :
    (∃ e, Element.newSeparated slots = .ok e) ↔ ∀ i e, slots[i]? = some e → FitsAt i e := by
  rcases newSeparated_cases h with ⟨hok, hall⟩ | ⟨i, ⟨⟨e, he, hmisfit⟩, _⟩, herror⟩
  · exact ⟨fun _ => hall, fun _ => ⟨_, hok⟩⟩
  · rw [herror]
    refine ⟨?_, fun hall => absurd (hall i e he) hmisfit⟩
    rintro ⟨_, hok⟩
    cases hok

theorem newSeparated_error_iff (h : ∀ e ∈ slots, (e.isNode || e.isToken) = true)
    (err : LookupError) :
    Element.newSeparated slots = .error err ↔
      ∃ i, FirstMisfit slots i ∧ err = .malformedSeparatedList i (.ofIndex i) := by
  rcases newSeparated_cases h with ⟨hok, hall⟩ | ⟨i, hfirst, herror⟩
  · rw [hok]
    refine ⟨nofun, ?_⟩
    rintro ⟨i, ⟨⟨e, he, hmisfit⟩, _⟩, _⟩
    exact absurd (hall i e he) hmisfit
  · rw [herror]
    constructor
    · intro heq
      cases heq
      exact ⟨i, hfirst, rfl⟩
    · rintro ⟨j, hj, rfl⟩
      rw [hfirst.unique hj]

/-! ## What a list is made of -/

theorem evenSlots_of_alternating (h : Element.alternating slots = true) :
    evenSlots slots = slots.filter Element.isNode ∧
      evenSlots slots.tail = slots.filter Element.isToken := by
  fun_induction Element.alternating slots with
  | case1 => exact ⟨rfl, rfl⟩
  | case2 e =>
      have htoken : e.isToken = false := by
        cases e <;> first | rfl | cases h
      exact ⟨by rw [List.filter_cons_of_pos h]; rfl, by simp [htoken, evenSlots]⟩
  | case3 e separator rest ih =>
      simp only [Bool.and_eq_true] at h
      obtain ⟨⟨hnode, hseparator⟩, hrest⟩ := h
      have hnode' := Element.isNode_eq_false_of_isToken hseparator
      obtain ⟨hnodes, htokens⟩ := ih hrest
      have htoken : e.isToken = false := by
        cases e <;> first | rfl | cases hnode
      rw [List.tail_cons, evenSlots_cons separator, htokens, evenSlots, hnodes]
      simp [hnode, hnode', hseparator, htoken]

/-- The node with an index is the one with that number among all nodes. -/
theorem nodeAt_eq (h : Element.alternating slots = true) (hlimit : slots.length < Index.limit)
    (i : Nat) :
    nodeAt slots i = match (slots.filter Element.isNode)[i]? with
      | some e => .ok e
      | none => .error (.indexOutOfRange i (count slots)) := by
  have hslot : (slots.filter Element.isNode)[i]? = slots[i * 2]? := by
    rw [← (evenSlots_of_alternating h).1, getElem?_evenSlots, Nat.mul_comm]
  rw [nodeAt, Index.mul, Bounded.mul, hslot]
  split
  · rename_i hmul
    split at hmul
    · cases hmul
    · rw [List.getElem?_eq_none (by omega)]
  · rename_i slot hmul
    split at hmul
    · cases hmul
      cases he : slots[i * 2]? with
      | none => rfl
      | some e =>
          rw [he] at hslot
          exact if_pos (List.mem_filter.mp (List.mem_of_getElem? hslot)).2
    · cases hmul

/-- The separator with an index is the one with that number among all tokens.  The last node
need not have one. -/
theorem separatorAt_eq (h : Element.alternating slots = true) (i : Nat) :
    separatorAt slots i = match (slots.filter Element.isToken)[i]? with
      | some e => .ok e
      | none =>
          if i < count slots then .error (.missingSeparator i)
          else .error (.indexOutOfRange i (separatorCount slots)) := by
  have hslot : (slots.filter Element.isToken)[i]? = slots[2 * i + 1]? := by
    rw [← (evenSlots_of_alternating h).2, getElem?_evenSlots, List.getElem?_tail]
  rw [separatorAt_eq_ite]
  split
  · rename_i hcount
    rw [hslot, List.getElem?_eq_none (by rw [count] at hcount; omega)]
    exact (if_neg (Nat.not_lt.mpr hcount)).symm
  · rename_i hcount
    rw [hslot]
    cases he : slots[2 * i + 1]? with
    | none => exact (if_pos (Nat.lt_of_not_le hcount)).symm
    | some e =>
        rw [he] at hslot
        exact if_pos (List.mem_filter.mp (List.mem_of_getElem? hslot)).2

/-- A computation that comes to the slot of every separator finds the separator. -/
theorem separatorBehind_of_pure {m : Type → Type} [Monad m] [LawfulMonad m] {slotOf : Nat → m Nat}
    {i : Nat} (h : i < count slots → slotOf i = pure (2 * i + 1)) :
    separatorBehind slotOf slots i = pure (separatorAt slots i) := by
  rw [separatorBehind, separatorAt_eq_ite]
  split
  · rfl
  · rename_i hcount
    rw [h (Nat.lt_of_not_le hcount), pure_bind]

/-- The slot of a separator has an index again if all slots have one. -/
theorem fetchSeparator_eq (hlimit : slots.length < Index.limit) (i : Nat) :
    fetchSeparator slots i = .ok (separatorAt slots i) := by
  refine separatorBehind_of_pure fun hcount => ?_
  have hadd : 2 * i + 1 < Index.limit := by
    rw [count] at hcount
    omega
  have hmul : Index.mul 2 i = .ok (2 * i) := if_pos (by omega)
  rw [hmul]
  exact if_pos hadd

theorem count_eq_length (h : Element.alternating slots = true) :
    count slots = (slots.filter Element.isNode).length ∧
      separatorCount slots = (slots.filter Element.isToken).length := by
  obtain ⟨hnodes, htokens⟩ := evenSlots_of_alternating h
  rw [← hnodes, ← htokens, length_evenSlots, length_evenSlots, List.length_tail, count,
    separatorCount]
  omega

theorem hasTrailingSeparator_iff (slots : List Element) :
    hasTrailingSeparator slots = true ↔ slots.length ≠ 0 ∧ slots.length % 2 = 0 := by
  rw [hasTrailingSeparator, Bool.and_eq_true, bne_iff_ne, beq_iff_eq]

/-- There is one node more than separators, unless the last slot is a separator. -/
theorem count_eq_separatorCount_add (slots : List Element) :
    count slots = separatorCount slots +
      if slots = [] ∨ hasTrailingSeparator slots = true then 0 else 1 := by
  rw [count, separatorCount]
  split <;> rename_i h <;>
    rw [← List.length_eq_zero_iff, hasTrailingSeparator_iff] at h <;> omega

/-- Only the last node can lack a separator. -/
theorem lastNode_iff (slots : List Element) (i : Nat) :
    (i + 1 = count slots ∧ hasTrailingSeparator slots = false) ↔
      (separatorCount slots ≤ i ∧ i < count slots) := by
  rw [← Bool.not_eq_true, hasTrailingSeparator_iff, count, separatorCount]
  omega

theorem nodeAt_ok_iff (h : Element.alternating slots = true) (hlimit : slots.length < Index.limit)
    (i : Nat) (n : Element) :
    nodeAt slots i = .ok n ↔ (slots.filter Element.isNode)[i]? = some n := by
  rw [nodeAt_eq h hlimit]
  cases (slots.filter Element.isNode)[i]? <;> simp

theorem nodeAt_error_iff (h : Element.alternating slots = true)
    (hlimit : slots.length < Index.limit) (i : Nat) (err : LookupError) :
    nodeAt slots i = .error err ↔
      count slots ≤ i ∧ err = .indexOutOfRange i (count slots) := by
  rw [nodeAt_eq h hlimit, (count_eq_length h).1, ← List.getElem?_eq_none_iff]
  cases (slots.filter Element.isNode)[i]? <;> simp [eq_comm]

theorem separatorAt_ok_iff (h : Element.alternating slots = true) (i : Nat) (t : Element) :
    separatorAt slots i = .ok t ↔ (slots.filter Element.isToken)[i]? = some t := by
  rw [separatorAt_eq h]
  cases (slots.filter Element.isToken)[i]? with
  | some e => simp
  | none =>
      refine iff_of_false ?_ nofun
      dsimp only
      split <;> exact nofun

theorem separatorAt_error_iff (h : Element.alternating slots = true) (i : Nat)
    (err : LookupError) :
    separatorAt slots i = .error err ↔
      (i + 1 = count slots ∧ hasTrailingSeparator slots = false ∧ err = .missingSeparator i) ∨
      (count slots ≤ i ∧ err = .indexOutOfRange i (separatorCount slots)) := by
  rw [← and_assoc, lastNode_iff, separatorAt_eq h, (count_eq_length h).2]
  cases hi : (slots.filter Element.isToken)[i]? with
  | some e =>
      have hlt := (List.getElem?_eq_some_iff.mp hi).1
      have hle : (slots.filter Element.isToken).length ≤ count slots := by
        rw [← (count_eq_length h).2, count_eq_separatorCount_add]
        exact Nat.le_add_right _ _
      refine iff_of_false nofun ?_
      rintro (⟨⟨hge, -⟩, -⟩ | ⟨hge, -⟩) <;> omega
  | none =>
      have hge := List.getElem?_eq_none_iff.mp hi
      dsimp only
      split
      · rename_i hlt
        simp [hge, hlt, Nat.not_le.mpr hlt, eq_comm]
      · rename_i hlt
        simp [hlt, Nat.le_of_not_lt hlt, eq_comm]

/-- A list represents its slots: it can be made again of what it gives back, it enumerates the
slots and the nodes among them, and its counts and accessors are those of the nodes and the
tokens among the slots. -/
structure Represents (slots : List Element) (e : Element) : Prop where
  children_eq : e.children = slots
  rebuilt : Element.newSeparated e.children = .ok e
  elements : Enumerates SlotCursor.call (.ofSlots e.children) slots
  nodes : Enumerates NodeCursor.call (.ofSlots e.children) (slots.filter Element.isNode)
  nodes_eq : Separated.nodes e.children = slots.filter Element.isNode
  interleaved : interleave (slots.filter Element.isNode) (slots.filter Element.isToken) = slots
  count_eq : count e.children = (slots.filter Element.isNode).length
  separatorCount_eq : separatorCount e.children = (slots.filter Element.isToken).length
  count_add : count e.children + separatorCount e.children = slots.length
  /-- Nodes and separators are as many, or there is one node more. -/
  count_excess : count e.children = separatorCount e.children +
    if slots = [] ∨ hasTrailingSeparator e.children = true then 0 else 1
  nodeAt_ok : ∀ i n, nodeAt e.children i = .ok n ↔ (slots.filter Element.isNode)[i]? = some n
  nodeAt_error : ∀ i err, nodeAt e.children i = .error err ↔
    count e.children ≤ i ∧ err = .indexOutOfRange i (count e.children)
  separatorAt_ok : ∀ i t,
    separatorAt e.children i = .ok t ↔ (slots.filter Element.isToken)[i]? = some t
  separatorAt_error : ∀ i err, separatorAt e.children i = .error err ↔
    (i + 1 = count e.children ∧ hasTrailingSeparator e.children = false ∧
      err = .missingSeparator i) ∨
    (count e.children ≤ i ∧ err = .indexOutOfRange i (separatorCount e.children))
  /-- The doubled index of a separator and the one behind it are indexes again. -/
  separator_index : ∀ i, fetchSeparator e.children i = .ok (separatorAt e.children i)

/-- A list whose slots alternate represents them. -/
theorem represents_of_alternating {e : Element} (hchildren : e.children = slots)
    (hnew : Element.newSeparated slots = .ok e) (h : Element.alternating slots = true)
    (hlimit : slots.length < Index.limit) : Represents slots e := by
  subst hchildren
  obtain ⟨hnodes, htokens⟩ := evenSlots_of_alternating h
  have hall : ∀ n ∈ evenSlots e.children, n.isNode = true := by
    rw [hnodes]
    exact fun n hn => (List.mem_filter.mp hn).2
  exact {
    children_eq := rfl
    rebuilt := hnew
    elements := SlotCursor.enumerates e.children
    nodes := hnodes ▸ NodeCursor.enumerates hall
    nodes_eq := (List.filter_eq_self.mpr hall).trans hnodes
    interleaved := by rw [← hnodes, ← htokens, interleave_evenSlots]
    count_eq := (count_eq_length h).1
    separatorCount_eq := (count_eq_length h).2
    count_add := by
      rw [count, separatorCount]
      omega
    count_excess := count_eq_separatorCount_add e.children
    nodeAt_ok := nodeAt_ok_iff h hlimit
    nodeAt_error := nodeAt_error_iff h hlimit
    separatorAt_ok := separatorAt_ok_iff h
    separatorAt_error := separatorAt_error_iff h
    separator_index := fetchSeparator_eq hlimit }

/-- Slots make a list exactly if nodes stand in the even ones and tokens in the odd ones, and
otherwise the first one that does not fit is reported with what it has to be.  What a list
says about its nodes, its separators and their numbers is then what the slots say.  All of it
holds for every index, and no index that is computed on the way is too large. -/
theorem newSeparated_spec (slots : List Element)
    (hslots : ∀ e ∈ slots, (e.isNode || e.isToken) = true)
    (hlimit : slots.length < Index.limit) :
    ((∃ e, Element.newSeparated slots = .ok e) ↔ ∀ i e, slots[i]? = some e → FitsAt i e) ∧
    (∀ err, Element.newSeparated slots = .error err ↔
      ∃ i, FirstMisfit slots i ∧
        err = .malformedSeparatedList i (if i % 2 = 0 then .node else .separator)) ∧
    ∀ e, Element.newSeparated slots = .ok e → Represents slots e := by
  refine ⟨newSeparated_ok_iff hslots, newSeparated_error_iff hslots, fun e he => ?_⟩
  obtain ⟨_, hcheck, hmade⟩ := exists_of_bind he
  cases hmade
  have halternating := Element.alternating_of_slots (Nat.zero_mod 2) hslots hcheck
  exact represents_of_alternating rfl he halternating hlimit

/-- A name. -/
def nameSlot (text : String) : Element :=
  .makeNode .nameExpression [.token (.make .identifier text.toList .empty .empty)]

/-- A comma with a space behind it. -/
def commaSlot : Element :=
  .token (.make .comma ",".toList .empty (.ofList [⟨.whitespace, " ".toList⟩]))

/-- Two names, each with a comma behind it, and three names with only one comma. -/
theorem newSeparated_spec_names :
    let commas := [nameSlot "a", commaSlot, nameSlot "b", commaSlot]
    let names := [nameSlot "a", commaSlot, nameSlot "b", nameSlot "c"]
    (∀ e ∈ commas, (e.isNode || e.isToken) = true) ∧ commas.length < Index.limit ∧
      (∀ e ∈ names, (e.isNode || e.isToken) = true) ∧ names.length < Index.limit ∧
      Represents commas (.separated (Element.measureAll commas) commas) ∧
      Separated.nodes commas = [nameSlot "a", nameSlot "b"] ∧
      answersTo NodeCursor.call [.back, .front, .back] (.ofSlots commas) =
        [some (nameSlot "b"), some (nameSlot "a"), none] ∧
      nodeAt commas 9223372036854775808 = .error (.indexOutOfRange 9223372036854775808 2) ∧
      FirstMisfit names 3 ∧
      Element.newSeparated names = .error (.malformedSeparatedList 3 .separator) := by
  intro commas names
  have hcommas : ∀ e ∈ commas, (e.isNode || e.isToken) = true := by decide
  have hnames : ∀ e ∈ names, (e.isNode || e.isToken) = true := by decide
  have hlimit : commas.length < Index.limit := by decide
  have hlimit' : names.length < Index.limit := by decide
  have hrepresents := (newSeparated_spec commas hcommas hlimit).2.2 _ rfl
  obtain ⟨i, hfirst, herror⟩ := ((newSeparated_spec names hnames hlimit').2.1
    (.malformedSeparatedList 3 .separator)).mp rfl
  cases herror
  have hcount : 2 = count commas := by decide
  exact ⟨hcommas, hlimit, hnames, hlimit', hrepresents, hrepresents.nodes_eq,
    hrepresents.nodes.mixed [.back, .front, .back],
    (hrepresents.nodeAt_error _ _).mpr ⟨by decide, congrArg _ hcount⟩, hfirst, rfl⟩

end Separated

end Verbatim
