/-
  The preorder traversal as an iterator over recursive events.

  The events of a node are that it is entered, the events of its flattened children, and
  that it is left.  A traversal in progress has a list of events left: for each open node,
  innermost first, those of the children that are left and the leaving of the node.  A step
  takes the first of them off, whatever was skipped before, so a traversal is the list of
  the events that it has left.  Skipping drops one part of that list.  The events of children
  are balanced, so the part ends with the leaving of the innermost open node.
-/
import Verbatim.Proofs.AncestorPath

set_option autoImplicit false

namespace Verbatim

namespace Element

/-! ## Recursive events -/

mutual

/-- The steps of a traversal of the element: a node is entered before all that is below it
and left after that, and lists do not show. -/
def events : Element → List WalkEvent
  | .token t => [.token t]
  | .node k m cs => .enter (.node k m cs) :: (eventsAll cs ++ [.leave (.node k m cs)])
  | .list _ cs => eventsAll cs
  | .separated _ cs => eventsAll cs

/-- The steps of a traversal of neighbours. -/
def eventsAll : List Element → List WalkEvent
  | [] => []
  | e :: rest => e.events ++ eventsAll rest

end

theorem eventsAll_eq_flatMap (es : List Element) : eventsAll es = es.flatMap events := by
  induction es with
  | nil => rfl
  | cons e rest ih => rw [eventsAll, ih, List.flatMap_cons]

theorem eventsAll_flattened (e : Element) : eventsAll e.flattened = e.events := by
  cases e with
  | token _ | node _ _ _ => exact List.append_nil _
  | list _ _ | separated _ _ => rfl

/-- Replacing lists by what they hold keeps the events. -/
theorem eventsAll_flatChildren (e : Element) : eventsAll e.flatChildren = eventsAll e.children := by
  rw [flatChildren_eq, eventsAll_eq_flatMap, eventsAll_eq_flatMap, List.flatMap_assoc]
  simp only [← eventsAll_eq_flatMap, eventsAll_flattened]

/-- A node is entered, its flattened children are traversed, and it is left. -/
theorem events_of_isNode {e : Element} (h : e.isNode = true) :
    e.events = .enter e :: (e.flatChildren.flatMap events ++ [.leave e]) := by
  rw [← eventsAll_eq_flatMap, eventsAll_flatChildren]
  cases e with
  | node _ _ _ => rfl
  | token _ | list _ _ | separated _ _ => cases h

end Element

/-! ## Balanced events -/

namespace WalkEvent

/-- Every node that is entered is left, in the opposite order, and no other node is. -/
inductive Balanced : List WalkEvent → Prop
  | nil : Balanced []
  | token (t : Token) {later : List WalkEvent} : Balanced later → Balanced (.token t :: later)
  | node (e : Element) {inner later : List WalkEvent} :
      Balanced inner → Balanced later → Balanced (.enter e :: (inner ++ .leave e :: later))

theorem Balanced.append {xs ys : List WalkEvent} (hx : Balanced xs) (hy : Balanced ys) :
    Balanced (xs ++ ys) := by
  induction hx with
  | nil => exact hy
  | token t _ ih => exact .token t ih
  | node e hinner _ _ ih =>
      rw [List.cons_append, List.append_assoc, List.cons_append]
      exact .node e hinner ih

end WalkEvent

open WalkEvent (Balanced)

namespace Element

theorem balanced_eventsAll {es : List Element} (h : ∀ e ∈ es, Balanced e.events) :
    Balanced (eventsAll es) := by
  induction es with
  | nil => exact .nil
  | cons e rest ih =>
      obtain ⟨he, hrest⟩ := List.forall_mem_cons.mp h
      exact he.append (ih hrest)

theorem balanced_events (e : Element) : Balanced e.events := by
  induction e using Element.induction with
  | token t => exact .token t .nil
  | node kind measure children ih => exact .node _ (balanced_eventsAll ih) .nil
  | list measure nodes ih => exact balanced_eventsAll ih
  | separated measure slots ih => exact balanced_eventsAll ih

/-! ## The number of events -/

theorem length_eventsAll_le {es : List Element} (h : ∀ e ∈ es, e.events.length ≤ 2 * e.size) :
    (eventsAll es).length ≤ 2 * sizeAll es := by
  induction es with
  | nil => exact Nat.le_refl _
  | cons e rest ih =>
      obtain ⟨he, hrest⟩ := List.forall_mem_cons.mp h
      have hlater := ih hrest
      rw [eventsAll, List.length_append, sizeAll]
      omega

/-- There are at most two events for each element. -/
theorem length_events_le (e : Element) : e.events.length ≤ 2 * e.size := by
  induction e using Element.induction with
  | token t => exact Nat.le_succ _
  | node kind measure children ih =>
      have hall := length_eventsAll_le ih
      simp only [events, size, List.length_cons, List.length_append, List.length_nil]
      omega
  | list measure nodes ih | separated measure slots ih =>
      have hall := length_eventsAll_le ih
      simp only [events, size]
      omega

end Element

namespace Preorder

/-! ## The events that are left -/

/-- The events that the traversal has left: those of the children of each open node that
are left and the leaving of the node, innermost first, and all events of a root that has
not been entered. -/
def remaining (p : Preorder) : List WalkEvent :=
  p.stack.flatMap (fun frame => Element.eventsAll frame.2 ++ [.leave frame.1]) ++
    (p.root.map Element.events).getD []

theorem remaining_start (root : Element) : (start root).remaining = root.events := rfl

/-- Elements that a traversal of a tree can have left: nodes and tokens. -/
def AreFlat (es : List Element) : Prop :=
  ∀ c ∈ es, c.Regular ∧ (c.isNode || c.isToken) = true

theorem areFlat_flatChildren {e : Element} (h : e.Regular) : AreFlat e.flatChildren := by
  intro c hc
  rw [Element.flatChildren_eq] at hc
  obtain ⟨d, hd, hc⟩ := List.mem_flatMap.mp hc
  have hregular := h.children d hd
  refine ⟨?_, hregular.isFlat_flattened c hc⟩
  cases d with
  | token _ | node _ _ _ =>
      obtain rfl := List.mem_singleton.mp hc
      exact hregular
  | list _ _ | separated _ _ => exact hregular.children c hc

/-- What a traversal of a tree keeps: only nodes and tokens are left among the children of
open nodes, and the root has been entered, or nothing else has. -/
structure Proper (p : Preorder) : Prop where
  rest : ∀ frame ∈ p.stack, AreFlat frame.2
  root : ∀ root ∈ p.root, root.Regular ∧ root.isNode = true
  root_of_stack : p.stack ≠ [] → p.root = none

theorem proper_start {root : Element} (h : root.Regular) (hnode : root.isNode = true) :
    (start root).Proper where
  rest := List.forall_mem_nil _
  root := by
    rintro _ ⟨⟩
    exact ⟨h, hnode⟩
  root_of_stack := fun hne => absurd rfl hne

theorem proper_of_stack {stack : List (Element × List Element)}
    (h : ∀ frame ∈ stack, AreFlat frame.2) : Proper ⟨stack, none⟩ :=
  ⟨h, nofun, fun _ => rfl⟩

/-! ## One step -/

/-- The nodes that are open behind a step. -/
def openedBy (opened : List Element) : Option WalkEvent → List Element
  | some (.enter e) => e :: opened
  | some (.leave _) => opened.tail
  | some (.token _) | none => opened

/-- A step takes off the first of the events that are left, and opens and closes nodes as
that event says. -/
structure TakesFirst (p : Preorder) (event : Option WalkEvent) (q : Preorder) : Prop where
  proper : q.Proper
  event_eq : event = p.remaining.head?
  remaining_eq : q.remaining = p.remaining.tail
  opened_eq : q.stack.map Prod.fst = openedBy (p.stack.map Prod.fst) event

theorem takesFirst_root {root : Element} (h : root.Regular) (hnode : root.isNode = true) :
    TakesFirst ⟨[], some root⟩ (some (.enter root)) ⟨[(root, root.flatChildren)], none⟩ := by
  have hevents := Element.events_of_isNode hnode
  rw [← Element.eventsAll_eq_flatMap] at hevents
  refine ⟨proper_of_stack (List.forall_mem_singleton.mpr (areFlat_flatChildren h)), ?_, ?_, rfl⟩
  · simp [remaining, hevents]
  · simp [remaining, hevents]

section

variable {node : Element} {rest : List Element} {outer : List (Element × List Element)}

theorem takesFirst_leave (houter : ∀ frame ∈ outer, AreFlat frame.2) :
    TakesFirst ⟨(node, []) :: outer, none⟩ (some (.leave node)) ⟨outer, none⟩ where
  proper := proper_of_stack houter
  event_eq := rfl
  remaining_eq := rfl
  opened_eq := rfl

theorem takesFirst_token (t : Token) (hrest : AreFlat rest)
    (houter : ∀ frame ∈ outer, AreFlat frame.2) :
    TakesFirst ⟨(node, .token t :: rest) :: outer, none⟩ (some (.token t))
      ⟨(node, rest) :: outer, none⟩ where
  proper := proper_of_stack (List.forall_mem_cons.mpr ⟨hrest, houter⟩)
  event_eq := rfl
  remaining_eq := rfl
  opened_eq := rfl

theorem takesFirst_child {child : Element} (hchild : child.Regular) (hnode : child.isNode = true)
    (hrest : AreFlat rest) (houter : ∀ frame ∈ outer, AreFlat frame.2) :
    TakesFirst ⟨(node, child :: rest) :: outer, none⟩ (some (.enter child))
      ⟨(child, child.flatChildren) :: (node, rest) :: outer, none⟩ := by
  have hevents := Element.events_of_isNode hnode
  rw [← Element.eventsAll_eq_flatMap] at hevents
  refine ⟨proper_of_stack ?_, ?_, ?_, rfl⟩
  · simp only [List.forall_mem_cons]
    exact ⟨areFlat_flatChildren hchild, hrest, houter⟩
  · simp [remaining, Element.eventsAll, hevents]
  · simp [remaining, Element.eventsAll, hevents]

end

/-- Where nothing is left, a step changes nothing. -/
theorem takesFirst_done : TakesFirst ⟨[], none⟩ none ⟨[], none⟩ where
  proper := proper_of_stack (List.forall_mem_nil _)
  event_eq := rfl
  remaining_eq := rfl
  opened_eq := rfl

theorem Proper.next {p : Preorder} (h : p.Proper) : TakesFirst p p.next.1 p.next.2 := by
  obtain ⟨stack, root⟩ := p
  obtain ⟨hrest, hroot, hstack⟩ := h
  cases stack with
  | nil =>
      cases root with
      | none => exact takesFirst_done
      | some root => exact takesFirst_root (hroot root rfl).1 (hroot root rfl).2
  | cons frame outer =>
      obtain rfl : root = none := hstack (List.cons_ne_nil _ _)
      obtain ⟨node, rest⟩ := frame
      obtain ⟨hhere, houter⟩ := List.forall_mem_cons.mp hrest
      cases rest with
      | nil => exact takesFirst_leave houter
      | cons child rest =>
          obtain ⟨⟨hchild, hflat⟩, hlater⟩ := List.forall_mem_cons.mp hhere
          cases child with
          | token t => exact takesFirst_token t hlater houter
          | node _ _ _ => exact takesFirst_child hchild rfl hlater houter
          | list _ _ | separated _ _ => cases hflat

/-! ## All further steps -/

/-- The traversal behind the next `n` steps. -/
def after : Nat → Preorder → Preorder
  | 0, p => p
  | n + 1, p => after n p.next.2

/-- The further steps are the events, one after the other, and then there are none. -/
def Yields (p : Preorder) (events : List WalkEvent) : Prop :=
  ∀ n, (p.after n).next.1 = events[n]?

theorem Proper.after {p : Preorder} (h : p.Proper) (n : Nat) :
    (p.after n).Proper ∧ (p.after n).remaining = p.remaining.drop n := by
  induction n generalizing p with
  | zero => exact ⟨h, rfl⟩
  | succ n ih =>
      obtain ⟨hproper, hremaining⟩ := ih h.next.proper
      refine ⟨hproper, hremaining.trans ?_⟩
      rw [h.next.remaining_eq, List.drop_tail]

/-- A traversal is the list of the events that it has left. -/
theorem Proper.yields {p : Preorder} (h : p.Proper) : p.Yields p.remaining := by
  intro n
  obtain ⟨hproper, hremaining⟩ := h.after n
  rw [hproper.next.event_eq, hremaining, List.head?_drop]

/-- As many steps as the budget allows are the first of the events that are left. -/
theorem Proper.run_eq {p : Preorder} (h : p.Proper) (budget : Nat) :
    run budget p = p.remaining.take budget := by
  induction budget generalizing p with
  | zero => rfl
  | succ budget ih =>
      have hnext := h.next
      have hlater := ih hnext.proper
      have hevent := hnext.event_eq
      rw [hnext.remaining_eq] at hlater
      rw [run]
      cases hremaining : p.remaining with
      | nil =>
          rw [hremaining] at hevent
          split
          · rfl
          · rename_i heq
            rw [heq] at hevent
            cases hevent
      | cons first later =>
          rw [hremaining] at hevent hlater
          split
          · rename_i heq
            rw [heq] at hevent
            cases hevent
          · rename_i heq
            rw [heq] at hevent hlater
            cases hevent
            rw [hlater]
            rfl

/-! ## Skipping -/

/-- States of a traversal that are reached by steps and skips in any order, with the nodes
that are open there, innermost first: those that have been entered and neither left nor
skipped. -/
inductive Reaches (root : Element) : List Element → Preorder → Prop
  | start : Reaches root [] (start root)
  | next {opened : List Element} {p : Preorder} :
      Reaches root opened p → Reaches root (openedBy opened p.next.1) p.next.2
  | skip {node : Element} {opened : List Element} {p q : Preorder} :
      Reaches root (node :: opened) p → p.skip = .ok q → Reaches root opened q

theorem Proper.skip {p q : Preorder} (h : p.Proper) (hskip : p.skip = .ok q) : q.Proper := by
  obtain ⟨stack, root⟩ := p
  cases stack with
  | nil => cases hskip
  | cons frame outer =>
      cases hskip
      obtain rfl : root = none := h.root_of_stack (List.cons_ne_nil _ _)
      exact proper_of_stack (List.forall_mem_cons.mp h.rest).2

/-- The open nodes are those on the stack. -/
theorem Reaches.proper {root : Element} (hroot : root.Regular) (hnode : root.isNode = true)
    {opened : List Element} {p : Preorder} (h : Reaches root opened p) :
    p.Proper ∧ p.stack.map Prod.fst = opened := by
  induction h with
  | start => exact ⟨proper_start hroot hnode, rfl⟩
  | next _ ih =>
      obtain ⟨hproper, hopened⟩ := ih
      exact ⟨hproper.next.proper, by rw [hproper.next.opened_eq, hopened]⟩
  | @skip node opened p q _ hskip ih =>
      obtain ⟨hproper, hopened⟩ := ih
      refine ⟨hproper.skip hskip, ?_⟩
      obtain ⟨stack, left⟩ := p
      cases stack with
      | nil => cases hskip
      | cons frame outer =>
          cases hskip
          exact (List.cons.inj hopened).2

/-- Without an open node there is nothing to skip.  Otherwise a skip drops the events up to
the leaving of the innermost open node: those in front of it are balanced, so that it is not
the leaving of a node that is still to be entered. -/
def SkipsInnermost (p : Preorder) : List Element → Prop
  | [] => p.skip = .error .nothingToSkip
  | node :: _ => ∃ q within later, p.skip = .ok q ∧ Balanced within ∧
      p.Yields (within ++ .leave node :: later) ∧ q.Yields later

theorem Proper.skipsInnermost {p : Preorder} (h : p.Proper) :
    p.SkipsInnermost (p.stack.map Prod.fst) := by
  obtain ⟨stack, root⟩ := p
  cases stack with
  | nil => exact rfl
  | cons frame outer =>
      obtain ⟨node, rest⟩ := frame
      obtain rfl : root = none := h.root_of_stack (List.cons_ne_nil _ _)
      have hskip : Preorder.skip ⟨(node, rest) :: outer, none⟩ = .ok ⟨outer, none⟩ := rfl
      have hall := h.yields
      have hlater := (h.skip hskip).yields
      refine ⟨⟨outer, none⟩, Element.eventsAll rest, remaining ⟨outer, none⟩, hskip,
        Element.balanced_eventsAll fun e _ => e.balanced_events, ?_, hlater⟩
      have hremaining : remaining ⟨(node, rest) :: outer, none⟩ =
          Element.eventsAll rest ++ .leave node :: remaining ⟨outer, none⟩ := by
        simp [remaining]
      rwa [hremaining] at hall

/-- A traversal of a tree yields the recursive events of its root, and wherever it is, a skip
drops what is left of the innermost open node and nothing else. -/
structure TraversesRecursively (root : Element) : Prop where
  yields : (start root).Yields root.events
  /-- The budget of a whole traversal is enough. -/
  preorder_eq : root.preorder = root.events
  events_node : ∀ e : Element, e.isNode = true →
    e.events = .enter e :: (e.flatChildren.flatMap Element.events ++ [.leave e])
  skips : ∀ opened p, Reaches root opened p → p.SkipsInnermost opened

end Preorder

/-- Every traversal of a tree, with steps and skips in any order, follows the recursive
events of the root. -/
theorem Element.preorder_traverses_recursively {root : Element} (h : root.Constructed)
    (hnode : root.isNode = true) : Preorder.TraversesRecursively root where
  yields := (Preorder.proper_start h.regular hnode).yields
  preorder_eq := by
    rw [preorder, (Preorder.proper_start h.regular hnode).run_eq, Preorder.remaining_start]
    exact List.take_of_length_le (Nat.le_succ_of_le root.length_events_le)
  events_node := fun _ => Element.events_of_isNode
  skips := by
    intro opened p hreach
    obtain ⟨hproper, hopened⟩ := hreach.proper h.regular hnode
    rw [← hopened]
    exact hproper.skipsInnermost

/-- A traversal of the arguments `(a, b)` that has skipped the first one. -/
def Preorder.skippedArgument : Preorder :=
  ⟨[(Element.spacedArguments, Element.spacedArguments.flatChildren.drop 2)], none⟩

/-- The second argument and the brackets around it are left, and a further skip drops them
all. -/
theorem Element.preorder_spacedArguments :
    spacedArguments.Constructed ∧ spacedArguments.isNode = true ∧
      Preorder.Reaches spacedArguments [spacedArguments] .skippedArgument ∧
      Preorder.skippedArgument.SkipsInnermost [spacedArguments] ∧
      Preorder.TraversesRecursively spacedArguments := by
  have hall := preorder_traverses_recursively constructed_spacedArguments rfl
  have hreach : Preorder.Reaches spacedArguments [spacedArguments] .skippedArgument :=
    .skip (.next (.next (.next .start))) rfl
  exact ⟨constructed_spacedArguments, rfl, hreach, hall.skips _ _ hreach, hall⟩

end Verbatim
