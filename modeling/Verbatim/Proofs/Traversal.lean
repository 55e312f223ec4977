/-
  The preorder traversal meets the leaves of a tree from left to right.

  The traversal keeps a stack of open nodes with what is left of their children.  The
  leaves that it has not met are those of what is left, innermost first, and a step
  either meets the first of them or rearranges the stack without changing them.  Each
  step lowers the number of elements that are left, so the budget of a traversal lasts.
-/
import Mathlib.Algebra.GroupWithZero.Nat
import Verbatim.Tree.Preorder
import Verbatim.Proofs.TreeViews

set_option autoImplicit false

namespace Verbatim

/-! ## Flattened children -/

namespace Element

theorem isToken_of_isNode {e : Element} (h : e.isNode = true) : e.isToken = false := by
  cases e with
  | node _ _ _ => rfl
  | token _ | list _ _ | separated _ _ => cases h

theorem sizeAll_append (a b : List Element) : sizeAll (a ++ b) = sizeAll a + sizeAll b := by
  induction a with
  | nil => simp [sizeAll]
  | cons e rest ih => rw [List.cons_append, sizeAll, sizeAll, ih, Nat.add_assoc]

theorem leaves_eq_children {e : Element} (h : e.isToken = false) :
    e.leaves = leavesAll e.children := by
  cases e with
  | token t => cases h
  | node _ _ _ | list _ _ | separated _ _ => rfl

theorem size_eq_children {e : Element} (h : e.isToken = false) :
    e.size = sizeAll e.children + 1 := by
  cases e with
  | token t => cases h
  | node _ _ _ | list _ _ | separated _ _ => rfl

/-- Replacing lists by what they hold keeps the leaves. -/
theorem leavesAll_flatChildren (e : Element) : leavesAll e.flatChildren = leavesAll e.children := by
  unfold flatChildren
  induction e.children with
  | nil => rfl
  | cons c rest ih =>
      rw [List.flatMap_cons, leavesAll_append, ih, leavesAll]
      cases c with
      | token _ | node _ _ _ => rw [leavesAll_singleton]
      | list _ _ | separated _ _ => rfl

/-- Replacing lists by what they hold does not add elements. -/
theorem sizeAll_flatChildren_le (e : Element) : sizeAll e.flatChildren ≤ sizeAll e.children := by
  unfold flatChildren
  induction e.children with
  | nil => exact Nat.le_refl _
  | cons c rest ih =>
      rw [List.flatMap_cons, sizeAll_append, sizeAll]
      refine Nat.add_le_add ?_ ih
      cases c with
      | token _ | node _ _ _ => simp [sizeAll]
      | list _ _ | separated _ _ => exact Nat.le_succ _

end Element

/-! ## The leaves that are left -/

namespace Preorder

/-- The leaves that the traversal has not met. -/
def pending (p : Preorder) : List Token :=
  p.stack.flatMap (fun frame => Element.leavesAll frame.2) ++ (p.root.map Element.leaves).getD []

/-- More steps than the traversal has left. -/
def weight (p : Preorder) : Nat :=
  (p.stack.map fun frame => 2 * Element.sizeAll frame.2 + 1).sum +
    (p.root.map fun root => 2 * root.size).getD 0

/-- The root has been entered, or nothing else has. -/
structure Ready (p : Preorder) : Prop where
  root_of_stack : p.stack ≠ [] → p.root = none
  root_isToken : ∀ root ∈ p.root, root.isToken = false

/-- What a step does: it meets the first leaf that is left or none, and lowers the weight. -/
structure Meets (p : Preorder) (event : WalkEvent) (q : Preorder) : Prop where
  ready : q.Ready
  weight_lt : q.weight < p.weight
  pending_eq : p.pending = event.token?.toList ++ q.pending

theorem ready_of_stack (stack : List (Element × List Element)) : Ready ⟨stack, none⟩ :=
  ⟨fun _ => rfl, nofun⟩

/-- The root is entered. -/
theorem meets_root {root : Element} (h : root.isToken = false) :
    Meets ⟨[], some root⟩ (.enter root) ⟨[(root, root.flatChildren)], none⟩ where
  ready := ready_of_stack _
  weight_lt := by
    have hsize := Element.size_eq_children h
    have hflat := Element.sizeAll_flatChildren_le root
    simp only [weight, List.map_cons, List.map_nil, List.sum_cons, List.sum_nil, Option.map_none,
      Option.map_some, Option.getD_none, Option.getD_some]
    omega
  pending_eq := by
    simp [pending, WalkEvent.token?, Element.leaves_eq_children h, Element.leavesAll_flatChildren]

section

variable (node : Element) (rest : List Element) (outer : List (Element × List Element))

/-- A node whose children have been visited is left. -/
theorem meets_leave : Meets ⟨(node, []) :: outer, none⟩ (.leave node) ⟨outer, none⟩ where
  ready := ready_of_stack _
  weight_lt := by simp [weight, Element.sizeAll]
  pending_eq := by simp [pending, WalkEvent.token?, Element.leavesAll]

theorem meets_token (t : Token) :
    Meets ⟨(node, .token t :: rest) :: outer, none⟩ (.token t) ⟨(node, rest) :: outer, none⟩ where
  ready := ready_of_stack _
  weight_lt := by simp [weight, Element.sizeAll, Element.size]
  pending_eq := by simp [pending, WalkEvent.token?, Element.leavesAll, Element.leaves]

/-- A child is entered. -/
theorem meets_child {child : Element} (h : child.isToken = false) :
    Meets ⟨(node, child :: rest) :: outer, none⟩ (.enter child)
      ⟨(child, child.flatChildren) :: (node, rest) :: outer, none⟩ where
  ready := ready_of_stack _
  weight_lt := by
    have hsize := Element.size_eq_children h
    have hflat := Element.sizeAll_flatChildren_le child
    simp only [weight, List.map_cons, List.sum_cons, Element.sizeAll, Option.map_none,
      Option.getD_none]
    omega
  pending_eq := by
    simp [pending, WalkEvent.token?, Element.leavesAll, Element.leaves_eq_children h,
      Element.leavesAll_flatChildren]

end

/-- As long as leaves are left, there is a step. -/
theorem next_spec {p : Preorder} (h : p.Ready) :
    (p.next.1 = none ∧ p.pending = []) ∨
      ∃ event, p.next.1 = some event ∧ p.Meets event p.next.2 := by
  obtain ⟨stack, root⟩ := p
  obtain ⟨hstack, hroot⟩ := h
  cases stack with
  | nil =>
      cases root with
      | none => exact .inl ⟨rfl, rfl⟩
      | some root => exact .inr ⟨.enter root, rfl, meets_root (hroot root rfl)⟩
  | cons frame outer =>
      obtain rfl : root = none := hstack (List.cons_ne_nil _ _)
      obtain ⟨node, rest⟩ := frame
      cases rest with
      | nil => exact .inr ⟨.leave node, rfl, meets_leave node outer⟩
      | cons child rest =>
          cases child with
          | token t => exact .inr ⟨.token t, rfl, meets_token node rest outer t⟩
          | node _ _ _ | list _ _ | separated _ _ =>
              exact .inr ⟨.enter _, rfl, meets_child node rest outer rfl⟩

/-- The steps that are left meet the leaves that are left. -/
theorem run_tokens {p : Preorder} (h : p.Ready) {budget : Nat} (hbudget : p.weight < budget) :
    (run budget p).filterMap WalkEvent.token? = p.pending := by
  induction budget generalizing p with
  | zero => exact absurd hbudget (Nat.not_lt_zero _)
  | succ budget ih =>
      rw [run]
      rcases next_spec h with ⟨hnone, hpending⟩ | ⟨event, hevent, hmeets⟩
      · split
        · exact hpending.symm
        · rename_i heq
          rw [heq] at hnone
          cases hnone
      · split
        · rename_i heq
          rw [heq] at hevent
          cases hevent
        · rename_i later heq
          rw [heq] at hevent hmeets
          cases hevent
          have hweight := Nat.lt_of_lt_of_le hmeets.weight_lt (Nat.le_of_lt_succ hbudget)
          rw [hmeets.pending_eq, List.filterMap_cons, ih hmeets.ready hweight]
          cases event.token? <;> rfl

end Preorder

/-- The tokens of a traversal are the leaves of the tree. -/
theorem Element.tokens_eq_leaves {root : Element} (h : root.isToken = false) :
    root.tokens = root.leaves := by
  have hready : (Preorder.start root).Ready := ⟨nofun, by simpa [Preorder.start] using h⟩
  have hbudget : (Preorder.start root).weight < root.walkBudget := by
    simp [Preorder.weight, Preorder.start, Element.walkBudget]
  have hrun := Preorder.run_tokens hready hbudget
  rwa [Preorder.pending] at hrun

end Verbatim
