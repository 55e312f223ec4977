/-
  Which child of an element is found at a position.

  Children stand one behind the other, so the offset of a child is the width of all the
  children in front of it.  Inside of the element one child spans the position; at the end
  it is the last child with a width that is found, and where nothing has a width the first
  child that holds a token.  A node with a width is taken to hold a token without a look at
  its children, and it does.  So whatever is found holds a token, and the position lies in it
  or at its end.
-/
import Verbatim.Proofs.PositionLookup

set_option autoImplicit false

namespace Verbatim.Element

/-- Finding a child of an element at a position.  Children are told apart by what stands in
front of them, and the width of this is their offset. -/
structure FindsChild (e : Element) (position : Nat) : Prop where
  /-- Inside of the element, the child that spans the position is found.  It has a width, and
  no other child spans the position. -/
  inside : position < e.width →
    ∃ before c after, e.children = before ++ c :: after ∧
      e.childAt position = .ok (c, widthAll before) ∧ 0 < c.width ∧
      widthAll before ≤ position ∧ position < widthAll before + c.width ∧
      ∀ before' c' after', e.children = before' ++ c' :: after' →
        widthAll before' ≤ position → position < widthAll before' + c'.width →
          before' = before ∧ c' = c
  /-- At the end, the last child that has a width is found. -/
  atEnd : position = e.width → 0 < e.width →
    ∃ before c after, e.children = before ++ c :: after ∧
      e.childAt position = .ok (c, widthAll before) ∧ 0 < c.width ∧ ∀ d ∈ after, d.width = 0
  /-- Where nothing has a width, the first child that holds a token is found. -/
  atZero : position = 0 → e.width = 0 →
    ∀ before c after, e.children = before ++ c :: after → (∀ d ∈ before, d.leaves = []) →
      c.leaves ≠ [] → e.childAt position = .ok (c, 0)
  /-- Behind the element, and where no child holds a token, there is nothing to find. -/
  outOfRange :
    (e.width < position ∨ position = 0 ∧ e.width = 0 ∧ ∀ c ∈ e.children, c.leaves = []) →
      e.childAt position = .error (.positionOutOfRange position e.width)
  /-- Whatever is found is a child at its offset that holds a token, and the position lies in
  it or at its end. -/
  found : ∀ c offset, e.childAt position = .ok (c, offset) →
    ∃ before after, e.children = before ++ c :: after ∧ offset = widthAll before ∧
      offset ≤ position ∧ position - offset ≤ c.width ∧ c.leaves ≠ []

section Child

variable {e : Element} {position : Nat}

/-- Children that hold no token hold none together. -/
theorem leaves_eq_nil_of_children (htoken : e.isToken = false)
    (h : ∀ c ∈ e.children, c.leaves = []) : e.leaves = [] := by
  rw [leaves_eq_children htoken, leavesAll_eq_flatMap, List.flatMap_eq_nil_iff]
  exact h

/-- At most one child spans a position. -/
theorem Picks.unique {before after before' after' : List Element} {c c' : Element}
    (h : e.Picks position before c after) (hposition : position < e.width)
    (hchildren : e.children = before' ++ c' :: after') (hstart : widthAll before' ≤ position)
    (hstop : position < widthAll before' + c'.width) : before' = before ∧ c' = c :=
  have hspans := h.inside hposition
  eq_of_spans width hstart hstop hspans.1 hspans.2 (hchildren.symm.trans h.children_eq)

/-- The first child that holds a token is found where nothing has a width. -/
theorem Made.childAt_first (h : e.Made) (htoken : e.isToken = false) (hzero : e.width = 0)
    {before after : List Element} {c : Element} (hchildren : e.children = before ++ c :: after)
    (hbefore : ∀ d ∈ before, d.leaves = []) (hc : c.leaves ≠ []) :
    e.childAt 0 = .ok (c, 0) := by
  have hmade := h.children
  rw [hchildren, List.forall_mem_append, List.forall_mem_cons] at hmade
  obtain ⟨hfront, hchild, _⟩ := hmade
  have hnone : ∀ d ∈ before, (!d.containsToken) = true := by
    intro d hd
    rw [Bool.not_eq_true', ← Bool.not_eq_true, (hfront d hd).containsToken_iff]
    exact not_not_intro (hbefore d hd)
  have hfind : e.children.find? containsToken = some c :=
    List.find?_eq_some_iff_append.mpr
      ⟨hchild.containsToken_iff.mpr hc, before, after, hchildren, hnone⟩
  have hscan := h.scanChildren_of_zero htoken hzero
  rw [hfind] at hscan
  exact childAt_of_scanChildren (Nat.zero_le _) hscan

end Child

/-- At every position, a node or a list finds the child that the position belongs to. -/
theorem childAt_finds_child {e : Element} (h : e.Constructed) (htoken : e.isToken = false)
    (position : Nat) : e.FindsChild position := by
  have hmade := h.regular.made
  refine ⟨fun hlt => ?_, ?_, ?_, fun hnone => ?_, fun c offset hchild => ?_⟩
  · obtain ⟨before, c, after, hchild, hpicks⟩ := hmade.childAt_of_lt htoken hlt
    obtain ⟨hstart, hstop⟩ := hpicks.inside hlt
    exact ⟨before, c, after, hpicks.children_eq, hchild, by omega, hstart, hstop,
      fun _ _ _ => hpicks.unique hlt⟩
  · rintro rfl hpos
    obtain ⟨before, c, after, hchild, hpicks⟩ := hmade.childAt_of_eq htoken hpos
    exact ⟨before, c, after, hpicks.children_eq, hchild, hpicks.atEnd rfl hpos⟩
  · rintro rfl hzero before c after
    exact hmade.childAt_first htoken hzero
  · refine hmade.childAt_eq_error htoken (hnone.imp_right fun ⟨_, _, hchildren⟩ => ?_)
    exact leaves_eq_nil_of_children htoken hchildren
  · obtain ⟨hposition, before, after, rfl, hpicks⟩ := hmade.exists_picks_of_childAt hchild
    obtain ⟨hstart, hstop⟩ := hpicks.bounds hmade htoken hposition
    have hc := hmade.children c (by simp [hpicks.children_eq])
    exact ⟨before, after, hpicks.children_eq, rfl, hstart, by omega,
      hc.containsToken_iff.mp hpicks.holds⟩

/-- A block without braces and statements, its list of statements in front. -/
def hollowBlock : Element :=
  makeNode .block [makeList [], .token (.make .openBrace [] .empty .empty),
    .token (.make .closeBrace [] .empty .empty)]

theorem constructed_hollowBlock : hollowBlock.Constructed := by
  refine .of_makeNode .block rfl ?_
  simp only [List.forall_mem_cons]
  exact ⟨constructed_makeList_nil, .of_make .openBrace rfl [] .empty .empty,
    .of_make .closeBrace rfl [] .empty .empty, List.forall_mem_nil _⟩

/-- An empty list is never found: at the end of a block it is the last token with text, and
in a block without any text the first of the missing braces. -/
theorem childAt_sparseBlock_hollowBlock :
    (sparseBlock.Constructed ∧ sparseBlock.isToken = false ∧
      sparseBlock.childAt 1 = .ok (.token (.make .identifier "x".toList .empty .empty), 0) ∧
      sparseBlock.FindsChild 1) ∧
    hollowBlock.Constructed ∧ hollowBlock.isToken = false ∧
      hollowBlock.childAt 0 = .ok (.token (.make .openBrace [] .empty .empty), 0) ∧
      hollowBlock.FindsChild 0 :=
  ⟨⟨constructed_sparseBlock, rfl, rfl, childAt_finds_child constructed_sparseBlock rfl 1⟩,
    constructed_hollowBlock, rfl, rfl, childAt_finds_child constructed_hollowBlock rfl 0⟩

end Verbatim.Element
