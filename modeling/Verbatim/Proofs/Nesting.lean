/-
  Operators are nested by precedence, also in trees of malformed texts.

  The nodes of a tree keep to the rule of strengths.  Read through the kinds and the
  operators of the operands, the rule says the following.  No operand of a binary
  operator is an assignment; an operator of the left operand binds at least as
  tightly, one of the right operand more tightly.  What has a sign in front is
  neither a binary expression nor an assignment, only objects are called and
  accessed, and an assignment is never assigned to.
-/
import Verbatim.Proofs.Conformance

set_option autoImplicit false

namespace Verbatim

namespace Element

/-- The operands of the node are of the kinds, and have the operators, that its own
operator admits. -/
structure RespectsPrecedence (n : Element) : Prop where
  binary : n.kind = .binaryExpression → ∃ left operator right k,
    n.children = [left, operator, right] ∧ Parser.precedence? operator.kind = some k ∧
      left.kind ≠ .assignmentExpression ∧ right.kind ≠ .assignmentExpression ∧
      (left.kind = .binaryExpression → ∃ j, left.precedence? = some j ∧ k ≤ j) ∧
      (right.kind = .binaryExpression → ∃ j, right.precedence? = some j ∧ k < j)
  sign : n.kind = .prefixUnaryExpression → ∃ sign operand,
    n.children = [sign, operand] ∧ operand.kind ≠ .binaryExpression ∧
      operand.kind ≠ .assignmentExpression
  call : n.kind = .invocationExpression → ∃ callee arguments,
    n.children = [callee, arguments] ∧ Grammar.objects.contains callee.kind = true
  access : n.kind = .memberAccessExpression → ∃ object dot member,
    n.children = [object, dot, member] ∧ Grammar.objects.contains object.kind = true
  assignment : n.kind = .assignmentExpression → ∃ left sign right,
    n.children = [left, sign, right] ∧ left.kind ≠ .assignmentExpression

/-! ## From strengths to kinds -/

/-- A binary expression of some strength has an operator that binds that tightly. -/
theorem exists_precedence?_of_le_strength {e : Element} {k : Nat} (hk : 0 < k)
    (h : k ≤ e.strength) (hkind : e.kind = .binaryExpression) :
    ∃ j, e.precedence? = some j ∧ k ≤ j :=
  ⟨e.strength, precedence?_of_strength_pos (by omega) hkind, h⟩

/-- What holds together as tightly as an operand with a sign has no operator between
operands. -/
theorem kind_ne_of_signed_le_strength {e : Element} (h : Grammar.signed ≤ e.strength) :
    e.kind ≠ .binaryExpression ∧ e.kind ≠ .assignmentExpression := by
  have hpos : 0 < e.strength := Nat.lt_of_lt_of_le (by decide) h
  refine ⟨fun hkind => ?_, kind_ne_of_strength_pos hpos⟩
  have hprecedence := precedence?_of_strength_pos hpos hkind
  have hlt := (kind_of_precedence? hprecedence).2.2
  omega

theorem contains_objects_of_strength {e : Element} (h : Grammar.object ≤ e.strength) :
    Grammar.objects.contains e.kind = true :=
  contains_of_isNodeIn (isNodeIn_objects_of_strength h)

/-! ## From parts to children -/

theorem exists_children_two {n : Element} {first second : Symbol}
    (hkind : Grammar.production n.kind = some [.one first, .one second])
    (h : n.conforms = true) : ∃ x y, n.children = [x, y] := by
  rw [conforms, hkind] at h
  obtain ⟨x, _, heq, _, hrest⟩ := Part.exists_of_accepts_cons h
  obtain ⟨y, rfl, _⟩ := Part.exists_of_accepts_one hrest
  exact ⟨x, y, heq⟩

theorem exists_children_three {n : Element} {first second third : Symbol}
    (hkind : Grammar.production n.kind = some [.one first, .one second, .one third])
    (h : n.conforms = true) : ∃ x y z, n.children = [x, y, z] := by
  rw [conforms, hkind] at h
  obtain ⟨x, _, heq, _, hrest⟩ := Part.exists_of_accepts_cons h
  obtain ⟨y, _, rfl, _, hrest'⟩ := Part.exists_of_accepts_cons hrest
  obtain ⟨z, rfl, _⟩ := Part.exists_of_accepts_one hrest'
  exact ⟨x, y, z, heq⟩

/-! ## The rule for one node -/

/-- The operands that the rule of strengths admits are those that precedence admits. -/
theorem respectsPrecedence_of_nested {n : Element} (hconforms : n.conforms = true)
    (h : n.nested = true) : n.RespectsPrecedence where
  binary := by
    intro hkind
    obtain ⟨left, operator, right, hchildren⟩ :=
      exists_children_three (by rw [hkind]; rfl) hconforms
    simp only [nested, hkind, hchildren] at h
    split at h
    · rename_i k hk
      simp only [Bool.and_eq_true, decide_eq_true_eq] at h
      obtain ⟨hleft, hright⟩ := h
      have hpos := (Parser.precedence?_le hk).1
      exact ⟨left, operator, right, k, hchildren, hk, kind_ne_of_strength_pos (by omega),
        kind_ne_of_strength_pos (by omega), exists_precedence?_of_le_strength hpos hleft,
        exists_precedence?_of_le_strength (Nat.succ_pos k) hright⟩
    · cases h
  sign := by
    intro hkind
    obtain ⟨sign, operand, hchildren⟩ := exists_children_two (by rw [hkind]; rfl) hconforms
    simp only [nested, hkind, hchildren, decide_eq_true_eq] at h
    exact ⟨sign, operand, hchildren, kind_ne_of_signed_le_strength h⟩
  call := by
    intro hkind
    obtain ⟨callee, arguments, hchildren⟩ := exists_children_two (by rw [hkind]; rfl) hconforms
    simp only [nested, hkind, hchildren, decide_eq_true_eq] at h
    exact ⟨callee, arguments, hchildren, contains_objects_of_strength h⟩
  access := by
    intro hkind
    obtain ⟨object, dot, member, hchildren⟩ :=
      exists_children_three (by rw [hkind]; rfl) hconforms
    simp only [nested, hkind, hchildren, decide_eq_true_eq] at h
    exact ⟨object, dot, member, hchildren, contains_objects_of_strength h⟩
  assignment := by
    intro hkind
    obtain ⟨left, sign, right, hchildren⟩ := exists_children_three (by rw [hkind]; rfl) hconforms
    simp only [nested, hkind, hchildren, decide_eq_true_eq] at h
    exact ⟨left, sign, right, hchildren, kind_ne_of_strength_pos h⟩

end Element

/-! ## Whole texts -/

namespace ParseRun

variable {source : Text} {options : ParseOptions} (run : ParseRun source options)

theorem nodes_nested : ∀ n ∈ run.root.nodes, n.nested = true := by
  rw [run.nodes_root]
  have hroot : run.root.nested = true := Element.nested_of_not_operation rfl _
  exact List.forall_mem_cons.mpr ⟨hroot, run.reads.reading.nested⟩

end ParseRun

/-- Every text that offsets can count is parsed into a tree in which all nodes respect
precedence. -/
theorem parse_respects_precedence (source : Text) (options : ParseOptions)
    (h : source.width < Offset.limit) :
    ∃ p, parse source options = .ok p ∧ ∀ n ∈ p.root.nodes, n.RespectsPrecedence := by
  obtain ⟨run⟩ := exists_parseRun source options h
  refine ⟨run.result, run.parse_eq, fun n hn => ?_⟩
  exact Element.respectsPrecedence_of_nested (run.nodes_conform n hn) (run.nodes_nested n hn)

/-- Operators of all levels behind one another, with calls, signs and a missing operand. -/
def operatorSource : Text :=
  "x = a || -b.c(1) * 2 + d - && (e = f) == ! g < ".toList

theorem width_operatorSource : operatorSource.width < Offset.limit := by
  decide

theorem parse_operatorSource_respects_precedence :
    operatorSource.width < Offset.limit ∧
      ∃ p, parse operatorSource ⟨false⟩ = .ok p ∧ ∀ n ∈ p.root.nodes, n.RespectsPrecedence :=
  ⟨width_operatorSource, parse_respects_precedence operatorSource ⟨false⟩ width_operatorSource⟩

end Verbatim
