/-
  How tightly expressions hold together.

  An assignment holds least tightly.  Binary operators follow, by their precedence,
  then operators in front of an operand, and most tightly hold the expressions that a
  call or a member access can follow.  Measured by this strength, nesting has one
  rule for each kind of operator: it says how strong its operands have to be.
-/
import Verbatim.Parse.Expression
import Verbatim.Proofs.Productions

set_option autoImplicit false

namespace Verbatim

namespace Grammar

/-- Kinds of expressions that a call or a member access can follow. -/
def objects : List Kind :=
  [.nameExpression, .literalExpression, .parenthesizedExpression, .invocationExpression,
    .memberAccessExpression]

/-- Kinds of expressions that ask something of their operands. -/
def operations : List Kind :=
  [.prefixUnaryExpression, .binaryExpression, .assignmentExpression, .invocationExpression,
    .memberAccessExpression]

/-- Strength of an operand with a sign, above that of all binary operators. -/
def signed : Nat := 7

/-- Strength of what a call or a member access can follow. -/
def object : Nat := 8

end Grammar

/-- Binary operators hold less tightly than signs. -/
theorem Parser.precedence?_le {kind : Kind} {k : Nat} (h : precedence? kind = some k) :
    0 < k ∧ k < Grammar.signed := by
  unfold precedence? at h
  split at h <;> cases h <;> decide

namespace Element

/-- Precedence of the operator of a binary expression. -/
def precedence? : Element → Option Nat
  | .node .binaryExpression _ [_, operator, _] => Parser.precedence? operator.kind
  | _ => none

/-- How tightly an expression holds together. -/
def strength (e : Element) : Nat :=
  if e.isNodeIn Grammar.objects then Grammar.object
  else if e.isNodeIn [.prefixUnaryExpression] then Grammar.signed
  else e.precedence?.getD 0

/-- The operands of the node hold together at least as tightly as its operator asks
for.  Binary operators ask for more on their right than on their left, so they
associate to the left. -/
def nested (n : Element) : Bool :=
  match n.kind, n.children with
  | .binaryExpression, [left, operator, right] =>
      match Parser.precedence? operator.kind with
      | some k => decide (k ≤ left.strength) && decide (k < right.strength)
      | none => false
  | .prefixUnaryExpression, [_, operand] => decide (Grammar.signed ≤ operand.strength)
  | .invocationExpression, object :: _ => decide (Grammar.object ≤ object.strength)
  | .memberAccessExpression, object :: _ => decide (Grammar.object ≤ object.strength)
  | .assignmentExpression, left :: _ => decide (0 < left.strength)
  | _, _ => true

theorem nested_of_not_operation {kind : Kind} (h : Grammar.operations.contains kind = false)
    (es : List Element) : (makeNode kind es).nested = true := by
  revert h
  cases kind <;> first | exact fun _ => rfl | nofun

/-! ## Strength and kind -/

/-- Only a binary expression has an operator between operands. -/
theorem kind_of_precedence? {e : Element} {k : Nat} (h : e.precedence? = some k) :
    e.kind = .binaryExpression ∧ 0 < k ∧ k < Grammar.signed := by
  unfold precedence? at h
  split at h
  · exact ⟨rfl, Parser.precedence?_le h⟩
  · cases h

theorem getD_precedence?_lt (e : Element) : e.precedence?.getD 0 < Grammar.signed := by
  cases h : e.precedence? with
  | none => decide
  | some k => exact (kind_of_precedence? h).2.2

/-- The strength of an expression that is neither an object nor has a sign. -/
theorem strength_eq_getD {e : Element} (hobject : Grammar.objects.contains e.kind = false)
    (hsign : e.kind ≠ .prefixUnaryExpression) : e.strength = e.precedence?.getD 0 := by
  have hsigned : [Kind.prefixUnaryExpression].contains e.kind = false := by
    simp [hsign]
  rw [strength, isNodeIn_of_not_contains hobject, isNodeIn_of_not_contains hsigned]
  rfl

theorem strength_of_precedence? {e : Element} {k : Nat} (h : e.precedence? = some k) :
    e.strength = k := by
  obtain ⟨hkind, _⟩ := kind_of_precedence? h
  rw [strength_eq_getD (by rw [hkind]; rfl) (by rw [hkind]; decide), h]
  rfl

/-- An expression with some strength is no assignment. -/
theorem kind_ne_of_strength_pos {e : Element} (h : 0 < e.strength) :
    e.kind ≠ .assignmentExpression := by
  intro hkind
  rw [strength_eq_getD (by rw [hkind]; rfl) (by rw [hkind]; decide)] at h
  cases hprecedence : e.precedence? with
  | none =>
      rw [hprecedence] at h
      exact absurd h (by decide)
  | some k =>
      have hbinary := (kind_of_precedence? hprecedence).1
      rw [hkind] at hbinary
      cases hbinary

theorem strength_of_object {kind : Kind} (h : Grammar.objects.contains kind = true)
    (es : List Element) : (makeNode kind es).strength = Grammar.object :=
  if_pos h

/-- A binary expression is as strong as its operator. -/
theorem strength_binary {left operator right : Element} {k : Nat}
    (h : Parser.precedence? operator.kind = some k) :
    (makeNode .binaryExpression [left, operator, right]).strength = k :=
  strength_of_precedence? h

theorem nested_binary {left operator right : Element} {k : Nat}
    (h : Parser.precedence? operator.kind = some k) (hleft : k ≤ left.strength)
    (hright : k < right.strength) :
    (makeNode .binaryExpression [left, operator, right]).nested = true := by
  change (match Parser.precedence? operator.kind with
    | some k => decide (k ≤ left.strength) && decide (k < right.strength)
    | none => false) = true
  simp [h, hleft, hright]

/-- What the operator of a binary expression asks of its operands. -/
theorem exists_precedence?_of_nested {left operator right : Element}
    (h : (makeNode .binaryExpression [left, operator, right]).nested = true) :
    ∃ k, Parser.precedence? operator.kind = some k ∧ k ≤ left.strength ∧ k < right.strength := by
  change (match Parser.precedence? operator.kind with
    | some k => decide (k ≤ left.strength) && decide (k < right.strength)
    | none => false) = true at h
  split at h
  · rename_i k hk
    simp only [Bool.and_eq_true, decide_eq_true_eq] at h
    exact ⟨k, hk, h⟩
  · cases h

/-- A binary expression with some strength has an operator of that precedence. -/
theorem precedence?_of_strength_pos {e : Element} (h : 0 < e.strength)
    (hkind : e.kind = .binaryExpression) : e.precedence? = some e.strength := by
  have heq := strength_eq_getD (e := e) (by rw [hkind]; rfl) (by rw [hkind]; decide)
  cases hprecedence : e.precedence? with
  | none =>
      rw [heq, hprecedence] at h
      exact absurd h (by decide)
  | some k => rw [heq, hprecedence, Option.getD_some]

/-- An expression with some strength, but not that of an operand with a sign, is binary. -/
theorem isNodeIn_binary_of_strength {e : Element} (hpos : 0 < e.strength)
    (hlt : e.strength < Grammar.signed) : e.isNodeIn [.binaryExpression] = true := by
  unfold strength at hpos hlt
  split at hlt
  · exact absurd hlt (by decide)
  · split at hlt
    · exact absurd hlt (by decide)
    · rename_i hobject hsign
      rw [if_neg hobject, if_neg hsign] at hpos
      unfold precedence? at hpos
      split at hpos
      · rfl
      · exact absurd hpos (by decide)

/-- An expression that holds most tightly is one that a call can follow. -/
theorem isNodeIn_objects_of_strength {e : Element} (h : Grammar.object ≤ e.strength) :
    e.isNodeIn Grammar.objects = true := by
  have hlt := getD_precedence?_lt e
  unfold strength at h
  split at h
  · assumption
  · split at h
    · exact absurd h (by decide)
    · simp only [Grammar.object, Grammar.signed] at h hlt
      omega

/-- An expression that holds as tightly as one with a sign is an object or has a sign. -/
theorem isNodeIn_of_strength {e : Element} (h : Grammar.signed ≤ e.strength) :
    e.isNodeIn Grammar.objects = true ∨ e.isNodeIn [.prefixUnaryExpression] = true := by
  have hlt := getD_precedence?_lt e
  unfold strength at h
  split at h
  · exact .inl ‹_›
  · split at h
    · exact .inr ‹_›
    · omega

end Element

end Verbatim
