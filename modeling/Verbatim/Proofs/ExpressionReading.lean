/-
  Expressions, as readings.

  Wherever an expression is read, one finished node comes out, and a token is taken
  off the sequence if one comes next that can start an expression.  Nested
  expressions are read behind a token of the one around them, so a budget larger
  than the number of tokens by two lasts to the innermost one.  How strong the node
  is depends on what is read: behind a left operand no operator comes next that is
  stronger than the operand, because the operators of a right operand are read up to
  one that is no stronger than the operator in front of it.
-/
import Verbatim.Parse.Expression
import Verbatim.Proofs.StateReading

set_option autoImplicit false

namespace Verbatim

namespace Parser

/-! ## Classes of tokens -/

theorem isLiteral_eq (kind : Kind) : isLiteral kind = Grammar.literals.contains kind := by
  cases kind <;> rfl

theorem isSign_eq (kind : Kind) : isSign kind = Grammar.signs.contains kind := by
  cases kind <;> rfl

theorem precedence?_isSome_eq (kind : Kind) :
    (precedence? kind).isSome = Grammar.operators.contains kind := by
  cases kind <;> rfl

/-- Kinds of literals, signs and operators are kinds of tokens with text. -/
theorem literals_significant : Grammar.literals.all Kind.isSignificant = true := rfl

theorem signs_significant : Grammar.signs.all Kind.isSignificant = true := rfl

theorem operators_significant : Grammar.operators.all Kind.isSignificant = true := rfl

/-! ## Operands -/

/-- One expression of at least the given strength can be read from the state. -/
def ReadsExpression (least : Nat) (p : Parser Completed) (s : ParseState) : Prop :=
  Succeeds p s fun c t =>
    Completes least s c t ∧
      (startsExpression s.peekKind = true → t.tokens.length < s.tokens.length)

variable {inner operand : Parser Completed} {s : ParseState}

theorem expressionExpected_ne : "expected an expression" ≠ statementExpected := by
  decide

/-- An operand without a sign in front of it. -/
theorem primary_succeeds (hsign : isSign s.peekKind = false)
    (hinner : ∀ t : ParseState, t.tokens.length < s.tokens.length → ReadsExpression 0 inner t) :
    ReadsExpression Grammar.object (primary inner) s := by
  unfold ReadsExpression primary
  apply Succeeds.get
  dsimp only
  split
  · rename_i hidentifier
    refine (advance_token_succeeds rfl (beq_iff_eq.mpr hidentifier)).bind ?_
    intro name t hresult
    obtain ⟨hname, hlength⟩ := hresult
    exact .pure ⟨.node hname rfl rfl rfl rfl, fun _ => hlength⟩
  · split
    · rename_i hliteral
      rw [isLiteral_eq] at hliteral
      refine (advance_succeeds Grammar.literals literals_significant hliteral).bind ?_
      intro literal t hresult
      obtain ⟨hread, hlength⟩ := hresult
      exact .pure ⟨.node hread rfl rfl rfl rfl, fun _ => hlength⟩
    · split
      · rename_i hparen
        refine (advance_token_succeeds rfl (beq_iff_eq.mpr hparen)).bind ?_
        intro opening t hresult
        obtain ⟨hopening, hlength⟩ := hresult
        refine (hinner t hlength).bind ?_
        intro body u hresult
        obtain ⟨hbody, _⟩ := hresult
        refine (expect_succeeds u rfl).bind ?_
        intro closing v hresult
        obtain ⟨hclosing, _⟩ := hresult
        have hbodyLength := hbody.length_le
        have hclosingLength := hclosing.length_le
        exact .pure ⟨.node ((hopening.append hbody.reads).append hclosing) rfl rfl rfl rfl,
          fun _ => by omega⟩
      · rename_i hidentifier hliteral hparen
        have hstarts : startsExpression s.peekKind = false := by
          simp_all [startsExpression]
        have hname : Reads s [.token .identifier] [.missing .identifier]
            (s.act (.supply .identifier ⟨s.peek.start, s.peek.stop, "expected an expression"⟩)) :=
          .supply rfl expressionExpected_ne (.inr ⟨rfl, rfl⟩)
        refine (report_succeeds s _).bind ?_
        rintro _ _ rfl
        exact .pure ⟨.node hname rfl rfl rfl rfl, fun h => by simp [hstarts] at h⟩

/-- One argument of a call. -/
theorem argument_readsItem (h : ReadsExpression 0 inner s) :
    ReadsItem Grammar.expressions startsExpression (do return (← inner).events) s := by
  refine Succeeds.bind h ?_
  intro c t hresult
  obtain ⟨hc, hprogress⟩ := hresult
  exact .pure ⟨hc.reads, hprogress⟩

/-- The arguments of a call.  They start with the parenthesis that comes next. -/
theorem argumentList_succeeds {budget : Nat} (hat : s.isAt .openParen = true)
    (hbudget : s.tokens.length ≤ budget)
    (hinner : ∀ t : ParseState, t.tokens.length < s.tokens.length → ReadsExpression 0 inner t) :
    Succeeds (argumentList inner budget) s fun events t =>
      Reads s [.node .argumentList] events t ∧ t.tokens.length < s.tokens.length := by
  unfold argumentList
  refine (advance_token_succeeds rfl hat).bind ?_
  intro opening t hresult
  obtain ⟨hopening, hlength⟩ := hresult
  have hargument (u : ParseState) (hu : u.tokens.length ≤ t.tokens.length) :=
    argument_readsItem (hinner u (by omega))
  refine (separated_succeeds false (by omega) hargument).bind ?_
  intro arguments u harguments
  have hargumentsLength := harguments.length_le
  refine (skipUntil_succeeds _ _ (by omega)).bind ?_
  intro _ v hskipped
  refine (expect_succeeds v rfl).bind ?_
  intro closing w hresult
  obtain ⟨hclosing, _⟩ := hresult
  have hskippedLength := hskipped.length_le
  have hclosingLength := hclosing.length_le
  have hbehind := hskipped.append hclosing
  exact .pure ⟨.node ((hopening.append harguments).append hbehind) rfl rfl, by omega⟩

/-! ## Calls and member accesses -/

/-- One pass over the calls and member accesses behind an expression. -/
def chainPass (inner : Parser Completed) (budget : Nat) (object : Completed) :
    Parser (Completed × Bool) := do
  let kind := (← get).peekKind
  if kind = .openParen then
    let arguments ← argumentList inner budget
    return (object.wrap .invocationExpression arguments, true)
  else if kind = .dot then
    let dot ← advance
    let member ← name
    return (object.wrap .memberAccessExpression (dot ++ member), true)
  else return (object, false)

theorem chain_eq_iterate (inner : Parser Completed) (budget : Nat) (object : Completed) :
    chain inner budget object = iterate (chainPass inner) budget object := by
  induction budget generalizing object with
  | zero => rfl
  | succ budget ih =>
      simp only [chain, iterate, chainPass, ih, bind_assoc]
      congr 1
      funext s
      split
      · simp
      · split <;> simp

/-- A pass behind an object makes a larger one, and takes a token off, or is the last. -/
theorem chainPass_succeeds {budget : Nat} (object : Completed)
    (hbudget : s.tokens.length ≤ budget)
    (hinner : ∀ t : ParseState, t.tokens.length < s.tokens.length → ReadsExpression 0 inner t) :
    Succeeds (chainPass inner budget object) s fun out t =>
      t.tokens.length ≤ s.tokens.length ∧ (out.2 = true → t.tokens.length < s.tokens.length) ∧
        ∀ start, Completes Grammar.object start object s →
          Completes Grammar.object start out.1 t := by
  unfold chainPass
  apply Succeeds.get
  dsimp only
  split
  · rename_i hparen
    refine (argumentList_succeeds (beq_iff_eq.mpr hparen) hbudget hinner).bind ?_
    intro arguments t hresult
    obtain ⟨harguments, hlength⟩ := hresult
    exact .pure ⟨by omega, fun _ => hlength,
      fun start hobject =>
        hobject.access harguments rfl rfl rfl fun _ _ => decide_eq_true⟩
  · split
    · rename_i hdot
      refine (advance_token_succeeds rfl (beq_iff_eq.mpr hdot)).bind ?_
      intro dot t hresult
      obtain ⟨hdot, hlength⟩ := hresult
      refine (name_succeeds t).bind ?_
      intro member u hresult
      obtain ⟨hmember, _⟩ := hresult
      have hmemberLength := hmember.length_le
      exact .pure ⟨by omega, fun _ => by omega,
        fun start hobject =>
          hobject.access (hdot.append hmember) rfl rfl rfl fun _ _ => decide_eq_true⟩
    · exact .pure ⟨Nat.le_refl _, nofun, fun start hobject => hobject⟩

theorem chain_succeeds {start : ParseState} {budget : Nat} {object : Completed}
    (hobject : Completes Grammar.object start object s) (hbudget : s.tokens.length < budget)
    (hinner : ∀ t : ParseState, t.tokens.length < s.tokens.length → ReadsExpression 0 inner t) :
    Succeeds (chain inner budget object) s fun c t =>
      Completes Grammar.object start c t ∧ t.tokens.length ≤ s.tokens.length := by
  rw [chain_eq_iterate]
  refine iterate_succeeds
    (fun c t => Completes Grammar.object start c t ∧ t.tokens.length ≤ s.tokens.length) ?_ budget
    object s ⟨hobject, Nat.le_refl _⟩ hbudget
  rintro budget c t ⟨hc, hle⟩ hbudget
  refine (chainPass_succeeds c hbudget fun u hu => hinner u (by omega)).mono ?_
  rintro ⟨d, more⟩ u ⟨hle', hprogress, hd⟩
  exact ⟨fun hmore => ⟨⟨hd start hc, by omega⟩, hprogress hmore⟩,
    fun _ => ⟨hd start hc, by omega⟩⟩

/-! ## Signs -/

theorem unary_succeeds {budget : Nat} (hbudget : s.tokens.length + 1 < budget)
    (hinner : ∀ t : ParseState, t.tokens.length < s.tokens.length → ReadsExpression 0 inner t) :
    ReadsExpression Grammar.signed (unary inner budget) s := by
  induction budget generalizing s with
  | zero => exact absurd hbudget (Nat.not_lt_zero _)
  | succ budget ih =>
      unfold ReadsExpression unary
      apply Succeeds.get
      split
      · rename_i hsign
        rw [isSign_eq] at hsign
        refine (advance_succeeds Grammar.signs signs_significant hsign).bind ?_
        intro sign t hresult
        obtain ⟨hread, hlength⟩ := hresult
        refine (ih (s := t) (by omega) fun u hu => hinner u (by omega)).bind ?_
        intro c u hresult
        obtain ⟨hc, _⟩ := hresult
        have hoperandLength := hc.length_le
        exact .pure ⟨.sign hread hc, fun _ => by omega⟩
      · rename_i hsign
        rw [Bool.not_eq_true] at hsign
        refine (primary_succeeds hsign hinner).bind ?_
        intro object t hresult
        obtain ⟨hobject, hprogress⟩ := hresult
        have hobjectLength := hobject.length_le
        refine (chain_succeeds hobject (by omega) fun u hu => hinner u (by omega)).mono ?_
        intro c u hresult
        obtain ⟨hc, hle⟩ := hresult
        refine ⟨hc.mono (by decide), fun hstarts => ?_⟩
        have hlength := hprogress hstarts
        omega

/-! ## Binary operators -/

/-- One pass over the operators behind a left operand: an operator with its right
operand, and with what binds more tightly behind that. -/
def binaryPass (operand : Parser Completed) (least budget : Nat) (left : Completed) :
    Parser (Completed × Bool) := do
  match precedence? (← get).peekKind with
  | none => return (left, false)
  | some precedence =>
      if precedence ≤ least then return (left, false)
      let operator ← advance
      let first ← operand
      let right ← binary operand budget precedence first
      return (left.wrap .binaryExpression (operator ++ right.events), true)

theorem binary_eq_iterate (operand : Parser Completed) (least budget : Nat) (left : Completed) :
    binary operand budget least left = iterate (binaryPass operand least) budget left := by
  induction budget generalizing left with
  | zero => rfl
  | succ budget ih =>
      simp only [binary, iterate, binaryPass, bind_assoc]
      congr 1
      funext s
      cases precedence? s.peekKind with
      | none => simp
      | some precedence =>
          by_cases hloose : precedence ≤ least
          · simp [hloose]
          · simp [hloose, ih]

/-- No operator comes next that is stronger than the given strength. -/
def Yields (most : Nat) (s : ParseState) : Prop :=
  ∀ k, precedence? s.peekKind = some k → k ≤ most

/-- A finished node that is stronger than `least`, and at least as strong as the operator
that comes next. -/
def LeftOperand (least : Nat) (start : ParseState) (c : Completed) (s : ParseState) : Prop :=
  Completes (least + 1) start c s ∧
    ∀ k, precedence? s.peekKind = some k → Completes k start c s

/-- An operand without a binary operator can be the left one of every operator. -/
theorem leftOperand_of_signed {start : ParseState} {c : Completed} {least : Nat}
    (h : Completes Grammar.signed start c s) (hleast : least < Grammar.signed) :
    LeftOperand least start c s :=
  ⟨h.mono hleast, fun _ hk => h.mono (Nat.le_of_lt (precedence?_le hk).2)⟩

/-- Operators behind a left operand are read from the state, up to one that is no
stronger than `least`. -/
def ReadsOperators (operand : Parser Completed) (s : ParseState) : Prop :=
  ∀ (start : ParseState) (budget least : Nat) (left : Completed),
    LeftOperand least start left s → s.tokens.length < budget →
      Succeeds (binary operand budget least left) s fun c t =>
        Completes (least + 1) start c t ∧ Yields least t ∧ t.tokens.length ≤ s.tokens.length

theorem binaryPass_succeeds {least budget : Nat} (left : Completed)
    (hbudget : s.tokens.length ≤ budget)
    (hoperand : ∀ t : ParseState, t.tokens.length < s.tokens.length →
      ReadsExpression Grammar.signed operand t)
    (hoperators : ∀ t : ParseState, t.tokens.length < s.tokens.length →
      ReadsOperators operand t) :
    Succeeds (binaryPass operand least budget left) s fun out t =>
      t.tokens.length ≤ s.tokens.length ∧ (out.2 = true → t.tokens.length < s.tokens.length) ∧
        (out.2 = false → Yields least t) ∧
        ∀ start, LeftOperand least start left s → LeftOperand least start out.1 t := by
  unfold binaryPass
  apply Succeeds.get
  split
  · rename_i hnone
    refine .pure ⟨Nat.le_refl _, Bool.noConfusion, fun _ k hk => ?_, fun start hleft => hleft⟩
    rw [hnone] at hk
    cases hk
  · rename_i precedence hprecedence
    split
    · rename_i hloose
      refine .pure ⟨Nat.le_refl _, Bool.noConfusion, fun _ k hk => ?_, fun start hleft => hleft⟩
      rw [hprecedence] at hk
      cases hk
      exact hloose
    · rename_i htight
      have hoperator : Grammar.operators.contains s.peekKind = true := by
        rw [← precedence?_isSome_eq, hprecedence, Option.isSome_some]
      have hsignificant : s.peekKind.isSignificant = true :=
        List.all_eq_true.mp operators_significant _ (List.contains_iff_mem.mp hoperator)
      refine (advance_token_succeeds hsignificant (beq_self_eq_true _)).bind ?_
      intro operator t hresult
      obtain ⟨hread, hlength⟩ := hresult
      refine (hoperand t hlength).bind ?_
      intro first u hresult
      obtain ⟨hfirst, _⟩ := hresult
      have hfirstLength := hfirst.length_le
      have hleftmost := leftOperand_of_signed hfirst (precedence?_le hprecedence).2
      refine (hoperators u (by omega) t budget precedence first hleftmost (by omega)).bind ?_
      intro right v hresult
      obtain ⟨hright, hyields, hrightLength⟩ := hresult
      refine .pure ⟨by omega, fun _ => by omega, Bool.noConfusion, fun start hleft => ?_⟩
      have hbinary := (hleft.2 _ hprecedence).binary hread hprecedence hoperator hright
      exact ⟨hbinary.mono (by omega), fun k hk => hbinary.mono (hyields k hk)⟩

/-- What binds more tightly is read behind the operator, so the induction is on the
number of tokens, and not on the budget. -/
theorem binary_succeeds {n : Nat} (hlength : s.tokens.length ≤ n)
    (hoperand : ∀ t : ParseState, t.tokens.length < s.tokens.length →
      ReadsExpression Grammar.signed operand t) :
    ReadsOperators operand s := by
  induction n using Nat.strongRecOn generalizing s with
  | ind n ih =>
      intro start budget least left hleft hbudget
      rw [binary_eq_iterate]
      refine iterate_succeeds
        (fun c t => LeftOperand least start c t ∧ t.tokens.length ≤ s.tokens.length) ?_ budget left
        s ⟨hleft, Nat.le_refl _⟩ hbudget
      rintro budget c t ⟨hc, hle⟩ hbudget
      have hoperators (u : ParseState) (hu : u.tokens.length < t.tokens.length) :
          ReadsOperators operand u :=
        ih u.tokens.length (by omega) (Nat.le_refl _) fun v hv => hoperand v (by omega)
      refine (binaryPass_succeeds c hbudget (fun u hu => hoperand u (by omega)) hoperators).mono ?_
      rintro ⟨d, more⟩ u ⟨hle', hprogress, hyields, hd⟩
      exact ⟨fun hmore => ⟨⟨hd start hc, by omega⟩, hprogress hmore⟩,
        fun hdone => ⟨(hd start hc).1, hyields hdone, by omega⟩⟩

/-! ## Expressions -/

/-- An expression is read wherever the budget exceeds the number of tokens by two. -/
theorem expression_succeeds {budget : Nat} (hbudget : s.tokens.length + 2 < budget) :
    ReadsExpression 0 (expression budget) s := by
  induction budget generalizing s with
  | zero => exact absurd hbudget (Nat.not_lt_zero _)
  | succ budget ih =>
      have hinner (t : ParseState) (ht : t.tokens.length < s.tokens.length) :
          ReadsExpression 0 (expression budget) t :=
        ih (by omega)
      have hoperand (t : ParseState) (ht : t.tokens.length ≤ s.tokens.length) :
          ReadsExpression Grammar.signed (unary (expression budget) budget) t :=
        unary_succeeds (by omega) fun u hu => hinner u (by omega)
      unfold ReadsExpression expression
      refine (hoperand s (Nat.le_refl _)).bind ?_
      intro first t hresult
      obtain ⟨hfirst, hprogress⟩ := hresult
      have hfirstLength := hfirst.length_le
      have hoperators : ReadsOperators (unary (expression budget) budget) t :=
        binary_succeeds (Nat.le_refl _) fun u hu => hoperand u (by omega)
      have hleftmost : LeftOperand 0 s first t := leftOperand_of_signed hfirst (by decide)
      refine (hoperators s budget 0 first hleftmost (by omega)).bind ?_
      intro left u hresult
      obtain ⟨hleft, _, hleftLength⟩ := hresult
      apply Succeeds.get
      split
      · rename_i hequals
        refine (advance_token_succeeds rfl hequals).bind ?_
        intro sign v hresult
        obtain ⟨hsign, hsignLength⟩ := hresult
        refine (hinner v (by omega)).bind ?_
        intro right w hresult
        obtain ⟨hright, _⟩ := hresult
        have hrightLength := hright.length_le
        exact .pure ⟨hleft.assign (hsign.append hright.reads), fun _ => by omega⟩
      · refine .pure ⟨hleft.mono (Nat.zero_le _), fun hstarts => ?_⟩
        have hlength := hprogress hstarts
        omega

end Parser

end Verbatim
