/-
  Reading back expressions.

  Calls, member accesses and binary operators are read in a loop behind their first
  operand, so an expression is not recognized from its root: following its first
  operands down, the innermost one is read first, and the loop then goes through the
  nodes on the way up.  Each step of the way is told by what the loop does next.  Behind
  an operand no operator comes next that is stronger than the operand is, so the
  operand is whole when the loop around it goes on.
-/
import Verbatim.Proofs.ExpressionReading
import Verbatim.Proofs.Recognition

set_option autoImplicit false

namespace Verbatim

namespace Parser

/-- Tokens that can come behind a whole expression. -/
def endsExpression : Kind → Bool
  | .closeParen | .comma | .semicolon => true
  | _ => false

/-- Tokens that make a larger object of the one in front of them. -/
def extendsObject : Kind → Bool
  | .openParen | .dot => true
  | _ => false

/-- The parser yields the finished node of an expression, and faces what is left. -/
def RecognizesNode (p : Parser Completed) (s : ParseState) (e : Element) (rest : List Token) :
    Prop :=
  Succeeds p s fun c t => c.Stands e ∧ t.Faces rest

/-- The parser reads back expressions from all states with fewer than `limit` tokens. -/
def ReadsBack (p : Parser Completed) (limit : Nat) : Prop :=
  ∀ e rest t, Element.Sound e → e.isNodeIn Grammar.expressions = true →
    endsExpression (nextKind rest) = true → t.Faces (e.leaves ++ rest) → t.tokens.length < limit →
    RecognizesNode p t e rest

theorem ReadsBack.mono {p : Parser Completed} {m n : Nat} (h : ReadsBack p n) (hle : m ≤ n) :
    ReadsBack p m :=
  fun e rest t he hkind hends ht hlt =>
    h e rest t he hkind hends ht (Nat.lt_of_lt_of_le hlt hle)

end Parser

open Verbatim.Parser

/-- The expression of the first part is read. -/
theorem Partway.expression {es : List Element} {rest : List Token} {parts : List Part}
    {events : Segment} {s : ParseState} {follow : List Kind} {p : Parser Completed} {limit : Nat}
    (h : Partway es rest (Grammar.expression :: parts) events s)
    (hrest : follow.contains (nextKind rest) = true)
    (hends : (Part.first follow parts).all endsExpression = true) (hp : ReadsBack p limit)
    (hlimit : s.tokens.length < limit) :
    Succeeds p s fun c t =>
      Partway es rest parts (events ++ c.events) t ∧ t.tokens.length ≤ s.tokens.length := by
  obtain ⟨e, _, rest', hadmits, he, hnext, hs, hdone⟩ := h.exists_next hrest
  refine (hp e rest' s he hadmits (holds_of_contains hnext hends) hs hlimit).mono ?_
  rintro c t ⟨hc, ht⟩
  exact ⟨hdone c.events t hc.segment ht, hs.length_le ht⟩

namespace Parser

variable {inner operand : Parser Completed} {s : ParseState} {e : Element} {rest : List Token}
  {budget : Nat}

/-! ## Objects -/

/-- A name, a literal or a parenthesized expression is read. -/
theorem primary_recognizes (he : e.Sound)
    (hkind : e.isNodeIn [.nameExpression, .literalExpression, .parenthesizedExpression] = true)
    (hs : s.Faces (e.leaves ++ rest)) (hinner : ReadsBack inner s.tokens.length) :
    RecognizesNode (primary inner) s e rest := by
  obtain ⟨kind, cs, rfl, hk, hfills⟩ := he.exists_fills hkind
  simp only [List.contains_iff_mem, List.mem_cons, List.not_mem_nil, or_false] at hk
  unfold RecognizesNode primary
  apply Succeeds.get
  dsimp only
  rcases hk with rfl | rfl | rfl
  · have h := Partway.start (hfills.accepts_of_production rfl) hfills.sound hs
    rw [if_pos (h.peekKind_eq (contains_nextKind rest) rfl)]
    refine h.advance.bind ?_
    rintro name t ⟨h, _⟩
    exact .pure ⟨Completed.stands_node h.finish.1 rfl, h.finish.2⟩
  · have h := Partway.start (hfills.accepts_of_production rfl) hfills.sound hs
    have hname : s.isAt .identifier = false := h.isAt_eq_false (contains_nextKind rest) rfl
    have hliteral : isLiteral s.peekKind = true := h.starts (contains_nextKind rest) rfl
    rw [if_neg (beq_eq_false_iff_ne.mp hname), if_pos hliteral]
    refine h.advance.bind ?_
    rintro literal t ⟨h, _⟩
    exact .pure ⟨Completed.stands_node h.finish.1 rfl, h.finish.2⟩
  · have h := Partway.start (hfills.accepts_of_production rfl) hfills.sound hs
    have hpeek : s.peekKind = .openParen := h.peekKind_eq (contains_nextKind rest) rfl
    rw [hpeek, if_neg nofun, if_neg nofun, if_pos rfl]
    refine h.advance.bind ?_
    rintro opening t ⟨h, hlength⟩
    refine (h.expression (contains_nextKind rest) rfl hinner hlength).bind ?_
    rintro body u ⟨h, _⟩
    refine h.expect.bind ?_
    rintro closing v ⟨h, _⟩
    exact .pure ⟨Completed.stands_node h.finish.1 rfl, h.finish.2⟩

/-- The arguments of a call are read. -/
theorem argumentList_recognizes (he : e.Sound) (hkind : e.isNodeIn [.argumentList] = true)
    (hs : s.Faces (e.leaves ++ rest)) (hinner : ReadsBack inner s.tokens.length)
    (hbudget : s.tokens.length ≤ budget) :
    Recognizes (argumentList inner budget) s [e] rest := by
  obtain ⟨cs, rfl, hfills⟩ := he.exists_children hkind
  have h := Partway.start (hfills.accepts_of_production rfl) hfills.sound hs
  unfold Recognizes argumentList
  refine h.advance.bind ?_
  rintro opening t ⟨h, hlength⟩
  refine (h.separated (contains_nextKind rest) rfl rfl ?_ (by omega)).bind ?_
  · intro e rest' u he hkind hnext hu hle
    refine (hinner e rest' u he hkind (holds_of_contains hnext rfl) hu (by omega)).bind ?_
    rintro c v ⟨hc, hv⟩
    exact .pure ⟨hc.segment, hv⟩
  · rintro arguments u ⟨h, hle⟩
    have hstop : endsArguments u.peekKind = true := h.starts (contains_nextKind rest) rfl
    refine (skipUntil_stops _ hstop (by omega)).bind ?_
    rintro _ _ rfl
    refine h.expect.bind ?_
    rintro closing v ⟨h, _⟩
    exact .pure ⟨h.finish.1.node rfl, h.finish.2⟩

/-- Calls and accesses end where none comes next. -/
theorem chain_ends {object : Completed} (hobject : object.Stands e) (hs : s.Faces rest)
    (hrest : extendsObject (nextKind rest) = false) (hbudget : s.tokens.length < budget) :
    RecognizesNode (chain inner budget object) s e rest := by
  cases budget with
  | zero => cases hbudget
  | succ budget =>
      have hparen : nextKind rest ≠ .openParen := fun h => by simp [h, extendsObject] at hrest
      have hdot : nextKind rest ≠ .dot := fun h => by simp [h, extendsObject] at hrest
      unfold RecognizesNode chain
      apply Succeeds.get
      dsimp only
      rw [hs.peekKind, if_neg hparen, if_neg hdot]
      exact .pure ⟨hobject, hs⟩

section

variable {later : List Element} {object : Completed} {post : Completed → ParseState → Prop}

/-- A call behind an object is read, and the loop goes on with the call as the object. -/
theorem chain_call (h : Partway later rest [.node .argumentList] [] s)
    (hinner : ReadsBack inner s.tokens.length) (hbudget : s.tokens.length < budget)
    (hpost : ∀ (events : Segment) (t : ParseState) (left : Nat), events.Stands later →
      t.Faces rest → t.tokens.length < left →
      Succeeds (chain inner left (object.wrap .invocationExpression events)) t post) :
    Succeeds (chain inner budget object) s post := by
  cases budget with
  | zero => cases hbudget
  | succ budget =>
      unfold chain
      apply Succeeds.get
      dsimp only
      rw [if_pos (h.peekKind_eq (contains_nextKind rest) rfl)]
      obtain ⟨arguments, _, rest', hkind, harguments, _, hs, hdone⟩ :=
        h.exists_next (contains_nextKind rest)
      refine (argumentList_recognizes harguments hkind hs hinner (by omega)).bind ?_
      rintro events t ⟨hevents, ht⟩
      have hlt := hs.length_lt ht (harguments.leaves_ne_nil hkind rfl)
      have hend := (hdone events t hevents ht).finish
      exact hpost events t budget hend.1 hend.2 (by omega)

/-- An access to a member is read, and the loop goes on with the access as the object. -/
theorem chain_access (h : Partway later rest [.token .dot, .token .identifier] [] s)
    (hbudget : s.tokens.length < budget)
    (hpost : ∀ (events : Segment) (t : ParseState) (left : Nat), events.Stands later →
      t.Faces rest → t.tokens.length < left →
      Succeeds (chain inner left (object.wrap .memberAccessExpression events)) t post) :
    Succeeds (chain inner budget object) s post := by
  cases budget with
  | zero => cases hbudget
  | succ budget =>
      have hdot : s.peekKind = .dot := h.peekKind_eq (contains_nextKind rest) rfl
      unfold chain
      apply Succeeds.get
      dsimp only
      rw [hdot, if_neg (by decide), if_pos rfl]
      refine h.advance.bind ?_
      rintro dot t ⟨h, hlt⟩
      refine h.expect.bind ?_
      rintro member u ⟨h, hlt'⟩
      exact hpost _ u budget h.finish.1 h.finish.2 (by omega)

/-- Reading an object and what extends it comes to the state behind any object that the
leaves start with, with that object finished. -/
theorem chain_recognizes (he : e.Sound) (hobject : e.isNodeIn Grammar.objects = true)
    (hs : s.Faces (e.leaves ++ rest)) (hinner : ReadsBack inner s.tokens.length)
    (hbudget : s.tokens.length < budget)
    (hpost : ∀ c t left, c.Stands e → t.Faces rest → t.tokens.length < left →
      Succeeds (chain inner left c) t post) :
    Succeeds (primary inner >>= chain inner budget) s post := by
  induction e using Element.induction generalizing rest post with
  | token _ => cases hobject
  | list _ _ => cases hobject
  | separated _ _ => cases hobject
  | node kind measure children ih =>
      obtain ⟨k, cs, heq, hk, hfills⟩ := he.exists_fills hobject
      cases heq
      have hprimary (hkind : [Kind.nameExpression, .literalExpression,
          .parenthesizedExpression].contains kind = true) :
          Succeeds (primary inner >>= chain inner budget) s post := by
        refine (primary_recognizes he hkind hs hinner).bind ?_
        rintro c t ⟨hc, ht⟩
        have hle := hs.length_le ht
        exact hpost c t budget hc ht (by omega)
      -- Behind its object, a call or an access goes on with the parts that are left.
      have hextended {parts : List Part}
          (hparts : Grammar.nestedProduction kind = some (.one (.node Grammar.objects) :: parts))
          (hstep : ∀ first later c t left, children = first :: later → c.Stands first →
            Partway later rest parts [] t → t.tokens.length ≤ s.tokens.length →
            t.tokens.length < left → Succeeds (chain inner left c) t post) :
          Succeeds (primary inner >>= chain inner budget) s post := by
        obtain ⟨parts', hparts', haccepts⟩ := hfills.accepts_nested
        rw [hparts] at hparts'
        cases hparts'
        obtain ⟨first, later, rfl, hadmits, hlater⟩ := Part.exists_of_accepts_cons haccepts
        obtain ⟨hfirst, hsound⟩ := List.forall_mem_cons.mp hfills.sound
        have hs' : s.Faces (first.leaves ++ (Element.leavesAll later ++ rest)) := by
          rwa [← List.append_assoc]
        refine ih first List.mem_cons_self hfirst hadmits hs' ?_
        intro c t left hc ht hleft
        exact hstep first later c t left rfl hc (.start hlater hsound ht) (hs'.length_le ht) hleft
      simp only [Grammar.objects, List.contains_iff_mem, List.mem_cons, List.not_mem_nil,
        or_false] at hk
      rcases hk with rfl | rfl | rfl | rfl | rfl
      · exact hprimary rfl
      · exact hprimary rfl
      · exact hprimary rfl
      · refine hextended rfl ?_
        rintro first later c t left rfl hc h hle hleft
        refine chain_call h (hinner.mono hle) hleft ?_
        exact fun events u left hevents => hpost _ u left (hc.wrap hevents rfl)
      · refine hextended rfl ?_
        rintro first later c t left rfl hc h hle hleft
        refine chain_access h hleft ?_
        exact fun events u left hevents => hpost _ u left (hc.wrap hevents rfl)

end

/-! ## Operands with signs -/

/-- The sign and the operand of an expression with a sign. -/
theorem exists_of_sign {cs : List Element} (h : Element.Fills .prefixUnaryExpression cs) :
    ∃ sign operand, cs = [.token sign, operand] ∧ isSign sign.kind = true ∧ operand.Sound ∧
      Grammar.signed ≤ operand.strength := by
  obtain ⟨first, later, rfl, hsign, hlater⟩ :=
    Part.exists_of_accepts_cons (h.accepts_of_production rfl)
  obtain ⟨operand, rfl, _⟩ := Part.exists_of_accepts_one hlater
  have hnested : Grammar.signed ≤ operand.strength := of_decide_eq_true h.nested
  cases first with
  | token sign =>
      exact ⟨sign, operand, rfl, (isSign_eq sign.kind).trans hsign,
        h.sound operand (by simp), hnested⟩
  | node _ _ _ => cases hsign
  | list _ _ => cases hsign
  | separated _ _ => cases hsign

/-- An operand is read up to what does not extend it. -/
theorem unary_recognizes (he : e.Sound) (hstrength : Grammar.signed ≤ e.strength)
    (hrest : extendsObject (nextKind rest) = false) (hs : s.Faces (e.leaves ++ rest))
    (hinner : ReadsBack inner s.tokens.length) (hbudget : s.tokens.length + 1 < budget) :
    RecognizesNode (unary inner budget) s e rest := by
  induction budget generalizing s e with
  | zero => cases hbudget
  | succ budget ih =>
      unfold RecognizesNode unary
      apply Succeeds.get
      rcases Element.isNodeIn_of_strength hstrength with hobject | hsign
      · have hplain := he.starts (p := fun kind => !isSign kind) hobject rfl rest
        rw [Bool.not_eq_true'] at hplain
        rw [hs.peekKind, hplain, if_neg Bool.false_ne_true]
        refine chain_recognizes he hobject hs hinner (by omega) ?_
        exact fun c t left hc ht hleft => chain_ends hc ht hrest hleft
      · obtain ⟨cs, rfl, hfills⟩ := he.exists_children hsign
        obtain ⟨sign, operand, rfl, hsign, hoperand, hnested⟩ := exists_of_sign hfills
        have hs' : s.Faces (sign :: (operand.leaves ++ rest)) := by
          simpa [Element.makeNode, Element.leaves, Element.leavesAll] using hs
        rw [hs'.peekKind, nextKind, if_pos hsign]
        refine hs'.advance.bind ?_
        rintro here t ⟨hhere, ht, hlt⟩
        refine (ih hoperand hnested ht (hinner.mono (by omega)) (by omega)).bind ?_
        rintro c u ⟨hc, hu⟩
        exact .pure ⟨Completed.stands_node (hhere.append hc.segment) rfl, hu⟩

/-! ## Binary operators -/

/-- Operators are read up to one that is no stronger than `least`. -/
theorem binary_ends {least : Nat} {left : Completed} (hleft : left.Stands e) (hs : s.Faces rest)
    (hyields : ∀ k, precedence? (nextKind rest) = some k → k ≤ least)
    (hbudget : s.tokens.length < budget) :
    RecognizesNode (binary operand budget least left) s e rest := by
  cases budget with
  | zero => cases hbudget
  | succ budget =>
      unfold RecognizesNode binary
      apply Succeeds.get
      rw [hs.peekKind]
      split
      · exact .pure ⟨hleft, hs⟩
      · rename_i k hk
        rw [if_pos (hyields k hk)]
        exact .pure ⟨hleft, hs⟩

/-- A stronger operator and its right operand are read behind a left operand, and the
loop goes on with the binary expression as the left operand. -/
theorem binary_operator {least k : Nat} {left : Completed} {operator : Token} {right : Element}
    {post : Completed → ParseState → Prop} (hk : precedence? operator.kind = some k)
    (hleast : least < k) (hs : s.Faces (operator :: (right.leaves ++ rest)))
    (hright : ∀ t left, t.Faces (right.leaves ++ rest) → t.tokens.length < s.tokens.length →
      t.tokens.length < left → RecognizesNode (operand >>= binary operand left k) t right rest)
    (hbudget : s.tokens.length < budget)
    (hpost : ∀ (events : Segment) (t : ParseState) (budget : Nat),
      events.Stands [.token operator, right] → t.Faces rest → t.tokens.length < budget →
      Succeeds (binary operand budget least (left.wrap .binaryExpression events)) t post) :
    Succeeds (binary operand budget least left) s post := by
  cases budget with
  | zero => cases hbudget
  | succ budget =>
      unfold binary
      apply Succeeds.get
      simp only [hs.peekKind, nextKind, hk, if_neg (Nat.not_le.mpr hleast)]
      refine hs.advance.bind ?_
      rintro sign t ⟨hsign, ht, hlt⟩
      rw [← bind_assoc]
      refine (hright t budget ht hlt (by omega)).bind ?_
      rintro c u ⟨hc, hu⟩
      have hle := ht.length_le hu
      exact hpost _ u budget (hsign.append hc.segment) hu (by omega)

/-- The operands and the operator of a binary expression. -/
theorem exists_of_binary {cs : List Element} (h : Element.Fills .binaryExpression cs) :
    ∃ left operator right k, cs = [left, .token operator, right] ∧
      precedence? operator.kind = some k ∧ (Element.makeNode .binaryExpression cs).strength = k ∧
      left.Sound ∧ right.Sound ∧ k ≤ left.strength ∧ k < right.strength := by
  obtain ⟨left, later, rfl, _, hlater⟩ := Part.exists_of_accepts_cons (h.accepts_of_production rfl)
  obtain ⟨middle, later, rfl, hoperator, hlater⟩ := Part.exists_of_accepts_cons hlater
  obtain ⟨right, rfl, _⟩ := Part.exists_of_accepts_one hlater
  obtain ⟨k, hk, hleft, hright⟩ := Element.exists_precedence?_of_nested h.nested
  cases middle with
  | token operator =>
      exact ⟨left, operator, right, k, rfl, hk, Element.strength_binary hk, h.sound left (by simp),
        h.sound right (by simp), hleft, hright⟩
  | node _ _ _ => cases hoperator
  | list _ _ => cases hoperator
  | separated _ _ => cases hoperator

/-- An operator does not extend the object in front of it. -/
theorem extendsObject_of_precedence? {kind : Kind} {k : Nat} (h : precedence? kind = some k) :
    extendsObject kind = false := by
  revert h
  cases kind <;> first | exact fun _ => rfl | nofun

/-- Operands are read back from all states with no more than `limit` tokens. -/
def ReadsOperands (operand : Parser Completed) (limit : Nat) : Prop :=
  ∀ e rest t, Element.Sound e → Grammar.signed ≤ e.strength →
    extendsObject (nextKind rest) = false → t.Faces (e.leaves ++ rest) →
    t.tokens.length ≤ limit → RecognizesNode operand t e rest

/-- Reading an operand and the operators behind it that are stronger than `least` comes to
the state behind any expression that is stronger than `least` and that the leaves start
with, with that expression finished. -/
theorem binary_recognizes {least limit : Nat} (he : e.Sound) (hleast : least < e.strength)
    (hrest : extendsObject (nextKind rest) = false)
    (hyields : ∀ k, precedence? (nextKind rest) = some k → k ≤ e.strength)
    (hs : s.Faces (e.leaves ++ rest)) (hoperand : ReadsOperands operand limit)
    (hlimit : s.tokens.length ≤ limit) (hbudget : s.tokens.length < budget)
    {post : Completed → ParseState → Prop}
    (hpost : ∀ c t left, c.Stands e → t.Faces rest → t.tokens.length < left →
      Succeeds (binary operand left least c) t post) :
    Succeeds (operand >>= binary operand budget least) s post := by
  induction e using Element.induction generalizing s rest budget least post with
  | token _ => exact absurd hleast (Nat.not_lt_zero least)
  | list _ _ => exact absurd hleast (Nat.not_lt_zero least)
  | separated _ _ => exact absurd hleast (Nat.not_lt_zero least)
  | node kind measure children ih =>
      by_cases hsigned : Grammar.signed ≤ (Element.node kind measure children).strength
      · refine (hoperand _ rest s he hsigned hrest hs hlimit).bind ?_
        rintro c t ⟨hc, ht⟩
        have hle := hs.length_le ht
        exact hpost c t budget hc ht (by omega)
      · have hbinary := Element.isNodeIn_binary_of_strength (by omega) (Nat.lt_of_not_le hsigned)
        obtain ⟨cs, heq, hfills⟩ := he.exists_children hbinary
        cases heq
        obtain ⟨left, operator, right, k, rfl, hk, hstrength, hleft, hright, hleftStrength,
          hrightStrength⟩ := exists_of_binary hfills
        rw [← Element.makeNode, hstrength] at hleast hyields
        have hs' : s.Faces (left.leaves ++ operator :: (right.leaves ++ rest)) := by
          simpa [Element.leaves, Element.leavesAll] using hs
        have hnext : extendsObject (nextKind (operator :: (right.leaves ++ rest))) = false :=
          extendsObject_of_precedence? hk
        refine ih left (by simp) hleft (by omega) hnext ?_ hs' hlimit hbudget ?_
        · intro j hj
          rw [nextKind, hk] at hj
          cases hj
          exact hleftStrength
        · intro c t budget hc ht hbudget
          have hle := hs'.length_le ht
          refine binary_operator hk hleast ht ?_ hbudget ?_
          · intro u budget hu hlt hbudget
            refine ih right (by simp) hright hrightStrength hrest
              (fun j hj => Nat.le_of_lt (Nat.lt_of_le_of_lt (hyields j hj) hrightStrength)) hu
              (by omega) hbudget ?_
            exact fun d v left hd hv hleft => binary_ends hd hv hyields hleft
          · exact fun events u budget hevents => hpost _ u budget (hc.wrap hevents rfl)

/-! ## Expressions -/

/-- The two sides of an assignment. -/
theorem exists_of_assignment {cs : List Element} (h : Element.Fills .assignmentExpression cs) :
    ∃ left sign right, cs = [left, .token sign, right] ∧ sign.kind = .equals ∧ left.Sound ∧
      right.Sound ∧ right.isNodeIn Grammar.expressions = true ∧ 0 < left.strength := by
  obtain ⟨left, later, rfl, _, hlater⟩ := Part.exists_of_accepts_cons (h.accepts_of_production rfl)
  obtain ⟨middle, later, rfl, hmiddle, hlater⟩ := Part.exists_of_accepts_cons hlater
  obtain ⟨right, rfl, hright⟩ := Part.exists_of_accepts_one hlater
  obtain ⟨sign, rfl, hsign⟩ := Element.exists_of_isTokenIn hmiddle
  exact ⟨left, sign, right, rfl, hsign, h.sound left (by simp), h.sound right (by simp), hright,
    of_decide_eq_true h.nested⟩

/-- Only an assignment has no strength. -/
theorem strength_pos_or_isAssignment (he : e.Sound)
    (hkind : e.isNodeIn Grammar.expressions = true) :
    0 < e.strength ∨ e.isNodeIn [.assignmentExpression] = true := by
  obtain ⟨kind, cs, rfl, hk, hfills⟩ := he.exists_fills hkind
  have hobject (h : Grammar.objects.contains kind = true) :
      0 < (Element.makeNode kind cs).strength := by
    rw [Element.strength_of_object h]
    decide
  simp only [Grammar.expressions, List.contains_iff_mem, List.mem_cons, List.not_mem_nil,
    or_false] at hk
  rcases hk with rfl | rfl | rfl | rfl | rfl | rfl | rfl | rfl
  · exact .inl (hobject rfl)
  · exact .inl (hobject rfl)
  · exact .inl (hobject rfl)
  · exact .inl (by decide : 0 < Grammar.signed)
  · obtain ⟨left, operator, right, k, _, hk, hstrength, _⟩ := exists_of_binary hfills
    rw [hstrength]
    exact .inl (precedence?_le hk).1
  · exact .inr rfl
  · exact .inl (hobject rfl)
  · exact .inl (hobject rfl)

/-- What ends an expression is no operator, does not extend an object and is no sign of
an assignment. -/
theorem of_endsExpression {kind : Kind} (h : endsExpression kind = true) :
    precedence? kind = none ∧ extendsObject kind = false ∧ (kind == .equals) = false := by
  revert h
  cases kind <;> first | exact fun _ => ⟨rfl, rfl, rfl⟩ | nofun

/-- Reading an operand and all operators behind it comes to the end of an expression that
is no assignment. -/
theorem operators_recognize {limit : Nat} (he : e.Sound) (hstrength : 0 < e.strength)
    (hrest : precedence? (nextKind rest) = none) (hextends : extendsObject (nextKind rest) = false)
    (hs : s.Faces (e.leaves ++ rest)) (hoperand : ReadsOperands operand limit)
    (hlimit : s.tokens.length ≤ limit) (hbudget : s.tokens.length < budget) :
    RecognizesNode (operand >>= binary operand budget 0) s e rest := by
  have hnone (k : Nat) (most : Nat) (hk : precedence? (nextKind rest) = some k) : k ≤ most := by
    rw [hrest] at hk
    cases hk
  refine binary_recognizes he hstrength hextends (fun k => hnone k _) hs hoperand hlimit hbudget ?_
  exact fun c t left hc ht hleft => binary_ends hc ht (fun k => hnone k 0) hleft

/-- Every expression is read back where a token follows that ends it. -/
theorem expression_recognizes (he : e.Sound) (hkind : e.isNodeIn Grammar.expressions = true)
    (hends : endsExpression (nextKind rest) = true) (hs : s.Faces (e.leaves ++ rest))
    (hbudget : s.tokens.length + 2 < budget) : RecognizesNode (expression budget) s e rest := by
  induction budget generalizing s e rest with
  | zero => cases hbudget
  | succ budget ih =>
      have hinner : ReadsBack (expression budget) s.tokens.length :=
        fun e rest t he hkind hends ht hlt => ih he hkind hends ht (by omega)
      have hoperand : ReadsOperands (unary (expression budget) budget) s.tokens.length :=
        fun e rest t he hstrength hrest ht hle =>
          unary_recognizes he hstrength hrest ht (hinner.mono hle) (by omega)
      obtain ⟨hnone, hextends, hequals⟩ := of_endsExpression hends
      unfold RecognizesNode expression
      dsimp only
      rw [← bind_assoc]
      rcases strength_pos_or_isAssignment he hkind with hpos | hassignment
      · refine (operators_recognize he hpos hnone hextends hs hoperand (Nat.le_refl _)
          (by omega)).bind ?_
        rintro c t ⟨hc, ht⟩
        apply Succeeds.get
        rw [ht.isAt, hequals, if_neg Bool.false_ne_true]
        exact .pure ⟨hc, ht⟩
      · obtain ⟨cs, rfl, hfills⟩ := he.exists_children hassignment
        obtain ⟨left, sign, right, rfl, hsign, hleft, hright, hrightKind, hleftStrength⟩ :=
          exists_of_assignment hfills
        have hs' : s.Faces (left.leaves ++ sign :: (right.leaves ++ rest)) := by
          simpa [Element.makeNode, Element.leaves, Element.leavesAll] using hs
        have hsignNone : precedence? (nextKind (sign :: (right.leaves ++ rest))) = none := by
          rw [nextKind, hsign]
          rfl
        have hsignExtends : extendsObject (nextKind (sign :: (right.leaves ++ rest))) = false := by
          rw [nextKind, hsign]
          rfl
        refine (operators_recognize hleft hleftStrength hsignNone hsignExtends hs' hoperand
          (Nat.le_refl _) (by omega)).bind ?_
        rintro c t ⟨hc, ht⟩
        have hle := hs'.length_le ht
        apply Succeeds.get
        rw [ht.isAt, nextKind, hsign, beq_self_eq_true, if_pos rfl]
        refine ht.advance.bind ?_
        rintro equals u ⟨hequals, hu, hlt⟩
        refine (hinner right rest u hright hrightKind hends hu (by omega)).bind ?_
        rintro d v ⟨hd, hv⟩
        exact .pure ⟨hc.wrap (hequals.append hd.segment) rfl, hv⟩

/-- Expressions are read back as long as the budget exceeds the number of tokens by two. -/
theorem expression_readsBack {limit : Nat} (hbudget : limit + 1 < budget) :
    ReadsBack (expression budget) limit :=
  fun _ _ _ he hkind hends ht hlt => expression_recognizes he hkind hends ht (by omega)

end Parser

end Verbatim
