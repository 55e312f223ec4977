/-
  Reading back statements and declarations.

  A statement is read back whatever comes behind it, with one exception: an `else` must
  not come behind a statement that ends in a branch without one, because that branch
  would take it.  Statements in a list are followed by other statements or by the end
  of the list, and the body of a branch with an `else` does not end in an open branch,
  so the exception never arises inside of a sound tree.
-/
import Verbatim.Proofs.ExpressionRecognition
import Verbatim.Proofs.StatementReading

set_option autoImplicit false

namespace Verbatim.Parser

variable {inner : Parser Segment} {s : ParseState} {e : Element} {rest : List Token}
  {budget : Nat}

/-! ## Types and values -/

theorem typeAscription_recognizes (he : e.Sound) (hkind : e.isNodeIn [.typeAscription] = true)
    (hs : s.Faces (e.leaves ++ rest)) : Recognizes typeAscription s [e] rest := by
  obtain ⟨cs, rfl, hfills⟩ := he.exists_children hkind
  have h := Partway.start (hfills.accepts_of_production rfl) hfills.sound hs
  unfold Recognizes typeAscription
  refine h.expect.bind ?_
  rintro colon t ⟨h, _⟩
  obtain ⟨reference, _, hkind, hreference, ht, hdone⟩ := h.exists_last
  obtain ⟨ds, rfl, hfills⟩ := hreference.exists_children hkind
  have h := Partway.start (hfills.accepts_of_production rfl) hfills.sound ht
  refine h.expect.bind ?_
  rintro type u ⟨h, _⟩
  obtain ⟨hstands, hu⟩ := hdone _ u (h.finish.1.node rfl) h.finish.2
  exact .pure ⟨hstands.node rfl, hu⟩

/-- A type that may be left out is read if it is there. -/
theorem optionalType_recognizes {es : List Element} {parts : List Part} {events : Segment}
    {follow : List Kind}
    (h : Partway es rest (.maybe (.node [.typeAscription]) :: parts) events s)
    (hrest : follow.contains (nextKind rest) = true)
    (hcolon : (Part.first follow parts).contains .colon = false) :
    Succeeds optionalType s fun here t =>
      Partway es rest parts (events ++ here) t ∧ t.tokens.length ≤ s.tokens.length :=
  h.optional hrest rfl hcolon fun _ _ he hkind _ hs => typeAscription_recognizes he hkind hs

/-- The value of a variable is read. -/
theorem valueClause_recognizes (he : e.Sound) (hkind : e.isNodeIn [.equalsValueClause] = true)
    (hends : endsExpression (nextKind rest) = true) (hs : s.Faces (e.leaves ++ rest))
    (hbudget : s.tokens.length + 2 < budget) :
    Recognizes
      (do
        let sign ← advance
        let value ← expression budget
        return Segment.node .equalsValueClause (sign ++ value.events))
      s [e] rest := by
  obtain ⟨cs, rfl, hfills⟩ := he.exists_children hkind
  have h := Partway.start (hfills.accepts_of_production rfl) hfills.sound hs
  unfold Recognizes
  refine h.advance.bind ?_
  rintro sign t ⟨h, hlt⟩
  have hvalue : ReadsBack (expression budget) s.tokens.length := expression_readsBack (by omega)
  refine (h.expression (contains_nextKind rest) (by simpa [Part.first] using hends) hvalue
    hlt).bind ?_
  rintro value u ⟨h, _⟩
  exact .pure ⟨h.finish.1.node rfl, h.finish.2⟩

/-! ## Lists of statements -/

/-- The parser reads back statements from all states with fewer than `limit` tokens. -/
def ReadsStatements (p : Parser Segment) (limit : Nat) : Prop :=
  ∀ e rest t, Element.Sound e → e.isNodeIn Grammar.statements = true →
    (e.endsOpen = true → nextKind rest ≠ .elseKw) → t.Faces (e.leaves ++ rest) →
    t.tokens.length < limit → Recognizes p t [e] rest

theorem ReadsStatements.mono {p : Parser Segment} {m n : Nat} (h : ReadsStatements p n)
    (hle : m ≤ n) : ReadsStatements p m :=
  fun e rest t he hkind hopen ht hlt => h e rest t he hkind hopen ht (Nat.lt_of_lt_of_le hlt hle)

/-- Statements stop at the token. -/
def stopsStatements (toBrace : Bool) (kind : Kind) : Bool :=
  kind == .eof || (toBrace && kind == .closeBrace)

/-- No statement starts where statements stop, or with an `else`. -/
theorem starts_statement (he : e.Sound) (hkind : e.isNodeIn Grammar.statements = true)
    (toBrace : Bool) (rest : List Token) :
    stopsStatements toBrace (nextKind (e.leaves ++ rest)) = false ∧
      nextKind (e.leaves ++ rest) ≠ .elseKw := by
  have hstarts := he.starts
    (p := fun kind => kind != .eof && kind != .closeBrace && kind != .elseKw) hkind rfl rest
  simp only [Bool.and_eq_true, bne_iff_ne] at hstarts
  obtain ⟨⟨heof, hbrace⟩, helse⟩ := hstarts
  exact ⟨by simp [stopsStatements, heof, hbrace], helse⟩

/-- Statements are read up to where they stop. -/
theorem statements_recognizes {toBrace : Bool} {nodes : List Element}
    (hsound : ∀ e ∈ nodes, e.Sound) (hkinds : ∀ e ∈ nodes, e.isNodeIn Grammar.statements = true)
    (hstop : stopsStatements toBrace (nextKind rest) = true)
    (hs : s.Faces (Element.leavesAll nodes ++ rest))
    (hinner : ReadsStatements inner (s.tokens.length + 1)) (hbudget : s.tokens.length < budget) :
    Recognizes (statements inner toBrace budget) s nodes rest := by
  induction nodes generalizing s budget with
  | nil =>
      cases budget with
      | zero => cases hbudget
      | succ budget =>
          unfold Recognizes statements
          apply Succeeds.get
          rw [Element.leavesAll, List.nil_append] at hs
          rw [stopsStatements] at hstop
          rw [hs.isAt, hs.isAt, if_pos hstop]
          exact .pure ⟨Segment.stands_nil, hs⟩
  | cons e later ih =>
      cases budget with
      | zero => cases hbudget
      | succ budget =>
          obtain ⟨he, hsound⟩ := List.forall_mem_cons.mp hsound
          obtain ⟨hkind, hkinds⟩ := List.forall_mem_cons.mp hkinds
          rw [Element.leavesAll, List.append_assoc] at hs
          have hnext : nextKind (Element.leavesAll later ++ rest) ≠ .elseKw := by
            cases later with
            | nil =>
                intro helse
                rw [Element.leavesAll, List.nil_append] at helse
                rw [helse] at hstop
                simp [stopsStatements] at hstop
            | cons next more =>
                rw [Element.leavesAll, List.append_assoc]
                exact (starts_statement (hsound next List.mem_cons_self)
                  (hkinds next List.mem_cons_self) toBrace _).2
          unfold Recognizes statements
          apply Succeeds.get
          have hgo := (starts_statement he hkind toBrace (Element.leavesAll later ++ rest)).1
          rw [stopsStatements] at hgo
          rw [hs.isAt, hs.isAt, hgo, if_neg Bool.false_ne_true]
          refine (hinner e _ s he hkind (fun _ => hnext) hs (Nat.lt_succ_self _)).bind ?_
          rintro here t ⟨hhere, ht⟩
          have hlt := hs.length_lt ht (he.leaves_ne_nil hkind rfl)
          refine (ih hsound hkinds ht (hinner.mono (by omega)) (by omega)).bind ?_
          rintro later u ⟨hlater, hu⟩
          exact .pure ⟨hhere.append hlater, hu⟩

/-- A block is read. -/
theorem block_recognizes (he : e.Sound) (hkind : e.isNodeIn [.block] = true)
    (hs : s.Faces (e.leaves ++ rest)) (hinner : ReadsStatements inner s.tokens.length)
    (hbudget : s.tokens.length ≤ budget) : Recognizes (block inner budget) s [e] rest := by
  obtain ⟨cs, rfl, hfills⟩ := he.exists_children hkind
  have h := Partway.start (hfills.accepts_of_production rfl) hfills.sound hs
  have hat : s.isAt .openBrace = true :=
    beq_iff_eq.mpr (h.peekKind_eq (contains_nextKind rest) rfl)
  unfold Recognizes block
  apply Succeeds.get
  rw [if_pos hat]
  refine h.advance.bind ?_
  rintro opening t ⟨h, hlt⟩
  refine (h.list (contains_nextKind rest) ?_).bind ?_
  · intro nodes rest' _ hsound hkinds hnext ht
    exact statements_recognizes hsound hkinds (holds_of_contains hnext rfl) ht
      (hinner.mono (by omega)) (by omega)
  · rintro body u ⟨h, _⟩
    refine h.expect.bind ?_
    rintro closing v ⟨h, _⟩
    exact .pure ⟨h.finish.1.node rfl, h.finish.2⟩

/-! ## Interfaces -/

/-- The end of a property. -/
def propertyEnd : Symbol := .token [.semicolon, .comma]

/-- A property has its end, or a closing brace comes behind it. -/
theorem exists_end {cs : List Element} (hfills : Element.Fills .propertySignature cs)
    (hend : (Element.makeNode .propertySignature cs).lacksEnd = true →
      nextKind rest = .closeBrace) :
    ∃ last, Part.accepts ([.token .identifier, .maybe (.token [.question]),
        .node .typeAscription] ++ last) cs = true ∧
      (last = [.one propertyEnd] ∨ last = [] ∧ nextKind rest = .closeBrace) := by
  have haccepts := hfills.accepts_of_production rfl
  cases hany : cs.any propertyEnd.admits with
  | true => exact ⟨_, Part.accepts_required rfl hany haccepts, .inl rfl⟩
  | false =>
      have hlacks : (Element.makeNode .propertySignature cs).lacksEnd = true :=
        (Bool.not_eq_true' _).mpr hany
      exact ⟨_, Part.accepts_left_out hany haccepts, .inr ⟨rfl, hend hlacks⟩⟩

/-- A property is read, if it has its end or a closing brace comes behind it. -/
theorem propertySignature_recognizes (he : e.Sound)
    (hkind : e.isNodeIn [.propertySignature] = true)
    (hend : e.lacksEnd = true → nextKind rest = .closeBrace) (hs : s.Faces (e.leaves ++ rest)) :
    Recognizes propertySignature s [e] rest := by
  obtain ⟨cs, rfl, hfills⟩ := he.exists_children hkind
  obtain ⟨last, haccepts, hlast⟩ := exists_end hfills hend
  have h := Partway.start haccepts hfills.sound hs
  unfold Recognizes propertySignature
  refine h.advance.bind ?_
  rintro key t ⟨h, _⟩
  refine (h.eat (contains_nextKind rest) rfl).bind ?_
  rintro question u ⟨h, _⟩
  refine (h.node (contains_nextKind rest) fun e rest' he hkind _ hu =>
    typeAscription_recognizes he hkind hu).bind ?_
  rintro type v ⟨h, _⟩
  apply Succeeds.get
  dsimp only
  rcases hlast with rfl | ⟨rfl, hbrace⟩
  · have hfirst := h.starts (p := fun kind => kind == .semicolon || kind == .comma)
      (contains_nextKind rest) rfl
    rw [Bool.or_eq_true] at hfirst
    have hread : Succeeds
        (do
          let terminator ← advance
          return Segment.node .propertySignature (key ++ question ++ type ++ terminator)) v
        fun events w => events.Stands [.makeNode .propertySignature cs] ∧ w.Faces rest := by
      refine h.advance.bind ?_
      rintro terminator w ⟨h, _⟩
      exact .pure ⟨h.finish.1.node rfl, h.finish.2⟩
    rcases hfirst with hsemicolon | hcomma
    · rw [if_pos (show v.isAt .semicolon = true from hsemicolon)]
      exact hread
    · rw [if_pos (show v.isAt .comma = true from hcomma), ite_self]
      exact hread
  · obtain ⟨hstands, hv⟩ := h.finish
    rw [hv.isAt, hv.isAt, hv.isAt, hbrace]
    exact .pure ⟨by simpa using hstands.node rfl, hv⟩

/-- Properties are read up to the closing brace.  Only the last one can do without an end. -/
theorem members_recognizes {nodes : List Element} (hsound : ∀ e ∈ nodes, e.Sound)
    (hkinds : ∀ e ∈ nodes, e.isNodeIn [.propertySignature] = true)
    (hends : nodes.dropLast.any Element.lacksEnd = false) (hrest : nextKind rest = .closeBrace)
    (hs : s.Faces (Element.leavesAll nodes ++ rest)) (hbudget : s.tokens.length < budget) :
    Recognizes (members budget) s nodes rest := by
  induction nodes generalizing s budget with
  | nil =>
      cases budget with
      | zero => cases hbudget
      | succ budget =>
          unfold Recognizes members
          apply Succeeds.get
          rw [Element.leavesAll, List.nil_append] at hs
          rw [hs.isAt, hrest, beq_self_eq_true, Bool.true_or, if_pos rfl]
          exact .pure ⟨Segment.stands_nil, hs⟩
  | cons e later ih =>
      cases budget with
      | zero => cases hbudget
      | succ budget =>
          obtain ⟨he, hsound⟩ := List.forall_mem_cons.mp hsound
          obtain ⟨hkind, hkinds⟩ := List.forall_mem_cons.mp hkinds
          rw [Element.leavesAll, List.append_assoc] at hs
          obtain ⟨hend, hends⟩ : (e.lacksEnd = true →
              nextKind (Element.leavesAll later ++ rest) = .closeBrace) ∧
              later.dropLast.any Element.lacksEnd = false := by
            cases later with
            | nil => exact ⟨fun _ => hrest, rfl⟩
            | cons next more =>
                rw [List.dropLast_cons_cons, List.any_cons, Bool.or_eq_false_iff] at hends
                refine ⟨fun hlacks => ?_, hends.2⟩
                rw [hends.1] at hlacks
                cases hlacks
          have hname := he.starts (p := (· == .identifier)) hkind rfl
            (Element.leavesAll later ++ rest)
          unfold Recognizes members
          apply Succeeds.get
          rw [hs.isAt, hs.isAt, hs.isAt, beq_iff_eq.mp hname, if_neg (by decide),
            if_pos (beq_self_eq_true _)]
          refine (propertySignature_recognizes he hkind hend hs).bind ?_
          rintro here t ⟨hhere, ht⟩
          have hlt := hs.length_lt ht (he.leaves_ne_nil hkind rfl)
          refine (ih hsound hkinds hends ht (by omega)).bind ?_
          rintro later u ⟨hlater, hu⟩
          exact .pure ⟨hhere.append hlater, hu⟩

/-- An interface is read. -/
theorem interfaceDeclaration_recognizes (he : e.Sound)
    (hkind : e.isNodeIn [.interfaceDeclaration] = true) (hs : s.Faces (e.leaves ++ rest))
    (hbudget : s.tokens.length ≤ budget) :
    Recognizes (interfaceDeclaration budget) s [e] rest := by
  obtain ⟨cs, rfl, hfills⟩ := he.exists_children hkind
  have h := Partway.start (hfills.accepts_of_production rfl) hfills.sound hs
  have hjoins : cs.any Element.joinsProperties = false := hfills.complete.properties hkind
  unfold Recognizes interfaceDeclaration
  refine h.advance.bind ?_
  rintro keyword t ⟨h, hlt⟩
  refine h.expect.bind ?_
  rintro interfaceName u ⟨h, hlt'⟩
  refine h.expect.bind ?_
  rintro opening v ⟨h, hlt''⟩
  refine (h.list (contains_nextKind rest) ?_).bind ?_
  · intro nodes rest' hmem hsound hkinds hnext hv
    have hends : (Element.makeList nodes).joinsProperties = false := by
      simpa using List.any_eq_false.mp hjoins _ hmem
    exact members_recognizes hsound hkinds hends (eq_of_contains hnext) hv (by omega)
  · rintro properties w ⟨h, _⟩
    refine h.expect.bind ?_
    rintro closing x ⟨h, _⟩
    exact .pure ⟨h.finish.1.node rfl, h.finish.2⟩

/-! ## Declarations -/

/-- A declared variable is read. -/
theorem variableDeclarator_recognizes (he : e.Sound)
    (hkind : e.isNodeIn [.variableDeclarator] = true)
    (hrest : [.comma, .semicolon].contains (nextKind rest) = true)
    (hs : s.Faces (e.leaves ++ rest)) (hbudget : s.tokens.length + 2 < budget) :
    Recognizes (variableDeclarator budget) s [e] rest := by
  obtain ⟨cs, rfl, hfills⟩ := he.exists_children hkind
  have h := Partway.start (hfills.accepts_of_production rfl) hfills.sound hs
  unfold Recognizes variableDeclarator
  refine h.expect.bind ?_
  rintro variableName t ⟨h, hlt⟩
  refine (optionalType_recognizes h hrest rfl).bind ?_
  rintro type u ⟨h, hle⟩
  refine (h.optional hrest rfl rfl fun e rest' he hkind hnext hu =>
    valueClause_recognizes he hkind (holds_of_contains hnext rfl) hu (by omega)).bind ?_
  rintro value v ⟨h, _⟩
  exact .pure ⟨h.finish.1.node rfl, h.finish.2⟩

/-- A keyword and the variables that it declares are read. -/
theorem variableDeclaration_recognizes (he : e.Sound)
    (hkind : e.isNodeIn [.variableDeclaration] = true)
    (hrest : [.semicolon].contains (nextKind rest) = true) (hs : s.Faces (e.leaves ++ rest))
    (hbudget : s.tokens.length + 2 < budget) :
    Recognizes (unterminated .variableStatement budget) s [e] rest := by
  obtain ⟨cs, rfl, hfills⟩ := he.exists_children hkind
  have h := Partway.start (hfills.accepts_of_production rfl) hfills.sound hs
  unfold Recognizes unterminated
  refine h.advance.bind ?_
  rintro keyword t ⟨h, hlt⟩
  refine (h.separated hrest rfl rfl ?_ (by omega)).bind ?_
  · intro e rest' u he hkind hnext hu hle
    exact variableDeclarator_recognizes he hkind hnext hu (by omega)
  · rintro declarators u ⟨h, _⟩
    exact .pure ⟨h.finish.1.node rfl, h.finish.2⟩

/-- A parameter is read. -/
theorem parameter_recognizes (he : e.Sound) (hkind : e.isNodeIn [.parameter] = true)
    (hrest : [.comma, .closeParen].contains (nextKind rest) = true)
    (hs : s.Faces (e.leaves ++ rest)) : Recognizes parameter s [e] rest := by
  obtain ⟨cs, rfl, hfills⟩ := he.exists_children hkind
  have h := Partway.start (hfills.accepts_of_production rfl) hfills.sound hs
  unfold Recognizes parameter
  refine h.expect.bind ?_
  rintro parameterName t ⟨h, _⟩
  refine (optionalType_recognizes h hrest rfl).bind ?_
  rintro type u ⟨h, _⟩
  exact .pure ⟨h.finish.1.node rfl, h.finish.2⟩

/-- The parameters of a function are read. -/
theorem parameterList_recognizes (he : e.Sound) (hkind : e.isNodeIn [.parameterList] = true)
    (hs : s.Faces (e.leaves ++ rest)) (hbudget : s.tokens.length ≤ budget) :
    Recognizes (parameterList budget) s [e] rest := by
  obtain ⟨cs, rfl, hfills⟩ := he.exists_children hkind
  have h := Partway.start (hfills.accepts_of_production rfl) hfills.sound hs
  unfold Recognizes parameterList
  refine h.expect.bind ?_
  rintro opening t ⟨h, hlt⟩
  refine (h.separated (contains_nextKind rest) rfl rfl ?_ (by omega)).bind ?_
  · exact fun e rest' u he hkind hnext hu _ => parameter_recognizes he hkind hnext hu
  · rintro parameters u ⟨h, hle⟩
    have hstop : endsParameters u.peekKind = true := h.starts (contains_nextKind rest) rfl
    refine (skipUntil_stops _ hstop (by omega)).bind ?_
    rintro _ _ rfl
    refine h.expect.bind ?_
    rintro closing v ⟨h, _⟩
    exact .pure ⟨h.finish.1.node rfl, h.finish.2⟩

/-- A function is read. -/
theorem functionDeclaration_recognizes (he : e.Sound)
    (hkind : e.isNodeIn [.functionDeclaration] = true) (hs : s.Faces (e.leaves ++ rest))
    (hinner : ReadsStatements inner s.tokens.length) (hbudget : s.tokens.length ≤ budget) :
    Recognizes (functionDeclaration inner budget) s [e] rest := by
  obtain ⟨cs, rfl, hfills⟩ := he.exists_children hkind
  have h := Partway.start (hfills.accepts_of_production rfl) hfills.sound hs
  unfold Recognizes functionDeclaration
  refine h.advance.bind ?_
  rintro keyword t ⟨h, hlt⟩
  refine h.expect.bind ?_
  rintro functionName u ⟨h, hlt'⟩
  refine (h.node (contains_nextKind rest) fun e rest' he hkind _ hu =>
    parameterList_recognizes he hkind hu (by omega)).bind ?_
  rintro parameters v ⟨h, hle⟩
  refine (optionalType_recognizes h (contains_nextKind rest) rfl).bind ?_
  rintro type w ⟨h, hle'⟩
  refine (h.node (contains_nextKind rest) fun e rest' he hkind _ hw =>
    block_recognizes he hkind hw (hinner.mono (by omega)) (by omega)).bind ?_
  rintro body x ⟨h, _⟩
  exact .pure ⟨h.finish.1.node rfl, h.finish.2⟩

/-! ## Control flow -/

/-- A parenthesized condition is read. -/
theorem condition_recognizes {es : List Element} {parts : List Part} {events : Segment}
    (h : Partway es rest (.token .openParen :: Grammar.expression :: .token .closeParen :: parts)
      events s) (hbudget : s.tokens.length + 2 < budget) :
    Succeeds (condition budget) s fun here t =>
      Partway es rest parts (events ++ here) t ∧ t.tokens.length < s.tokens.length := by
  have hinner : ReadsBack (expression budget) s.tokens.length := expression_readsBack (by omega)
  unfold condition
  refine h.expect.bind ?_
  rintro opening t ⟨h, hlt⟩
  refine (h.expression (contains_nextKind rest) rfl hinner hlt).bind ?_
  rintro test u ⟨h, hle⟩
  refine h.expect.bind ?_
  rintro closing v ⟨h, hlt'⟩
  exact .pure ⟨by simpa only [List.append_assoc] using h, by omega⟩

/-- The body of a complete node is there. -/
theorem any_statement_of_complete {kind : Kind} {cs : List Element}
    (hkind : Grammar.bodied.contains kind = true) (h : (Element.makeNode kind cs).Complete) :
    cs.any (Symbol.admits (.node Grammar.statements)) = true := by
  have hbody := h.body
  have hnode : (Element.makeNode kind cs).isNodeIn Grammar.bodied = true := hkind
  rw [Element.lacksBody, hnode, Bool.true_and, Bool.not_eq_false'] at hbody
  exact hbody

/-- The last part is a statement, and read as the body of the node. -/
theorem body_recognizes {es : List Element} {events : Segment}
    (h : Partway es rest [.one (.node Grammar.statements)] events s)
    (hopen : Element.endsOpenLast es = true → nextKind rest ≠ .elseKw) {limit : Nat}
    (hinner : ReadsStatements inner limit) (hlimit : s.tokens.length < limit) :
    Succeeds inner s fun here t => Segment.Stands (events ++ here) es ∧ t.Faces rest := by
  obtain ⟨body, hlast, hadmits, hbody, hs, hdone⟩ := h.exists_last
  rw [Element.endsOpenLast_of_getLast? hlast] at hopen
  refine (hinner body rest s hbody hadmits hopen hs hlimit).mono ?_
  rintro here t ⟨hhere, ht⟩
  exact hdone here t hhere ht

/-- A loop is read. -/
theorem whileStatement_recognizes (he : e.Sound) (hkind : e.isNodeIn [.whileStatement] = true)
    (hopen : e.endsOpen = true → nextKind rest ≠ .elseKw) (hs : s.Faces (e.leaves ++ rest))
    (hinner : ReadsStatements inner s.tokens.length) (hbudget : s.tokens.length + 2 < budget) :
    Recognizes (whileStatement inner budget) s [e] rest := by
  obtain ⟨cs, rfl, hfills⟩ := he.exists_children hkind
  have haccepts : Part.accepts ([.token .whileKw, .token .openParen, Grammar.expression,
      .token .closeParen] ++ .one (.node Grammar.statements) :: []) cs = true :=
    Part.accepts_required rfl (any_statement_of_complete rfl hfills.complete)
      (hfills.accepts_of_production rfl)
  have h := Partway.start haccepts hfills.sound hs
  unfold Recognizes whileStatement
  refine h.advance.bind ?_
  rintro keyword t ⟨h, hlt⟩
  refine (condition_recognizes h (by omega)).bind ?_
  rintro test u ⟨h, hlt'⟩
  refine (body_recognizes h hopen hinner (by omega)).bind ?_
  rintro body v ⟨hstands, hv⟩
  exact .pure ⟨hstands.node rfl, hv⟩

/-- An `else` and its body are read. -/
theorem elseClause_recognizes (he : e.Sound) (hkind : e.isNodeIn [.elseClause] = true)
    (hopen : e.endsOpen = true → nextKind rest ≠ .elseKw) (hs : s.Faces (e.leaves ++ rest))
    (hinner : ReadsStatements inner s.tokens.length) :
    Recognizes
      (do
        let keyword ← advance
        let body ← inner
        return Segment.node .elseClause (keyword ++ body))
      s [e] rest := by
  obtain ⟨cs, rfl, hfills⟩ := he.exists_children hkind
  have haccepts : Part.accepts ([.token .elseKw] ++ .one (.node Grammar.statements) :: []) cs =
      true :=
    Part.accepts_required rfl (any_statement_of_complete rfl hfills.complete)
      (hfills.accepts_of_production rfl)
  have h := Partway.start haccepts hfills.sound hs
  unfold Recognizes
  refine h.advance.bind ?_
  rintro keyword t ⟨h, hlt⟩
  refine (body_recognizes h hopen hinner hlt).bind ?_
  rintro body u ⟨hstands, hu⟩
  exact .pure ⟨hstands.node rfl, hu⟩

/-- The `else` at the end of a branch is read. -/
theorem optionalElse_recognizes {es : List Element} {events : Segment}
    (h : Partway es rest [.node .elseClause] events s)
    (hopen : Element.endsOpenLast es = true → nextKind rest ≠ .elseKw)
    (hinner : ReadsStatements inner s.tokens.length) :
    Succeeds (optionalElse inner) s fun here t =>
      Segment.Stands (events ++ here) es ∧ t.Faces rest := by
  have hat : s.isAt .elseKw = true :=
    beq_iff_eq.mpr (h.peekKind_eq (contains_nextKind rest) rfl)
  obtain ⟨otherwise, hlast, hadmits, hotherwise, hs, hdone⟩ := h.exists_last
  rw [Element.endsOpenLast_of_getLast? hlast] at hopen
  unfold optionalElse
  apply Succeeds.get
  rw [if_pos hat]
  refine (elseClause_recognizes hotherwise hadmits hopen hs hinner).mono ?_
  rintro here t ⟨hhere, ht⟩
  exact hdone here t hhere ht

/-- No `else` is read where none comes next. -/
theorem optionalElse_left_out (hs : s.Faces rest) (hnext : nextKind rest ≠ .elseKw) :
    Succeeds (optionalElse inner) s fun here t => here = [] ∧ t = s := by
  unfold optionalElse
  apply Succeeds.get
  rw [hs.isAt, beq_eq_false_iff_ne.mpr hnext, if_neg Bool.false_ne_true]
  exact .pure ⟨rfl, rfl⟩

/-- A branch has an `else` and its body does not end in an open branch, or it has none and
no `else` comes behind it. -/
theorem exists_else {cs : List Element} (hfills : Element.Fills .ifStatement cs)
    (hopen : (Element.makeNode .ifStatement cs).endsOpen = true → nextKind rest ≠ .elseKw) :
    ∃ last, Part.accepts ([.token .ifKw, .token .openParen, Grammar.expression, .token .closeParen,
        .one (.node Grammar.statements)] ++ last) cs = true ∧
      (last = [.node .elseClause] ∧
          (∀ c ∈ cs, c.isNodeIn Grammar.statements = true → c.endsOpen = false) ∨
        last = [] ∧ nextKind rest ≠ .elseKw) := by
  have haccepts : Part.accepts ([.token .ifKw, .token .openParen, Grammar.expression,
      .token .closeParen] ++ .one (.node Grammar.statements) :: [.maybe (.node [.elseClause])])
      cs = true :=
    Part.accepts_required rfl (any_statement_of_complete rfl hfills.complete)
      (hfills.accepts_of_production rfl)
  cases hany : cs.any (Symbol.admits (.node [.elseClause])) with
  | true =>
      refine ⟨_, Part.accepts_required rfl hany haccepts, .inl ⟨rfl, fun c hc hstatement => ?_⟩⟩
      have hloses := hfills.complete.otherwise
      have hnode : (Element.makeNode .ifStatement cs).isNodeIn [.ifStatement] = true := rfl
      have helse : (Element.makeNode .ifStatement cs).children.any
          (Element.isNodeIn [.elseClause]) = true := hany
      rw [Element.losesElse, hnode, helse, Bool.true_and, Bool.true_and] at hloses
      simpa [hstatement] using List.any_eq_false.mp hloses c hc
  | false =>
      refine ⟨_, Part.accepts_left_out hany haccepts, .inr ⟨rfl, hopen ?_⟩⟩
      have hnone : cs.any (Element.isNodeIn [.elseClause]) = false := hany
      rw [Element.makeNode, Element.endsOpen, hnone]
      rfl

/-- A branch is read. -/
theorem ifStatement_recognizes (he : e.Sound) (hkind : e.isNodeIn [.ifStatement] = true)
    (hopen : e.endsOpen = true → nextKind rest ≠ .elseKw) (hs : s.Faces (e.leaves ++ rest))
    (hinner : ReadsStatements inner s.tokens.length) (hbudget : s.tokens.length + 2 < budget) :
    Recognizes (ifStatement inner budget) s [e] rest := by
  obtain ⟨cs, rfl, hfills⟩ := he.exists_children hkind
  obtain ⟨last, haccepts, hlast⟩ := exists_else hfills hopen
  have h := Partway.start haccepts hfills.sound hs
  unfold Recognizes ifStatement
  refine h.advance.bind ?_
  rintro keyword t ⟨h, hlt⟩
  refine (condition_recognizes h (by omega)).bind ?_
  rintro test u ⟨h, hlt'⟩
  rcases hlast with ⟨rfl, hclosed⟩ | ⟨rfl, hnext⟩
  · obtain ⟨body, hmem, rest', hadmits, hbody, _, hu, hdone⟩ :=
      h.exists_next (contains_nextKind rest)
    have hbodyClosed : body.endsOpen = true → nextKind rest' ≠ .elseKw := by
      rw [hclosed body hmem hadmits]
      nofun
    refine (hinner body rest' u hbody hadmits hbodyClosed hu (by omega)).bind ?_
    rintro body v ⟨hbody, hv⟩
    have hle := hu.length_le hv
    have hlastOpen (hends : Element.endsOpenLast cs = true) : nextKind rest ≠ .elseKw :=
      hopen (by rw [Element.makeNode, Element.endsOpen, hends, Bool.or_true])
    refine (optionalElse_recognizes (hdone _ v hbody hv) hlastOpen (hinner.mono (by omega))).bind ?_
    rintro otherwise w ⟨hstands, hw⟩
    exact .pure ⟨hstands.node rfl, hw⟩
  · refine (body_recognizes h (fun _ => hnext) hinner (by omega)).bind ?_
    rintro body v ⟨hstands, hv⟩
    refine (optionalElse_left_out hv hnext).bind ?_
    rintro _ _ ⟨rfl, rfl⟩
    exact .pure ⟨by simpa using hstands.node rfl, hv⟩

/-! ## Statements that a semicolon ends -/

/-- The semicolon at the end of a statement is read. -/
theorem semicolon_recognizes {es : List Element} {events : Segment} (options : ParseOptions)
    (h : Partway es rest [.token .semicolon] events s) :
    Succeeds (semicolon options) s fun here t =>
      Segment.Stands (events ++ here) es ∧ t.Faces rest := by
  have hat : s.isAt .semicolon = true :=
    beq_iff_eq.mpr (h.peekKind_eq (contains_nextKind rest) rfl)
  unfold semicolon
  apply Succeeds.get
  rw [if_pos hat]
  refine h.advance.mono ?_
  rintro here t ⟨h, _⟩
  exact h.finish

/-- The value of a return is read if it is there. -/
theorem returnValue_recognizes {es : List Element} {events : Segment}
    (h : Partway es rest [.maybe (.node Grammar.expressions), .token .semicolon] events s)
    (hbudget : s.tokens.length + 2 < budget) :
    Succeeds
      (do
        if startsExpression s.peekKind && !s.atLineBreak then
          return events ++ (← expression budget).events
        else return events)
      s fun front t => Partway es rest [.token .semicolon] front t := by
  have hinner : ReadsBack (expression budget) (s.tokens.length + 1) :=
    expression_readsBack (by omega)
  rw [h.atLineBreak, Bool.not_false, Bool.and_true]
  rcases h.maybe with h | h
  · have hstarts : startsExpression s.peekKind = true := h.starts (contains_nextKind rest) rfl
    rw [if_pos hstarts]
    refine (h.expression (contains_nextKind rest) rfl hinner (Nat.lt_succ_self _)).bind ?_
    rintro value t ⟨h, _⟩
    exact .pure h
  · have hpeek : s.peekKind = .semicolon := h.peekKind_eq (contains_nextKind rest) rfl
    rw [hpeek, if_neg nofun]
    exact .pure h

/-- Up to its semicolon, a statement is read. -/
theorem unterminated_recognizes {kind : Kind} {es : List Element}
    (hkind : Grammar.terminated.contains kind = true)
    (h : Partway es rest (Grammar.unterminated kind ++ [.token .semicolon]) [] s)
    (hbudget : s.tokens.length + 2 < budget) :
    Succeeds (unterminated kind budget) s fun front t =>
      Partway es rest [.token .semicolon] front t := by
  simp only [Grammar.terminated, List.contains_iff_mem, List.mem_cons, List.not_mem_nil,
    or_false] at hkind
  rcases hkind with rfl | rfl | rfl
  · refine (h.node (contains_nextKind rest) fun e rest' he hkind hnext hs =>
      variableDeclaration_recognizes he hkind hnext hs hbudget).mono ?_
    rintro front t ⟨h, _⟩
    exact h
  · have hinner : ReadsBack (expression budget) (s.tokens.length + 1) :=
      expression_readsBack (by omega)
    refine (h.expression (contains_nextKind rest) rfl hinner (Nat.lt_succ_self _)).bind ?_
    rintro value t ⟨h, _⟩
    exact .pure h
  · refine h.advance.bind ?_
    rintro keyword t ⟨h, hlt⟩
    apply Succeeds.get
    exact returnValue_recognizes h (by omega)

/-- The semicolon of a complete statement is there. -/
theorem accepts_terminated {kind : Kind} {cs : List Element} (hfills : Element.Fills kind cs)
    (hkind : Grammar.terminated.contains kind = true) :
    Part.accepts (Grammar.unterminated kind ++ [.token .semicolon]) cs = true := by
  have hothers : (Grammar.unterminated kind ++ []).all
      (fun part => part.symbol.excludes (.token [.semicolon])) = true := by
    cases kind <;> rfl
  have hany : cs.any (Symbol.admits (.token [.semicolon])) = true := by
    have hsemicolon := hfills.complete.semicolon
    have hterminated : (Element.makeNode kind cs).isTerminated = true := hkind
    rw [Element.lacksSemicolon, hterminated, Bool.true_and, beq_eq_false_iff_ne] at hsemicolon
    obtain ⟨e, he, htoken⟩ := List.countP_pos_iff.mp (Nat.pos_of_ne_zero hsemicolon)
    exact List.any_eq_true.mpr ⟨e, he, htoken⟩
  exact Part.accepts_required hothers hany
    (hfills.accepts_of_production (Grammar.production_of_terminated hkind))

/-- A statement that a semicolon ends is read, whatever the options say about semicolons. -/
theorem terminated_recognizes {kind : Kind} {cs : List Element} (options : ParseOptions)
    (hkind : Grammar.terminated.contains kind = true) (hfills : Element.Fills kind cs)
    (hs : s.Faces ((Element.makeNode kind cs).leaves ++ rest))
    (hbudget : s.tokens.length + 2 < budget) :
    Recognizes (terminated kind options budget) s [.makeNode kind cs] rest := by
  have h := Partway.start (accepts_terminated hfills hkind) hfills.sound hs
  have hnode := Reading.isNode_of_production (Grammar.production_of_terminated hkind)
  unfold Recognizes terminated
  refine (unterminated_recognizes hkind h hbudget).bind ?_
  rintro front t h
  refine (semicolon_recognizes options h).bind ?_
  rintro terminator u ⟨hstands, hu⟩
  exact .pure ⟨hstands.node hnode, hu⟩

/-! ## Statements -/

/-- Every statement is read back, unless an `else` comes next that it would take. -/
theorem statement_recognizes (options : ParseOptions) (he : e.Sound)
    (hkind : e.isNodeIn Grammar.statements = true)
    (hopen : e.endsOpen = true → nextKind rest ≠ .elseKw) (hs : s.Faces (e.leaves ++ rest))
    (hbudget : s.tokens.length + 3 < budget) :
    Recognizes (statement options budget) s [e] rest := by
  induction budget generalizing s e rest with
  | zero => cases hbudget
  | succ budget ih =>
      have hinner : ReadsStatements (statement options budget) s.tokens.length :=
        fun e rest t he hkind hopen ht hlt => ih he hkind hopen ht (by omega)
      have hsmaller : s.tokens.length + 2 < budget := by omega
      obtain ⟨kind, cs, rfl, hk, hfills⟩ := he.exists_fills hkind
      have hfirst := he.contains_first rest
      rw [← hs.peekKind] at hfirst
      simp only [Grammar.statements, List.contains_iff_mem, List.mem_cons, List.not_mem_nil,
        or_false] at hk
      unfold Recognizes statement
      apply Succeeds.get
      -- The token that the kind starts with chooses the production that reads it.
      rcases hk with rfl | rfl | rfl | rfl | rfl | rfl | rfl | rfl | rfl
      · have hread := terminated_recognizes options rfl hfills hs hsmaller
        rw [← variableStatement_eq] at hread
        simp only [Grammar.first, List.contains_iff_mem, List.mem_cons, List.not_mem_nil,
          or_false] at hfirst
        rcases hfirst with hpeek | hpeek | hpeek <;> rw [hpeek] <;> exact hread
      · have hpeek : s.peekKind = .functionKw := eq_of_contains hfirst
        rw [hpeek]
        exact functionDeclaration_recognizes he rfl hs hinner (by omega)
      · have hpeek : s.peekKind = .interfaceKw := eq_of_contains hfirst
        rw [hpeek]
        exact interfaceDeclaration_recognizes he rfl hs (by omega)
      · have hpeek : s.peekKind = .openBrace := eq_of_contains hfirst
        rw [hpeek]
        exact block_recognizes he rfl hs hinner (by omega)
      · have hpeek : s.peekKind = .semicolon := eq_of_contains hfirst
        rw [hpeek]
        have h := Partway.start (hfills.accepts_of_production rfl) hfills.sound hs
        refine h.advance.bind ?_
        rintro semicolon t ⟨h, _⟩
        exact .pure ⟨h.finish.1.node rfl, h.finish.2⟩
      · have hpeek : s.peekKind = .ifKw := eq_of_contains hfirst
        rw [hpeek]
        exact ifStatement_recognizes he rfl hopen hs hinner hsmaller
      · have hpeek : s.peekKind = .whileKw := eq_of_contains hfirst
        rw [hpeek]
        exact whileStatement_recognizes he rfl hopen hs hinner hsmaller
      · have hpeek : s.peekKind = .returnKw := eq_of_contains hfirst
        have hread := terminated_recognizes options rfl hfills hs hsmaller
        rw [← returnStatement_eq] at hread
        rw [hpeek]
        exact hread
      · have hstarts : startsExpression s.peekKind = true := holds_of_contains hfirst rfl
        have hread := terminated_recognizes options rfl hfills hs hsmaller
        rw [← expressionStatement_eq] at hread
        split
        case h_11 =>
          rw [if_pos hstarts]
          exact hread
        all_goals
          rename_i hpeek
          rw [hpeek] at hstarts
          cases hstarts

/-- A whole text is read back. -/
theorem sourceUnit_recognizes (options : ParseOptions) (he : e.Sound)
    (hkind : e.isNodeIn [.sourceUnit] = true) (hs : s.Faces (e.leaves ++ rest))
    (hbudget : s.tokens.length + 3 < budget) :
    Recognizes (sourceUnit options budget) s [e] rest := by
  obtain ⟨cs, rfl, hfills⟩ := he.exists_children hkind
  have h := Partway.start (hfills.accepts_of_production rfl) hfills.sound hs
  have hinner : ReadsStatements (statement options budget) (s.tokens.length + 1) :=
    fun e rest t he hkind hopen ht hlt => statement_recognizes options he hkind hopen ht (by omega)
  unfold Recognizes sourceUnit
  refine (h.list (contains_nextKind rest) ?_).bind ?_
  · intro nodes rest' _ hsound hkinds hnext hs
    exact statements_recognizes hsound hkinds (holds_of_contains hnext rfl) hs hinner (by omega)
  · rintro body t ⟨h, _⟩
    refine h.expect.bind ?_
    rintro last u ⟨h, _⟩
    exact .pure ⟨h.finish.1.node rfl, h.finish.2⟩

end Verbatim.Parser
