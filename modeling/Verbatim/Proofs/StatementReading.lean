/-
  Statements and declarations, as readings.

  A statement is one node, or nothing where no statement starts.  In front of the
  end of the file it takes a token off the sequence in either case.  Only a
  statement can complain about the end of the file, and it can do so once, because
  the loops around it stop there and everything that follows is read quietly.
-/
import Verbatim.Parse.Statement
import Verbatim.Proofs.ExpressionReading

set_option autoImplicit false

namespace Verbatim

/-- The output of a whole text: that of its statements, and the token that comes next. -/
def ParseState.unitEvents (s : ParseState) (body : Segment) : Segment :=
  Segment.node .sourceUnit
    (Segment.list body ++ [.token s.nextToken])

/-- The tree of a whole text. -/
def ParseState.unitRoot (s : ParseState) (statements : List Element) : Element :=
  .makeNode .sourceUnit [.makeList statements, .token s.nextLeaf]

namespace Parser

variable {inner : Parser Segment} {s : ParseState} {budget : Nat}

/-! ## Types -/

theorem typeAscription_succeeds (s : ParseState) :
    Succeeds typeAscription s fun events t => Reads s [.node .typeAscription] events t := by
  unfold typeAscription
  refine (expect_succeeds s rfl).bind ?_
  intro colon t hresult
  obtain ⟨hcolon, _⟩ := hresult
  refine (name_succeeds t).bind ?_
  intro type u hresult
  obtain ⟨htype, _⟩ := hresult
  have hreference : Reads t [.node .typeReference] (Segment.node .typeReference type) u :=
    .node htype rfl rfl
  exact .pure (.node (hcolon.append hreference) rfl rfl)

theorem optionalType_succeeds (s : ParseState) :
    Succeeds optionalType s fun events t =>
      Reads s [.maybe (.node [.typeAscription])] events t := by
  unfold optionalType
  apply Succeeds.get
  split
  · exact (typeAscription_succeeds s).mono fun _ _ htype => htype.maybe
  · exact .pure (.left_out s _)

/-! ## Statements up to the end -/

/-- One statement, or a token that starts none, can be read from the state. -/
def ReadsStatement (p : Parser Segment) (s : ParseState) : Prop :=
  Succeeds p s fun events t =>
    ReadsOrEnds s [.maybe (.node Grammar.statements)] events t ∧
      (s.isAt .eof = false → t.tokens.length < s.tokens.length)

/-- One pass over statements. -/
def statementsPass (inner : Parser Segment) (toBrace : Bool) (acc : Segment) :
    Parser (Segment × Bool) := do
  let s ← get
  if s.isAt .eof || (toBrace && s.isAt .closeBrace) then return (acc, false)
  let here ← inner
  return (acc ++ here, true)

theorem iterate_statementsPass (inner : Parser Segment) (toBrace : Bool) (budget : Nat)
    (acc : Segment) :
    iterate (fun _ => statementsPass inner toBrace) budget acc =
      (acc ++ ·) <$> statements inner toBrace budget := by
  induction budget generalizing acc with
  | zero => rfl
  | succ budget ih =>
      simp only [statements, iterate, statementsPass, bind_assoc, map_bind]
      congr 1
      funext s
      split
      · simp
      · simp [ih, List.append_assoc]

theorem statements_eq_iterate (inner : Parser Segment) (toBrace : Bool) (budget : Nat) :
    statements inner toBrace budget =
      iterate (fun _ => statementsPass inner toBrace) budget [] := by
  rw [iterate_statementsPass]
  simp

/-- A pass over statements reads one in front of the end of the file, or is the last. -/
theorem statementsPass_succeeds {toBrace : Bool} (acc : Segment)
    (hinner : ReadsStatement inner s) :
    Succeeds (statementsPass inner toBrace acc) s fun out t =>
      (out.2 = true → t.tokens.length < s.tokens.length) ∧
        (out.2 = false → t.isAt .eof = true ∨ toBrace = true) ∧
        ∀ start, ReadsMany Grammar.statements start acc s →
          ReadsMany Grammar.statements start out.1 t := by
  unfold statementsPass
  apply Succeeds.get
  split
  · rename_i hstop
    simp only [Bool.or_eq_true, Bool.and_eq_true] at hstop
    exact .pure ⟨nofun, fun _ => hstop.imp_right And.left, fun start hacc => hacc⟩
  · rename_i hstop
    simp only [Bool.or_eq_true, not_or, Bool.not_eq_true] at hstop
    have hpeek : s.peekKind ≠ .eof := beq_eq_false_iff_ne.mp hstop.1
    refine hinner.bind ?_
    intro here t hresult
    obtain ⟨hhere, hprogress⟩ := hresult
    exact .pure ⟨fun _ => hprogress hstop.1, nofun,
      fun start hacc => hacc.append hpeek hhere⟩

/-- Statements are read up to where the loop stops; without braces that is the end
of the file. -/
theorem statements_succeeds {toBrace : Bool} (hbudget : s.tokens.length < budget)
    (hinner : ∀ t : ParseState, t.tokens.length ≤ s.tokens.length → ReadsStatement inner t) :
    Succeeds (statements inner toBrace budget) s fun events t =>
      ReadsMany Grammar.statements s events t ∧ (t.isAt .eof = true ∨ toBrace = true) := by
  rw [statements_eq_iterate]
  refine iterate_succeeds (ReadsMany Grammar.statements s) ?_ budget [] s (.nil s) hbudget
  intro _ acc t hacc _
  refine (statementsPass_succeeds acc (hinner t hacc.length_le)).mono ?_
  rintro ⟨out, more⟩ u ⟨hprogress, hstop, hout⟩
  exact ⟨fun hmore => ⟨hout s hacc, hprogress hmore⟩, fun hdone => ⟨hout s hacc, hstop hdone⟩⟩

/-- A block is one node, also where it does not start. -/
theorem block_succeeds (hbudget : s.tokens.length ≤ budget)
    (hinner : ∀ t : ParseState, t.tokens.length < s.tokens.length → ReadsStatement inner t) :
    Succeeds (block inner budget) s fun events t =>
      ReadsOrEnds s [.node .block] events t ∧
        (s.isAt .openBrace = true → t.tokens.length < s.tokens.length) := by
  unfold block
  apply Succeeds.get
  by_cases hat : s.isAt .openBrace = true
  · rw [if_pos hat]
    have hpeek : s.peekKind = .openBrace := by rwa [ParseState.isAt, beq_iff_eq] at hat
    have hlength : (s.act .read).tokens.length + 1 = s.tokens.length :=
      ParseState.length_tail (by rw [hpeek]; decide)
    refine (advance_reads_next s).bind ?_
    rintro _ _ ⟨rfl, rfl⟩
    refine (statements_succeeds (by omega) fun u hu => hinner u (by omega)).bind ?_
    intro body u hresult
    obtain ⟨hbody, _⟩ := hresult
    have hbodyLength := hbody.length_le
    refine (expect_succeeds u rfl).bind ?_
    intro closing v hresult
    obtain ⟨hclosing, _⟩ := hresult
    have hclosingLength := hclosing.length_le
    rw [List.append_assoc]
    exact .pure ⟨.block hat (hbody.list.append_right hclosing), fun _ => by omega⟩
  · rw [if_neg hat]
    refine (expect_supplies (Bool.not_eq_true _ ▸ hat)).bind ?_
    rintro _ _ ⟨rfl, rfl⟩
    have hallowed : s.Allows
        (.supply .openBrace ⟨s.lastEnd, s.lastEnd, expectation .openBrace⟩) :=
      ⟨by decide, expectation_ne .openBrace, .inl ⟨rfl, rfl⟩⟩
    exact .pure ⟨.of_reads ⟨_, _, .emptyBlock hallowed, rfl, Part.accepts_node _ _⟩,
      fun h => absurd h hat⟩

/-! ## Interfaces -/

/-- A property starts with the name that comes next. -/
theorem propertySignature_succeeds (hat : s.isAt .identifier = true) :
    Succeeds propertySignature s fun events t =>
      Reads s [.node .propertySignature] events t ∧ t.tokens.length < s.tokens.length := by
  unfold propertySignature
  refine (advance_token_succeeds rfl hat).bind ?_
  intro key t hresult
  obtain ⟨hkey, hlength⟩ := hresult
  refine (eat_succeeds t rfl).bind ?_
  intro question u hquestion
  refine (typeAscription_succeeds u).bind ?_
  intro type v htype
  have hquestionLength := hquestion.length_le
  have htypeLength := htype.length_le
  have hend (terminator : Segment) (w : ParseState)
      (h : Reads v [.maybe (.token [.semicolon, .comma])] terminator w) :
      Succeeds (pure (Segment.node .propertySignature (key ++ question ++ type ++ terminator))) w
        fun events x =>
          Reads s [.node .propertySignature] events x ∧ x.tokens.length < s.tokens.length := by
    have hterminatorLength := h.length_le
    exact .pure ⟨.node (((hkey.append hquestion).append htype).append h) rfl rfl, by omega⟩
  apply Succeeds.get
  dsimp only
  split
  · rename_i hsemicolon
    refine (advance_token_succeeds rfl hsemicolon).bind ?_
    intro terminator w hresult
    obtain ⟨hterminator, _⟩ := hresult
    exact hend terminator w (hterminator.token_of_mem rfl).maybe
  · split
    · rename_i hcomma
      refine (advance_token_succeeds rfl hcomma).bind ?_
      intro terminator w hresult
      obtain ⟨hterminator, _⟩ := hresult
      exact hend terminator w (hterminator.token_of_mem rfl).maybe
    · split
      · exact hend [] v (.left_out v _)
      · refine (expect_succeeds v rfl).bind ?_
        intro terminator w hresult
        obtain ⟨hterminator, _⟩ := hresult
        exact hend terminator w (hterminator.token_of_mem rfl).maybe

/-- One pass over the properties of an interface. -/
def membersPass (acc : Segment) : Parser (Segment × Bool) := do
  let s ← get
  if s.isAt .closeBrace || s.isAt .eof then return (acc, false)
  if s.isAt .identifier then
    let here ← propertySignature
    return (acc ++ here, true)
  else
    reportAndSkip "expected a property signature"
    return (acc, true)

theorem iterate_membersPass (budget : Nat) (acc : Segment) :
    iterate (fun _ => membersPass) budget acc = (acc ++ ·) <$> members budget := by
  induction budget generalizing acc with
  | zero => rfl
  | succ budget ih =>
      simp only [members, iterate, membersPass, bind_assoc, map_bind]
      congr 1
      funext s
      split
      · simp
      · split
        · simp [ih, List.append_assoc]
        · simp [ih]

theorem members_eq_iterate (budget : Nat) :
    members budget = iterate (fun _ => membersPass) budget [] := by
  rw [iterate_membersPass]
  simp

theorem membersPass_succeeds (s : ParseState) (acc : Segment) :
    Succeeds (membersPass acc) s fun out t =>
      (out.2 = true → t.tokens.length < s.tokens.length) ∧
        ∀ start, ReadsMany [.propertySignature] start acc s →
          ReadsMany [.propertySignature] start out.1 t := by
  unfold membersPass
  apply Succeeds.get
  split
  · exact .pure ⟨nofun, fun start hacc => hacc⟩
  · rename_i hstop
    simp only [Bool.or_eq_true, not_or, Bool.not_eq_true] at hstop
    have hpeek : s.peekKind ≠ .eof := beq_eq_false_iff_ne.mp hstop.2
    split
    · rename_i hat
      refine (propertySignature_succeeds hat).bind ?_
      intro here t hresult
      obtain ⟨hhere, hlength⟩ := hresult
      exact .pure ⟨fun _ => hlength,
        fun start hacc => hacc.append hpeek (.of_reads hhere.maybe)⟩
    · refine (reportAndSkip_succeeds _ hstop.2).bind ?_
      intro _ t hresult
      obtain ⟨hskipped, hlength⟩ := hresult
      refine .pure ⟨fun _ => hlength, fun start hacc => ?_⟩
      have hnothing := hskipped.append (.left_out t (.node [.propertySignature]))
      have hmany := hacc.append hpeek (.of_reads hnothing)
      rwa [List.append_nil, List.append_nil] at hmany

theorem members_succeeds (hbudget : s.tokens.length < budget) :
    Succeeds (members budget) s fun events t => ReadsMany [.propertySignature] s events t := by
  rw [members_eq_iterate]
  refine iterate_succeeds (ReadsMany [.propertySignature] s) ?_ budget [] s (.nil s) hbudget
  intro _ acc t hacc _
  refine (membersPass_succeeds t acc).mono ?_
  rintro ⟨out, more⟩ u ⟨hprogress, hout⟩
  exact ⟨fun hmore => ⟨hout s hacc, hprogress hmore⟩, fun _ => hout s hacc⟩

/-! ## Declarations -/

theorem optionalValue_succeeds (hbudget : s.tokens.length + 2 < budget) :
    Succeeds (optionalValue budget) s fun events t =>
      Reads s [.maybe (.node [.equalsValueClause])] events t := by
  unfold optionalValue
  apply Succeeds.get
  split
  · rename_i hequals
    refine (advance_token_succeeds rfl hequals).bind ?_
    intro sign t hresult
    obtain ⟨hsign, hlength⟩ := hresult
    refine (expression_succeeds (by omega)).bind ?_
    intro value u hresult
    obtain ⟨hvalue, _⟩ := hresult
    have hclause : Reads s [.node .equalsValueClause] _ u :=
      .node (hsign.append hvalue.reads) rfl rfl
    exact .pure hclause.maybe
  · exact .pure (.left_out s _)

theorem variableDeclarator_readsItem (hbudget : s.tokens.length + 2 < budget) :
    ReadsItem [.variableDeclarator] startsName (variableDeclarator budget) s := by
  unfold ReadsItem variableDeclarator
  refine (name_succeeds s).bind ?_
  intro variableName t hresult
  obtain ⟨hname, hprogress⟩ := hresult
  have hnameLength := hname.length_le
  refine (optionalType_succeeds t).bind ?_
  intro type u htype
  have htypeLength := htype.length_le
  refine (optionalValue_succeeds (by omega)).bind ?_
  intro value v hvalue
  have hvalueLength := hvalue.length_le
  refine .pure ⟨.node ((hname.append htype).append hvalue) rfl rfl, fun hfirst => ?_⟩
  have hlength := hprogress hfirst
  omega

theorem parameter_readsItem (s : ParseState) :
    ReadsItem [.parameter] startsName parameter s := by
  unfold ReadsItem parameter
  refine (name_succeeds s).bind ?_
  intro parameterName t hresult
  obtain ⟨hname, hprogress⟩ := hresult
  refine (optionalType_succeeds t).bind ?_
  intro type u htype
  have htypeLength := htype.length_le
  refine .pure ⟨.node (hname.append htype) rfl rfl, fun hfirst => ?_⟩
  have hlength := hprogress hfirst
  omega

theorem parameterList_succeeds (hbudget : s.tokens.length < budget) :
    Succeeds (parameterList budget) s fun events t => Reads s [.node .parameterList] events t := by
  unfold parameterList
  refine (expect_succeeds s rfl).bind ?_
  intro opening t hresult
  obtain ⟨hopening, _⟩ := hresult
  have hopeningLength := hopening.length_le
  refine (separated_succeeds false (by omega) fun u _ => parameter_readsItem u).bind ?_
  intro parameters u hparameters
  have hparametersLength := hparameters.length_le
  refine (skipUntil_succeeds _ _ (by omega)).bind ?_
  intro _ v hskipped
  refine (expect_succeeds v rfl).bind ?_
  intro closing w hresult
  obtain ⟨hclosing, _⟩ := hresult
  have hbehind := hskipped.append hclosing
  exact .pure (.node ((hopening.append hparameters).append hbehind) rfl rfl)

theorem functionDeclaration_succeeds (hat : s.isAt .functionKw = true)
    (hbudget : s.tokens.length ≤ budget)
    (hinner : ∀ t : ParseState, t.tokens.length < s.tokens.length → ReadsStatement inner t) :
    Succeeds (functionDeclaration inner budget) s fun events t =>
      ReadsOrEnds s [.node .functionDeclaration] events t ∧
        t.tokens.length < s.tokens.length := by
  unfold functionDeclaration
  refine (advance_token_succeeds rfl hat).bind ?_
  intro keyword t hresult
  obtain ⟨hkeyword, hlength⟩ := hresult
  refine (name_succeeds t).bind ?_
  intro functionName u hresult
  obtain ⟨hname, _⟩ := hresult
  have hnameLength := hname.length_le
  refine (parameterList_succeeds (by omega)).bind ?_
  intro parameters v hparameters
  have hparametersLength := hparameters.length_le
  refine (optionalType_succeeds v).bind ?_
  intro type w htype
  have htypeLength := htype.length_le
  refine (block_succeeds (by omega) fun x hx => hinner x (by omega)).bind ?_
  intro body x hresult
  obtain ⟨hbody, _⟩ := hresult
  have hbodyLength := hbody.length_le
  have hhead := ((hkeyword.append hname).append hparameters).append htype
  exact .pure ⟨.node (.append_left hhead hbody) rfl rfl, by omega⟩

theorem interfaceDeclaration_succeeds (hat : s.isAt .interfaceKw = true)
    (hbudget : s.tokens.length ≤ budget) :
    Succeeds (interfaceDeclaration budget) s fun events t =>
      ReadsOrEnds s [.node .interfaceDeclaration] events t ∧
        t.tokens.length < s.tokens.length := by
  unfold interfaceDeclaration
  refine (advance_token_succeeds rfl hat).bind ?_
  intro keyword t hresult
  obtain ⟨hkeyword, hlength⟩ := hresult
  refine (name_succeeds t).bind ?_
  intro interfaceName u hresult
  obtain ⟨hname, _⟩ := hresult
  have hnameLength := hname.length_le
  refine (expect_succeeds u rfl).bind ?_
  intro opening v hresult
  obtain ⟨hopening, _⟩ := hresult
  have hopeningLength := hopening.length_le
  refine (members_succeeds (by omega)).bind ?_
  intro properties w hproperties
  have hpropertiesLength := hproperties.length_le
  refine (expect_succeeds w rfl).bind ?_
  intro closing x hresult
  obtain ⟨hclosing, _⟩ := hresult
  have hclosingLength := hclosing.length_le
  have hhead := (hkeyword.append hname).append hopening
  exact .pure ⟨.node ((ReadsOrEnds.append_left hhead hproperties.list).append_right hclosing) rfl
    rfl, by omega⟩

/-! ## Control flow -/

theorem condition_succeeds (hbudget : s.tokens.length + 2 < budget) :
    Succeeds (condition budget) s fun events t =>
      Reads s [.token .openParen, Grammar.expression, .token .closeParen] events t := by
  unfold condition
  refine (expect_succeeds s rfl).bind ?_
  intro opening t hresult
  obtain ⟨hopening, _⟩ := hresult
  have hopeningLength := hopening.length_le
  refine (expression_succeeds (by omega)).bind ?_
  intro test u hresult
  obtain ⟨htest, _⟩ := hresult
  refine (expect_succeeds u rfl).bind ?_
  intro closing v hresult
  obtain ⟨hclosing, _⟩ := hresult
  exact .pure ((hopening.append htest.reads).append hclosing)

/-- Without the keyword nothing is read, so at the end of the file nothing is said. -/
theorem optionalElse_succeeds
    (hinner : ∀ t : ParseState, t.tokens.length < s.tokens.length → ReadsStatement inner t) :
    Succeeds (optionalElse inner) s fun events t =>
      ReadsOrEnds s [.maybe (.node [.elseClause])] events t ∧
        (s.peekKind = .eof → Reads s [.maybe (.node [.elseClause])] events t) := by
  unfold optionalElse
  apply Succeeds.get
  split
  · rename_i helse
    refine (advance_token_succeeds rfl helse).bind ?_
    intro keyword t hresult
    obtain ⟨hkeyword, hlength⟩ := hresult
    refine (hinner t hlength).bind ?_
    intro body u hresult
    obtain ⟨hbody, _⟩ := hresult
    have hclause : ReadsOrEnds s [.node .elseClause] _ u :=
      .node (.append_left hkeyword hbody) rfl rfl
    refine .pure ⟨hclause.maybe, fun heof => ?_⟩
    rw [ParseState.isAt, heof] at helse
    cases helse
  · exact .pure ⟨.of_reads (.left_out s _), fun _ => .left_out s _⟩

theorem ifStatement_succeeds (hat : s.isAt .ifKw = true) (hbudget : s.tokens.length + 2 < budget)
    (hinner : ∀ t : ParseState, t.tokens.length < s.tokens.length → ReadsStatement inner t) :
    Succeeds (ifStatement inner budget) s fun events t =>
      ReadsOrEnds s [.node .ifStatement] events t ∧ t.tokens.length < s.tokens.length := by
  unfold ifStatement
  refine (advance_token_succeeds rfl hat).bind ?_
  intro keyword t hresult
  obtain ⟨hkeyword, hlength⟩ := hresult
  refine (condition_succeeds (by omega)).bind ?_
  intro test u htest
  have htestLength := htest.length_le
  refine (hinner u (by omega)).bind ?_
  intro body v hresult
  obtain ⟨hbody, _⟩ := hresult
  have hbodyLength := hbody.length_le
  refine (optionalElse_succeeds fun w hw => hinner w (by omega)).bind ?_
  intro otherwise w hresult
  obtain ⟨hotherwise, hquiet⟩ := hresult
  have hotherwiseLength := hotherwise.length_le
  have hhead := ReadsOrEnds.append_left (hkeyword.append htest) hbody
  exact .pure ⟨.node (hhead.append hotherwise hquiet) rfl rfl, by omega⟩

theorem whileStatement_succeeds (hat : s.isAt .whileKw = true)
    (hbudget : s.tokens.length + 2 < budget)
    (hinner : ∀ t : ParseState, t.tokens.length < s.tokens.length → ReadsStatement inner t) :
    Succeeds (whileStatement inner budget) s fun events t =>
      ReadsOrEnds s [.node .whileStatement] events t ∧ t.tokens.length < s.tokens.length := by
  unfold whileStatement
  refine (advance_token_succeeds rfl hat).bind ?_
  intro keyword t hresult
  obtain ⟨hkeyword, hlength⟩ := hresult
  refine (condition_succeeds (by omega)).bind ?_
  intro test u htest
  have htestLength := htest.length_le
  refine (hinner u (by omega)).bind ?_
  intro body v hresult
  obtain ⟨hbody, _⟩ := hresult
  have hbodyLength := hbody.length_le
  exact .pure ⟨.node (.append_left (hkeyword.append htest) hbody) rfl rfl, by omega⟩

/-! ## Statements that a semicolon ends -/

/-- A statement that a semicolon ends, up to the semicolon. -/
def unterminated : Kind → Nat → Parser Segment
  | .variableStatement, budget => do
      let keyword ← advance
      let declarators ← separated .comma startsName true (variableDeclarator budget) budget
      return Segment.node .variableDeclaration (keyword ++ declarators)
  | .returnStatement, budget => do
      let keyword ← advance
      let s ← get
      if startsExpression s.peekKind && !s.atLineBreak then
        return keyword ++ (← expression budget).events
      else return keyword
  | .expressionStatement, budget => do return (← expression budget).events
  | _, _ => throw .exhausted

/-- A statement of the kind, with its semicolon. -/
def terminated (kind : Kind) (options : ParseOptions) (budget : Nat) : Parser Segment := do
  let front ← unterminated kind budget
  let terminator ← semicolon options
  return Segment.node kind (front ++ terminator)

theorem variableStatement_eq (options : ParseOptions) (budget : Nat) :
    variableStatement options budget = terminated .variableStatement options budget := by
  simp [variableStatement, terminated, unterminated]

theorem returnStatement_eq (options : ParseOptions) (budget : Nat) :
    returnStatement options budget = terminated .returnStatement options budget := by
  simp only [returnStatement, terminated, unterminated, bind_assoc]
  congr 1
  funext keyword
  congr 1
  funext s
  split <;> simp

theorem expressionStatement_eq (options : ParseOptions) (budget : Nat) :
    expressionStatement options budget = terminated .expressionStatement options budget := by
  simp [expressionStatement, terminated, unterminated]

/-- The token can start a statement of the kind that a semicolon ends. -/
def startsTerminated : Kind → Kind → Bool
  | .variableStatement, next => [Kind.varKw, .letKw, .constKw].contains next
  | .returnStatement, next => next == .returnKw
  | .expressionStatement, next => startsExpression next
  | _, _ => false

theorem contains_of_startsTerminated {kind next : Kind}
    (h : startsTerminated kind next = true) : Grammar.terminated.contains kind = true := by
  unfold startsTerminated at h
  split at h <;> first | rfl | cases h

/-- Up to its semicolon, a statement takes a token off the sequence. -/
theorem unterminated_succeeds {kind : Kind} (hstarts : startsTerminated kind s.peekKind = true)
    (hbudget : s.tokens.length + 2 < budget) :
    Succeeds (unterminated kind budget) s fun events t =>
      Reads s (Grammar.unterminated kind) events t ∧ t.tokens.length < s.tokens.length := by
  unfold startsTerminated at hstarts
  split at hstarts
  · rw [unterminated]
    refine (advance_succeeds _ rfl hstarts).bind ?_
    intro keyword t hresult
    obtain ⟨hkeyword, hlength⟩ := hresult
    have hdeclarator (u : ParseState) (hu : u.tokens.length ≤ t.tokens.length) :
        ReadsItem [.variableDeclarator] startsName (variableDeclarator budget) u :=
      variableDeclarator_readsItem (by omega)
    refine (separated_succeeds true (by omega) hdeclarator).bind ?_
    intro declarators u hdeclarators
    have hdeclaratorsLength := hdeclarators.length_le
    exact .pure ⟨.node (hkeyword.append hdeclarators) rfl rfl, by omega⟩
  · rw [unterminated]
    refine (advance_token_succeeds rfl hstarts).bind ?_
    intro keyword t hresult
    obtain ⟨hkeyword, hlength⟩ := hresult
    apply Succeeds.get
    split
    · refine (expression_succeeds (by omega)).bind ?_
      intro value u hresult
      obtain ⟨hvalue, _⟩ := hresult
      have hvalueLength := hvalue.length_le
      exact .pure ⟨hkeyword.append hvalue.reads.maybe, by omega⟩
    · have hvalue := hkeyword.append (.left_out t (.node Grammar.expressions))
      rw [List.append_nil] at hvalue
      exact .pure ⟨hvalue, hlength⟩
  · rw [unterminated]
    refine (expression_succeeds hbudget).bind ?_
    intro value t hresult
    obtain ⟨hvalue, hprogress⟩ := hresult
    exact .pure ⟨hvalue.reads, hprogress hstarts⟩
  · cases hstarts

theorem terminated_succeeds (kind : Kind) (options : ParseOptions)
    (hstarts : startsTerminated kind s.peekKind = true)
    (hbudget : s.tokens.length + 2 < budget) :
    Succeeds (terminated kind options budget) s fun events t =>
      Reads s [.node kind] events t ∧ t.tokens.length < s.tokens.length := by
  have hkind := contains_of_startsTerminated hstarts
  unfold terminated
  refine (unterminated_succeeds hstarts hbudget).bind ?_
  intro front t hresult
  obtain ⟨hfront, hlength⟩ := hresult
  refine (semicolon_succeeds options t).bind ?_
  intro terminator u hterminator
  have hterminatorLength := hterminator.length_le
  exact .pure ⟨.node (hfront.append hterminator) (Grammar.production_of_terminated hkind)
    (Grammar.isPlain_of_terminated hkind), by omega⟩

/-! ## Statements -/

/-- A node of a statement's kind is what reading a statement asks for. -/
theorem Succeeds.readsStatement {p : Parser Segment} {kind : Kind}
    (hmem : Grammar.statements.contains kind = true)
    (h : Succeeds p s fun events t =>
      ReadsOrEnds s [.node kind] events t ∧ t.tokens.length < s.tokens.length) :
    ReadsStatement p s :=
  h.mono fun _ _ ⟨hnode, hlength⟩ => ⟨(hnode.node_of_mem hmem).maybe, fun _ => hlength⟩

theorem Succeeds.of_reads {p : Parser Segment} {parts : List Part}
    (h : Succeeds p s fun events t =>
      Reads s parts events t ∧ t.tokens.length < s.tokens.length) :
    Succeeds p s fun events t =>
      ReadsOrEnds s parts events t ∧ t.tokens.length < s.tokens.length :=
  h.mono fun _ _ ⟨hreads, hlength⟩ => ⟨.of_reads hreads, hlength⟩

/-- A token that starts no statement is skipped, and the end of the file complained about. -/
theorem nothing_succeeds (s : ParseState) :
    ReadsStatement
      (do
        reportAndSkip "expected a statement"
        return []) s := by
  by_cases hat : s.isAt .eof = true
  · refine (reportAndSkip_succeeds_eof hat).bind ?_
    intro _ t hcomplained
    refine .pure ⟨hcomplained.append_right (.left_out t _), fun h => ?_⟩
    rw [hat] at h
    cases h
  · refine (reportAndSkip_succeeds _ (Bool.not_eq_true _ ▸ hat)).bind ?_
    intro _ t hresult
    obtain ⟨hskipped, hlength⟩ := hresult
    exact .pure ⟨.of_reads (hskipped.append (.left_out t _)), fun _ => hlength⟩

/-- A statement is read wherever the budget exceeds the number of tokens by three. -/
theorem statement_succeeds (options : ParseOptions) (hbudget : s.tokens.length + 3 < budget) :
    ReadsStatement (statement options budget) s := by
  induction budget generalizing s with
  | zero => exact absurd hbudget (Nat.not_lt_zero _)
  | succ budget ih =>
      have hinner (t : ParseState) (ht : t.tokens.length < s.tokens.length) :
          ReadsStatement (statement options budget) t :=
        ih (by omega)
      have hrest : s.tokens.length + 2 < budget := by omega
      unfold statement
      refine Succeeds.get ?_
      split
      case h_1 | h_2 | h_3 =>
        rename_i hkind
        rw [variableStatement_eq]
        have hread := terminated_succeeds .variableStatement options (by rw [hkind]; rfl) hrest
        exact hread.of_reads.readsStatement rfl
      · rename_i hkind
        exact (functionDeclaration_succeeds (beq_iff_eq.mpr hkind) (by omega)
          hinner).readsStatement rfl
      · rename_i hkind
        exact (interfaceDeclaration_succeeds (beq_iff_eq.mpr hkind) (by omega)).readsStatement rfl
      · rename_i hkind
        refine (block_succeeds (by omega) hinner).mono ?_
        intro events t hresult
        obtain ⟨hblock, hprogress⟩ := hresult
        exact ⟨(hblock.node_of_mem rfl).maybe, fun _ => hprogress (beq_iff_eq.mpr hkind)⟩
      · rename_i hkind
        refine (advance_token_succeeds rfl (beq_iff_eq.mpr hkind)).bind ?_
        intro semicolon t hresult
        obtain ⟨hsemicolon, hlength⟩ := hresult
        have hempty : ReadsOrEnds s [.node .emptyStatement] _ t :=
          .of_reads (.node hsemicolon rfl rfl)
        exact .pure ⟨(hempty.node_of_mem rfl).maybe, fun _ => hlength⟩
      · rename_i hkind
        exact (ifStatement_succeeds (beq_iff_eq.mpr hkind) hrest hinner).readsStatement rfl
      · rename_i hkind
        exact (whileStatement_succeeds (beq_iff_eq.mpr hkind) hrest hinner).readsStatement rfl
      · rename_i hkind
        rw [returnStatement_eq]
        have hread := terminated_succeeds .returnStatement options (beq_iff_eq.mpr hkind) hrest
        exact hread.of_reads.readsStatement rfl
      · split
        · rename_i hstarts
          rw [expressionStatement_eq]
          have hread := terminated_succeeds .expressionStatement options hstarts hrest
          exact hread.of_reads.readsStatement rfl
        · exact nothing_succeeds s

/-! ## The whole text -/

/-- What is read of a text: nodes of statements up to the end of the file. -/
structure ReadsUnit (s : ParseState) (actions : List Action) (t : ParseState) (body : Segment)
    (es : List Element) : Prop where
  reading : Reading s actions t body es
  settled : Settled actions t
  statements : ∀ e ∈ es, e.isNodeIn Grammar.statements = true
  peekKind : t.peekKind = .eof

/-- The statements of a whole text are read up to the end of the file. -/
theorem unitStatements_succeeds (options : ParseOptions) (hbudget : s.tokens.length + 3 < budget) :
    Succeeds (statements (statement options budget) false budget) s fun body t =>
      ∃ actions es, ReadsUnit s actions t body es := by
  have hinner (t : ParseState) (ht : t.tokens.length ≤ s.tokens.length) :
      ReadsStatement (statement options budget) t :=
    statement_succeeds options (by omega)
  refine (statements_succeeds (by omega) hinner).mono ?_
  rintro body t ⟨⟨actions, es, hreading, hsettled, hnodes⟩, hstop⟩
  have hat : t.isAt .eof = true := hstop.resolve_right nofun
  exact ⟨actions, es, hreading, hsettled, hnodes, beq_iff_eq.mp hat⟩

/-- The end of the file is read at last, behind the statements. -/
theorem run_sourceUnit {options : ParseOptions} {body : Segment} {t : ParseState}
    (h : (statements (statement options budget) false budget).run s = .ok (body, t))
    (hpeek : t.peekKind = .eof) :
    (sourceUnit options budget).run s = .ok (t.unitEvents body, t.act .read) := by
  have hat : t.isAt .eof = true := beq_iff_eq.mpr hpeek
  have hlast : (expect .eof).run t = .ok ([.token t.nextToken], t.act .read) := by
    rw [run_expect, if_pos hat]
    rfl
  unfold sourceUnit
  rw [StateT.run_bind, h]
  change ((expect .eof).run t >>= _) = _
  rw [hlast]
  rfl

theorem sourceUnit_succeeds (options : ParseOptions) (hbudget : s.tokens.length + 3 < budget) :
    Succeeds (sourceUnit options budget) s fun events last =>
      ∃ actions t body es, ReadsUnit s actions t body es ∧
        events = t.unitEvents body ∧ last = t.act .read := by
  obtain ⟨body, t, hrun, actions, es, hreads⟩ := unitStatements_succeeds options hbudget
  exact ⟨_, _, run_sourceUnit hrun hreads.peekKind, actions, t, body, es, hreads, rfl, rfl⟩

end Parser

end Verbatim
