/-
  Statements, read with and without the insertion of semicolons.

  Only the end of a statement depends on the options, and the two ways to end one leave
  the parser in front of the same token.  So the two runs of every production around it
  stay together, and the loop over statements makes as many passes in both.
-/
import Verbatim.Proofs.TwinReading

set_option autoImplicit false

namespace Verbatim.Parser

variable {inner inner' : Parser Segment} {s : ParseState} {budget : Nat}

/-! ## The end of a statement -/

theorem expectation_semicolon : expectation .semicolon = semicolonExpected := by
  rfl

/-- The semicolon is there for both, supplied without insertion, or supplied for both. -/
theorem semicolon_twins (u : ParseState) (ds : List Diagnostic) :
    TwinsSucceed (semicolon ⟨true⟩) (semicolon ⟨false⟩) u ds fun on off t ds' =>
      ∃ actions es ys more, TwinEndings u actions t on off es ys more ∧ ds' = ds ++ more := by
  unfold semicolon
  refine .get rfl ?_
  by_cases hat : u.isAt .semicolon = true
  · rw [if_pos hat, if_pos hat]
    have hkind : u.peekKind = .semicolon := by rwa [ParseState.isAt, beq_iff_eq] at hat
    have hleaf : (Element.token u.nextLeaf).isTokenIn [.semicolon] = true := by
      have hleaf : u.nextLeaf.kind = .semicolon := hkind
      simp [Element.isTokenIn, hleaf]
    have hinserts : u.insertsSemicolon = false := by
      rw [ParseState.insertsSemicolon, hat]
      rfl
    refine (TwinsSucceed.of_indifferent advance_indifferent (advance_reads_next u)).mono ?_
    rintro _ _ _ _ ⟨rfl, ⟨rfl, rfl⟩, more, hreports, rfl⟩
    exact ⟨_, _, _, more, .of_reading (.read (by rw [hkind]; rfl)) hleaf hinserts hreports, rfl⟩
  · rw [if_neg hat, if_neg hat]
    have hnot : u.isAt .semicolon = false := Bool.not_eq_true _ ▸ hat
    have hsupply : TwinsSucceed (expect .semicolon) (expect .semicolon) u ds _ :=
      .of_indifferent (expect_indifferent .semicolon) (expect_supplies hnot)
    by_cases hends : (u.atLineBreak || u.isAt .closeBrace || u.isAt .eof) = true
    · have hinserts : u.insertsSemicolon = true := by
        rw [ParseState.insertsSemicolon, hnot, hends]
        rfl
      obtain ⟨_, _, _, _, _, hrun, rfl, ⟨rfl, rfl⟩, more, hreports, rfl⟩ := hsupply
      have hmore : more = [⟨u.lastEnd, u.lastEnd, semicolonExpected⟩] := by
        rw [← expectation_semicolon]
        exact (List.append_cancel_left hreports).symm
      subst hmore
      rw [Bool.true_and, Bool.false_and, if_pos hends]
      exact ⟨[], [.missing .semicolon], u, _, rfl, hrun, _, _, _, _, .inserted hinserts, rfl⟩
    · have hinserts : u.insertsSemicolon = false := by
        rw [Bool.not_eq_true] at hends
        rw [ParseState.insertsSemicolon, hends, Bool.and_false]
      rw [Bool.true_and, Bool.false_and, if_neg hends]
      refine hsupply.mono ?_
      rintro _ _ _ _ ⟨rfl, ⟨rfl, rfl⟩, more, hreports, rfl⟩
      have hmessage : expectation .semicolon ≠ statementExpected := expectation_ne _
      exact ⟨_, _, _, more, .of_reading (.supply rfl hmessage (.inl ⟨rfl, rfl⟩)) rfl hinserts
        hreports, rfl⟩

/-- A statement that a semicolon ends is one node, with insertion and without it. -/
theorem terminated_twins (kind : Kind) (ds : List Diagnostic)
    (hstarts : startsTerminated kind s.peekKind = true)
    (hbudget : s.tokens.length + 2 < budget) :
    TwinsSucceed (terminated kind ⟨true⟩ budget) (terminated kind ⟨false⟩ budget) s ds
      fun on off t ds' => ReadsTwinNodes s ds on off t ds' := by
  have hkind := contains_of_startsTerminated hstarts
  unfold terminated
  refine (TwinsSucceed.of_indifferent (unterminated_indifferent kind budget)
    (unterminated_succeeds hstarts hbudget).and_run).bind ?_
  rintro front _ u _ ⟨rfl, ⟨⟨hfront, hlength⟩, hrun⟩, reported, hreports, rfl⟩
  obtain ⟨actions, es, hreading, _, haccepts⟩ := hfront
  refine ((semicolon_twins u _).and_succeeds (semicolon_succeeds ⟨true⟩ u).and_run).bind ?_
  rintro on off t _ ⟨⟨bs, ending, ending', more, hendings, rfl⟩, _, hend⟩
  have htwins := hendings.node hkind hreading haccepts hrun hlength hend hreports
  exact .pure ⟨_, _, _, _, htwins, List.append_assoc .., List.forall_mem_singleton.mpr rfl,
    List.forall_mem_singleton.mpr rfl⟩

/-! ## Statements up to the end -/

/-- One statement, or a token that starts none, can be read from the state by both. -/
def ReadTwice (p q : Parser Segment) (s : ParseState) : Prop :=
  ∀ ds, TwinsSucceed p q s ds fun on off t ds' =>
    ReadsTwinNodes s ds on off t ds' ∧ (s.isAt .eof = false → t.tokens.length < s.tokens.length)

/-- The loop over statements stops for both in front of the same token. -/
theorem statements_twins (toBrace : Bool) (ds : List Diagnostic)
    (hbudget : s.tokens.length < budget)
    (hinner : ∀ t : ParseState, t.tokens.length ≤ s.tokens.length → ReadTwice inner inner' t) :
    TwinsSucceed (statements inner toBrace budget) (statements inner' toBrace budget) s ds
      fun on off t ds' => ReadsTwinNodes s ds on off t ds' := by
  induction budget generalizing s ds with
  | zero => exact absurd hbudget (Nat.not_lt_zero _)
  | succ budget ih =>
      rw [statements, statements]
      refine .get rfl ?_
      split
      · exact .pure (.nil s ds)
      · rename_i hstop
        simp only [Bool.or_eq_true, not_or, Bool.not_eq_true] at hstop
        refine (hinner s (Nat.le_refl _) ds).bind ?_
        rintro here here' t ds' ⟨hhere, hprogress⟩
        have hlength := hprogress hstop.1
        refine (ih ds' (by omega) fun u hu => hinner u (by omega)).bind ?_
        intro rest rest' u ds'' hrest
        exact .pure (hhere.append hrest)

theorem block_twins (ds : List Diagnostic) (hbudget : s.tokens.length ≤ budget)
    (hinner : ∀ t : ParseState, t.tokens.length < s.tokens.length → ReadTwice inner inner' t) :
    TwinsSucceed (block inner budget) (block inner' budget) s ds
      fun on off t ds' => ReadsTwinNodes s ds on off t ds' := by
  unfold block
  refine .get rfl ?_
  by_cases hat : s.isAt .openBrace = true
  · rw [if_pos hat, if_pos hat]
    refine (inert_twins advance_indifferent (advance_token_succeeds rfl hat) rfl
      fun _ _ h => .of_reads h.1).bind ?_
    rintro opening opening' t ds₁ ⟨hopening, _, _, hlength⟩
    refine (statements_twins true ds₁ (by omega) fun u hu => hinner u (by omega)).bind ?_
    intro body body' u ds₂ hbody
    refine (inert_twins (expect_indifferent .closeBrace) (expect_succeeds u rfl) rfl
      fun _ _ h => .of_reads h.1).bind ?_
    rintro closing closing' v ds₃ ⟨hclosing, _⟩
    exact .pure (((hopening.append hbody.list).append hclosing).node rfl rfl)
  · rw [if_neg hat, if_neg hat]
    refine (TwinsSucceed.of_indifferent (expect_indifferent .openBrace)
      (expect_supplies (Bool.not_eq_true _ ▸ hat))).bind ?_
    rintro _ _ _ _ ⟨rfl, ⟨rfl, rfl⟩, more, hreports, rfl⟩
    have hallowed : s.Allows
        (.supply .openBrace ⟨s.lastEnd, s.lastEnd, expectation .openBrace⟩) :=
      ⟨by decide, expectation_ne .openBrace, .inl ⟨rfl, rfl⟩⟩
    exact .pure ⟨_, _, _, more, .of_reading (.emptyBlock hallowed)
      (List.forall_mem_singleton.mpr rfl) hreports, rfl, List.forall_mem_singleton.mpr rfl,
      List.forall_mem_singleton.mpr rfl⟩

/-! ## Declarations and control flow -/

theorem functionDeclaration_twins (ds : List Diagnostic) (hat : s.isAt .functionKw = true)
    (hbudget : s.tokens.length ≤ budget)
    (hinner : ∀ t : ParseState, t.tokens.length < s.tokens.length → ReadTwice inner inner' t) :
    TwinsSucceed (functionDeclaration inner budget) (functionDeclaration inner' budget) s ds
      fun on off t ds' => ReadsTwinNodes s ds on off t ds' := by
  unfold functionDeclaration
  refine (inert_twins advance_indifferent (advance_token_succeeds rfl hat) rfl
    fun _ _ h => .of_reads h.1).bind ?_
  rintro keyword keyword' t ds₁ ⟨hkeyword, _, _, hlength⟩
  refine (inert_twins name_indifferent (name_succeeds t) rfl fun _ _ h => .of_reads h.1).bind ?_
  rintro functionName functionName' u ds₂ ⟨hname, hnameLength, _⟩
  refine (inert_twins (parameterList_indifferent budget) (parameterList_succeeds (by omega)) rfl
    fun _ _ h => .of_reads h).bind ?_
  rintro parameters parameters' v ds₃ ⟨hparameters, hparametersLength, _⟩
  refine (inert_twins optionalType_indifferent (optionalType_succeeds v) rfl
    fun _ _ h => .of_reads h).bind ?_
  rintro type type' w ds₄ ⟨htype, htypeLength, _⟩
  refine (block_twins ds₄ (by omega) fun x hx => hinner x (by omega)).bind ?_
  intro body body' x ds₅ hbody
  have hhead := ((hkeyword.append hname).append hparameters).append htype
  exact .pure ((hhead.append hbody.twins).node rfl rfl)

theorem condition_twins (ds : List Diagnostic) (hbudget : s.tokens.length + 2 < budget) :
    TwinsSucceed (condition budget) (condition budget) s ds fun on off t ds' =>
      ReadsTwins s ds on off t ds' ∧ t.tokens.length ≤ s.tokens.length := by
  refine (inert_twins (condition_indifferent budget) (condition_succeeds hbudget) rfl
    fun _ _ h => .of_reads h).mono ?_
  rintro on off t ds' ⟨htwins, hlength, _⟩
  exact ⟨htwins, hlength⟩

theorem optionalElse_twins (ds : List Diagnostic)
    (hinner : ∀ t : ParseState, t.tokens.length < s.tokens.length → ReadTwice inner inner' t) :
    TwinsSucceed (optionalElse inner) (optionalElse inner') s ds
      fun on off t ds' => ReadsTwins s ds on off t ds' := by
  unfold optionalElse
  refine .get rfl ?_
  split
  · rename_i helse
    refine (inert_twins advance_indifferent (advance_token_succeeds rfl helse) rfl
      fun _ _ h => .of_reads h.1).bind ?_
    rintro keyword keyword' t ds₁ ⟨hkeyword, _, _, hlength⟩
    refine (hinner t hlength ds₁).bind ?_
    rintro body body' u ds₂ ⟨hbody, _⟩
    exact .pure ((hkeyword.append hbody.twins).node rfl rfl).twins
  · exact .pure (ReadsTwinNodes.nil s ds).twins

theorem ifStatement_twins (ds : List Diagnostic) (hat : s.isAt .ifKw = true)
    (hbudget : s.tokens.length + 2 < budget)
    (hinner : ∀ t : ParseState, t.tokens.length < s.tokens.length → ReadTwice inner inner' t) :
    TwinsSucceed (ifStatement inner budget) (ifStatement inner' budget) s ds
      fun on off t ds' => ReadsTwinNodes s ds on off t ds' := by
  unfold ifStatement
  refine (inert_twins advance_indifferent (advance_token_succeeds rfl hat) rfl
    fun _ _ h => .of_reads h.1).bind ?_
  rintro keyword keyword' t ds₁ ⟨hkeyword, _, _, hlength⟩
  refine (condition_twins ds₁ (by omega)).bind ?_
  rintro test test' u ds₂ ⟨htest, htestLength⟩
  refine (hinner u (by omega) ds₂).bind ?_
  rintro body body' v ds₃ ⟨hbody, _⟩
  have hbodyLength := hbody.twins.length_le
  refine (optionalElse_twins ds₃ fun w hw => hinner w (by omega)).bind ?_
  intro otherwise otherwise' w ds₄ hotherwise
  exact .pure ((((hkeyword.append htest).append hbody.twins).append hotherwise).node rfl rfl)

theorem whileStatement_twins (ds : List Diagnostic) (hat : s.isAt .whileKw = true)
    (hbudget : s.tokens.length + 2 < budget)
    (hinner : ∀ t : ParseState, t.tokens.length < s.tokens.length → ReadTwice inner inner' t) :
    TwinsSucceed (whileStatement inner budget) (whileStatement inner' budget) s ds
      fun on off t ds' => ReadsTwinNodes s ds on off t ds' := by
  unfold whileStatement
  refine (inert_twins advance_indifferent (advance_token_succeeds rfl hat) rfl
    fun _ _ h => .of_reads h.1).bind ?_
  rintro keyword keyword' t ds₁ ⟨hkeyword, _, _, hlength⟩
  refine (condition_twins ds₁ (by omega)).bind ?_
  rintro test test' u ds₂ ⟨htest, htestLength⟩
  refine (hinner u (by omega) ds₂).bind ?_
  rintro body body' v ds₃ ⟨hbody, _⟩
  exact .pure (((hkeyword.append htest).append hbody.twins).node rfl rfl)

theorem interfaceDeclaration_twins (ds : List Diagnostic) (hat : s.isAt .interfaceKw = true)
    (hbudget : s.tokens.length ≤ budget) :
    TwinsSucceed (interfaceDeclaration budget) (interfaceDeclaration budget) s ds
      fun on off t ds' => ReadsTwinNodes s ds on off t ds' := by
  refine (TwinsSucceed.of_indifferent (interfaceDeclaration_indifferent budget)
    (interfaceDeclaration_succeeds hat hbudget)).mono ?_
  rintro events _ t _ ⟨rfl, ⟨hnode, _⟩, more, hreports, rfl⟩
  refine .of_reads hnode rfl (fun es haccepts => ?_) hreports
  obtain ⟨e, rfl, he⟩ := Part.exists_of_accepts_one haccepts
  exact List.forall_mem_singleton.mpr (Element.isNode_of_isNodeIn he)

/-- A token that starts no statement is skipped by both. -/
theorem nothing_twins (s : ParseState) (ds : List Diagnostic) :
    TwinsSucceed
      (do
        reportAndSkip "expected a statement"
        return [])
      (do
        reportAndSkip "expected a statement"
        return []) s ds fun on off t ds' => ReadsTwinNodes s ds on off t ds' := by
  have hskip : Succeeds (reportAndSkip "expected a statement") s fun _ t =>
      ReadsOrEnds s [] [] t := by
    by_cases hat : s.isAt .eof = true
    · exact reportAndSkip_succeeds_eof hat
    · exact (reportAndSkip_succeeds _ (Bool.not_eq_true _ ▸ hat)).mono
        fun _ _ h => .of_reads h.1
  refine (TwinsSucceed.of_indifferent (reportAndSkip_indifferent _) hskip).bind ?_
  rintro _ _ t _ ⟨_, hnothing, more, hreports, rfl⟩
  refine .pure (.of_reads hnothing rfl (fun es haccepts => ?_) hreports)
  rw [Part.accepts, List.isEmpty_iff] at haccepts
  rw [haccepts]
  exact List.forall_mem_nil _

/-! ## Statements -/

/-- Both read the same statement, since the kind of the next token decides which one. -/
theorem statement_twins (hbudget : s.tokens.length + 3 < budget) :
    ReadTwice (statement ⟨true⟩ budget) (statement ⟨false⟩ budget) s := by
  induction budget generalizing s with
  | zero => exact absurd hbudget (Nat.not_lt_zero _)
  | succ budget ih =>
      have hinner (t : ParseState) (ht : t.tokens.length < s.tokens.length) :
          ReadTwice (statement ⟨true⟩ budget) (statement ⟨false⟩ budget) t :=
        ih (by omega)
      have hrest : s.tokens.length + 2 < budget := by omega
      intro ds
      refine (TwinsSucceed.and_succeeds ?_ (statement_succeeds ⟨true⟩ hbudget)).mono
        fun _ _ _ _ ⟨htwins, _, hprogress⟩ => ⟨htwins, hprogress⟩
      unfold statement
      refine .get rfl ?_
      split
      case h_1 | h_2 | h_3 =>
        rename_i hkind
        rw [variableStatement_eq, variableStatement_eq]
        exact terminated_twins .variableStatement ds (by rw [hkind]; rfl) hrest
      · rename_i hkind
        exact functionDeclaration_twins ds (beq_iff_eq.mpr hkind) (by omega) hinner
      · rename_i hkind
        exact interfaceDeclaration_twins ds (beq_iff_eq.mpr hkind) (by omega)
      · exact block_twins ds (by omega) hinner
      · rename_i hkind
        have hadvance := advance_token_succeeds rfl (beq_iff_eq.mpr hkind)
        refine (inert_twins advance_indifferent hadvance rfl fun _ _ h => .of_reads h.1).bind ?_
        rintro semicolon semicolon' t ds₁ ⟨hsemicolon, _⟩
        exact .pure (hsemicolon.node rfl rfl)
      · rename_i hkind
        exact ifStatement_twins ds (beq_iff_eq.mpr hkind) hrest hinner
      · rename_i hkind
        exact whileStatement_twins ds (beq_iff_eq.mpr hkind) hrest hinner
      · rename_i hkind
        rw [returnStatement_eq, returnStatement_eq]
        exact terminated_twins .returnStatement ds (beq_iff_eq.mpr hkind) hrest
      · split
        · rename_i hstarts
          rw [expressionStatement_eq, expressionStatement_eq]
          exact terminated_twins .expressionStatement ds hstarts hrest
        · exact nothing_twins s ds

end Verbatim.Parser
