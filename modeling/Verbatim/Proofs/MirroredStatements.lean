/-
  Statements read in two states that mirror each other.

  Statements are where the common part of two runs can end, because their semicolons are
  read here.  A statement leaves the two states mirroring each other, or it ends with the
  last common semicolon, and then at most an `else` is looked for behind it.  A block and
  an interface go on behind that semicolon, but then the first run is at the end of the
  file, and the closing brace is reported to be missing there.
-/
import Verbatim.Proofs.Mirroring

set_option autoImplicit false

namespace Verbatim

namespace Mirror

open Verbatim.Parser

variable {m : Mirror} {s : ParseState} {budget budget' : Nat} {inner inner' : Parser Segment}

/-! ## Statements that end with a semicolon -/

theorem tracks_semicolon (options : ParseOptions) :
    m.TracksEnd (semicolon options) (semicolon options) s := by
  refine .get (fun s' hkind hbreak => by rw [ParseState.isAt_congr hkind, hbreak]) ?_
  split
  · rename_i hat
    exact tracks_semicolonToken (beq_iff_eq.mp hat)
  · rename_i hnot
    split
    · exact .pure rfl fun _ => .inl
    · exact (tracks_readOrSupply fun hat => absurd hat hnot).toEnd

theorem tracks_terminated (kind : Kind) (options : ParseOptions)
    (hfirst : m.TracksOutput advance advance s) (h : budget ≤ budget') :
    m.TracksEnd (terminated kind options budget) (terminated kind options budget') s := by
  refine (tracks_unterminated kind hfirst h).bind fun front t => ?_
  exact (tracks_semicolon options).bind fun _ _ => .done (by simp)

theorem tracks_propertySignature (hpeek : s.peekKind = .identifier) :
    m.TracksEnd propertySignature propertySignature s := by
  refine (tracks_advance (by rw [hpeek]; decide)).bind fun key t => ?_
  refine (tracks_eat (by decide)).bind fun question u => ?_
  refine tracks_typeAscription.bind fun type v => ?_
  refine .get (fun s' hkind hbreak => by rw [ParseState.isAt_congr hkind, hbreak]) ?_
  dsimp only
  split
  · rename_i hat
    exact (tracks_semicolonToken (beq_iff_eq.mp hat)).bind fun _ _ => .done (by simp)
  · rename_i hsemicolon
    split
    · rename_i hat
      have hpeek : v.peekKind ≠ .semicolon := by rw [beq_iff_eq.mp hat]; decide
      exact (tracks_advance hpeek).toEnd.bind fun _ _ => .done (by simp)
    · split
      · exact .pure (by simp) fun _ => .inl
      · have hsupply : m.TracksOutput (expect .semicolon) (expect .semicolon) v :=
          tracks_readOrSupply fun hat => absurd hat hsemicolon
        exact hsupply.toEnd.bind fun _ _ => .done (by simp)

/-! ## Loops up to a brace -/

/-- A loop as `Tracks` has it, but the common part may end inside of the loop: then the
first run comes to the end of the file, and nothing is said about the second one. -/
def Closes {α : Type} (m : Mirror) (f : α → α) (p p' : Parser α) (s : ParseState) : Prop :=
  ∀ x t, p.run s = .ok (x, t) → s.diagnostics <+: t.diagnostics ∧
    ∀ s', m.Ahead s s' → m.Spoiled t ∨ (∃ t', m.Behind t t') ∨
      ∃ t', p'.run s' = .ok (f x, t') ∧ m.Ahead t t'

/-- Repeated passes close if every pass tracks, and none goes on at the end of the file. -/
theorem closes_iterate {pass pass' : Segment → Parser (Segment × Bool)}
    (hpass : ∀ acc t, m.Tracks (fun out => (out.1.shift m.distance, out.2)) m.Ahead m.Either
      (pass acc) (pass' (acc.shift m.distance)) t)
    (hend : ∀ acc t, t.peekKind = .eof → (pass acc).run t = .ok ((acc, false), t))
    (h : budget ≤ budget') (acc : Segment) :
    m.Closes (Segment.shift m.distance) (iterate (fun _ => pass) budget acc)
      (iterate (fun _ => pass') budget' (acc.shift m.distance)) s := by
  induction budget generalizing s budget' acc with
  | zero =>
      intro x t hrun
      cases hrun
  | succ budget ih =>
      obtain ⟨budget', rfl⟩ := Nat.exists_eq_add_of_lt h
      intro x t hrun
      rw [iterate, StateT.run_bind] at hrun
      obtain ⟨⟨⟨out, more⟩, u⟩, hfirst, hrest⟩ := exists_of_bind hrun
      obtain ⟨hgrows, htracks⟩ := hpass acc s _ u hfirst
      cases more with
      | false =>
          cases hrest
          refine ⟨hgrows, fun s' hs' => (htracks s' hs').imp_right ?_⟩
          rintro ⟨u', hrun', hahead | hbehind⟩
          · refine .inr ⟨u', ?_, hahead⟩
            rw [iterate, StateT.run_bind, hrun']
            rfl
          · exact .inl ⟨u', hbehind⟩
      | true =>
          obtain ⟨hgrows', hcloses⟩ := ih (s := u) (Nat.le_add_right budget budget') out x t hrest
          refine ⟨hgrows.trans hgrows', fun s' hs' => ?_⟩
          rcases htracks s' hs' with hspoiled | ⟨u', hrun', hahead | hbehind⟩
          · exact .inl (m.spoiled_mono hspoiled hgrows')
          · refine (hcloses u' hahead).imp_right (Or.imp_right ?_)
            rintro ⟨t', hrest', ht'⟩
            refine ⟨t', ?_, ht'⟩
            rw [iterate, StateT.run_bind, hrun']
            exact hrest'
          · -- The next pass is the last one, since the end of the file has been reached.
            cases budget with
            | zero => cases hrest
            | succ budget =>
                change (iterate (fun _ => pass) (budget + 1) out).run u = .ok (x, t) at hrest
                rw [iterate, StateT.run_bind, hend out u (m.behind_peekKind hbehind).1] at hrest
                cases hrest
                exact .inr (.inl ⟨u', hbehind⟩)

/-- A loop and what comes behind it, if that is spoiled at the end of the file. -/
theorem Closes.bind {α β : Type} {f : α → α} {g : β → β} {Q : ParseState → ParseState → Prop}
    {p p' : Parser α} {q q' : α → Parser β} (h : m.Closes f p p' s)
    (h' : ∀ a t, m.Tracks g m.Ahead Q (q a) (q' (f a)) t)
    (hend : ∀ a t t' y u, m.Behind t t' → (q a).run t = .ok (y, u) → m.Spoiled u) :
    m.Tracks g m.Ahead Q (p >>= q) (p' >>= q') s := by
  intro y u hrun
  rw [StateT.run_bind] at hrun
  obtain ⟨⟨a, t⟩, hfirst, hsecond⟩ := exists_of_bind hrun
  obtain ⟨hgrows, hcloses⟩ := h a t hfirst
  obtain ⟨hgrows', htracks⟩ := h' a t y u hsecond
  refine ⟨hgrows.trans hgrows', fun s' hs' => ?_⟩
  rcases hcloses s' hs' with hspoiled | ⟨t', hbehind⟩ | ⟨t', hrun', ht'⟩
  · exact .inl (m.spoiled_mono hspoiled hgrows')
  · exact .inl (hend a t t' y u hbehind hsecond)
  · refine (htracks t' ht').imp_right ?_
    rintro ⟨u', hrun'', hu'⟩
    refine ⟨u', ?_, hu'⟩
    rw [StateT.run_bind, hrun']
    exact hrun''

/-- A loop up to a closing brace, which is missing at the end of the file. -/
theorem Closes.closeBrace {p p' : Parser Segment} {q q' : Segment → Segment → Segment}
    (h : m.Closes (Segment.shift m.distance) p p' s)
    (hq : ∀ body closing, q' (body.shift m.distance) (closing.shift m.distance) =
      (q body closing).shift m.distance) :
    m.TracksOutput (do
        let body ← p
        let closing ← expect .closeBrace
        return q body closing)
      (do
        let body ← p'
        let closing ← expect .closeBrace
        return q' body closing) s := by
  refine h.bind (fun body t => ?_) ?_
  · exact (tracks_expect (by decide)).bind fun _ _ => .done (hq _ _)
  · intro body t t' y u hbehind hrun
    have hnot : ¬ t.isAt .closeBrace = true := by
      rw [ParseState.isAt, (m.behind_peekKind hbehind).1]
      decide
    rw [StateT.run_bind, run_expect, if_neg hnot] at hrun
    cases hrun
    exact m.behind_report hbehind _ _ _

theorem closes_statements (hinner : ∀ t, m.TracksEnd inner inner' t) (toBrace : Bool)
    (h : budget ≤ budget') :
    m.Closes (Segment.shift m.distance) (statements inner toBrace budget)
      (statements inner' toBrace budget') s := by
  rw [statements_eq_iterate, statements_eq_iterate]
  refine closes_iterate (fun acc t => ?_) (fun acc t ht => ?_) h []
  · refine .get (fun s' hkind _ => by rw [ParseState.isAt_congr hkind]) ?_
    split
    · exact .pure rfl fun _ => .inl
    · exact (hinner t).bind fun _ _ => .done (by simp)
  · have hat : t.isAt .eof = true := beq_iff_eq.mpr ht
    change (if (t.isAt .eof || _) = true then _ else _ : Parser (Segment × Bool)).run t = _
    rw [hat]
    rfl

theorem closes_members (h : budget ≤ budget') :
    m.Closes (Segment.shift m.distance) (members budget) (members budget') s := by
  rw [members_eq_iterate, members_eq_iterate]
  refine closes_iterate (fun acc t => ?_) (fun acc t ht => ?_) h []
  · refine .get (fun s' hkind _ => by rw [ParseState.isAt_congr hkind]) ?_
    split
    · exact .pure rfl fun _ => .inl
    · split
      · rename_i hat
        exact (tracks_propertySignature (beq_iff_eq.mp hat)).bind fun _ _ => .done (by simp)
      · exact ((tracks_reportAndSkip _).mono fun _ _ => .inl).bind fun _ _ => .done rfl
  · have hat : t.isAt .eof = true := beq_iff_eq.mpr ht
    change (if (t.isAt .closeBrace || t.isAt .eof) = true then _ else _ :
      Parser (Segment × Bool)).run t = _
    rw [hat, Bool.or_true]
    rfl

/-! ## Blocks and declarations -/

theorem tracks_block (hinner : ∀ t, m.TracksEnd inner inner' t) (h : budget ≤ budget') :
    m.TracksOutput (block inner budget) (block inner' budget') s := by
  refine .get (fun s' hkind _ => by rw [ParseState.isAt_congr hkind]) ?_
  split
  · rename_i hat
    have hpeek : s.peekKind ≠ .semicolon := by rw [beq_iff_eq.mp hat]; decide
    refine (tracks_advance hpeek).bind fun opening t => ?_
    exact (closes_statements hinner true h).closeBrace fun _ _ => by simp
  · exact (tracks_expect (by decide)).bind fun _ _ => .done (by simp)

theorem tracks_functionDeclaration (hpeek : s.peekKind = .functionKw)
    (hinner : ∀ t, m.TracksEnd inner inner' t) (h : budget ≤ budget') :
    m.TracksOutput (functionDeclaration inner budget) (functionDeclaration inner' budget') s := by
  refine (tracks_advance (by rw [hpeek]; decide)).bind fun keyword t => ?_
  refine tracks_name.bind fun functionName u => ?_
  refine (tracks_parameterList h).bind fun parameters v => ?_
  refine tracks_optionalType.bind fun type w => ?_
  exact (tracks_block hinner h).bind fun _ _ => .done (by simp)

theorem tracks_interfaceDeclaration (hfirst : m.TracksOutput advance advance s)
    (h : budget ≤ budget') :
    m.TracksOutput (interfaceDeclaration budget) (interfaceDeclaration budget') s := by
  refine hfirst.bind fun keyword t => ?_
  refine tracks_name.bind fun interfaceName u => ?_
  refine (tracks_expect (by decide)).bind fun opening v => ?_
  exact (closes_members h).closeBrace fun _ _ => by simp

/-! ## Control flow -/

/-- Behind the common part, neither of the states has an `else` ahead. -/
theorem tracks_optionalElse (hinner : ∀ t, m.TracksEnd inner inner' t) :
    m.Tracks (Segment.shift m.distance) m.Either m.Either (optionalElse inner)
      (optionalElse inner') s := by
  have hahead : m.TracksEnd (optionalElse inner) (optionalElse inner') s := by
    refine .get (fun s' hkind _ => by rw [ParseState.isAt_congr hkind]) ?_
    split
    · rename_i hat
      have hpeek : s.peekKind ≠ .semicolon := by rw [beq_iff_eq.mp hat]; decide
      refine (tracks_advance hpeek).bind fun keyword t => ?_
      exact (hinner t).bind fun _ _ => .done (by simp)
    · exact .pure rfl fun _ => .inl
  have hnone (p : Parser Segment) {t : ParseState} (ht : t.peekKind ≠ .elseKw) :
      (optionalElse p).run t = .ok ([], t) := by
    have hnot : ¬ t.isAt .elseKw = true := fun hat => ht (beq_iff_eq.mp hat)
    change (if t.isAt .elseKw = true then _ else _ : Parser Segment).run t = _
    rw [if_neg hnot]
    rfl
  intro x t hrun
  obtain ⟨hgrows, htracks⟩ := hahead x t hrun
  refine ⟨hgrows, fun s' hs' => ?_⟩
  rcases hs' with hs' | hs'
  · exact htracks s' hs'
  · obtain ⟨heof, helse⟩ := m.behind_peekKind hs'
    rw [hnone inner (by rw [heof]; decide)] at hrun
    cases hrun
    exact .inr ⟨s', hnone inner' helse, .inr hs'⟩

theorem tracks_ifStatement (hpeek : s.peekKind = .ifKw)
    (hinner : ∀ t, m.TracksEnd inner inner' t) (h : budget ≤ budget') :
    m.TracksEnd (ifStatement inner budget) (ifStatement inner' budget') s := by
  refine (tracks_advance (by rw [hpeek]; decide)).bind fun keyword t => ?_
  refine (tracks_condition h).bind fun test u => ?_
  refine (hinner u).bind fun body v => ?_
  exact (tracks_optionalElse hinner).bind fun _ _ => .done (by simp)

theorem tracks_whileStatement (hpeek : s.peekKind = .whileKw)
    (hinner : ∀ t, m.TracksEnd inner inner' t) (h : budget ≤ budget') :
    m.TracksEnd (whileStatement inner budget) (whileStatement inner' budget') s := by
  refine (tracks_advance (by rw [hpeek]; decide)).bind fun keyword t => ?_
  refine (tracks_condition h).bind fun test u => ?_
  exact (hinner u).bind fun _ _ => .done (by simp)

/-! ## Statements -/

theorem tracks_statement (options : ParseOptions) (h : budget ≤ budget') :
    m.TracksEnd (statement options budget) (statement options budget') s := by
  induction budget generalizing s budget' with
  | zero => exact .throw _
  | succ budget ih =>
      obtain ⟨budget', rfl⟩ := Nat.exists_eq_add_of_lt h
      have hle : budget ≤ budget + budget' := Nat.le_add_right _ _
      have hinner (t : ParseState) : m.TracksEnd (statement options budget)
          (statement options (budget + budget')) t := ih hle
      rw [statement, statement]
      refine .get (fun s' hkind _ => by rw [hkind]) ?_
      split
      case h_1 | h_2 | h_3 =>
        rename_i hkind
        rw [variableStatement_eq, variableStatement_eq]
        exact tracks_terminated _ options (tracks_advance (by rw [hkind]; decide)) hle
      · rename_i hkind
        exact (tracks_functionDeclaration hkind hinner hle).toEnd
      · rename_i hkind
        exact (tracks_interfaceDeclaration (tracks_advance (by rw [hkind]; decide)) hle).toEnd
      · exact (tracks_block hinner hle).toEnd
      · rename_i hkind
        exact (tracks_semicolonToken hkind).bind fun _ _ => .done (by simp)
      · rename_i hkind
        exact tracks_ifStatement hkind hinner hle
      · rename_i hkind
        exact tracks_whileStatement hkind hinner hle
      · rename_i hkind
        rw [returnStatement_eq, returnStatement_eq]
        exact tracks_terminated _ options (tracks_advance (by rw [hkind]; decide)) hle
      · rename_i hsemicolon _ _ _
        split
        · rw [expressionStatement_eq, expressionStatement_eq]
          exact tracks_terminated _ options (tracks_advance hsemicolon) hle
        · exact ((tracks_reportAndSkip _).mono fun _ _ => .inl).bind fun _ _ => .done rfl

end Mirror

end Verbatim
