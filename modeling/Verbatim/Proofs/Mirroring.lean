/-
  Two runs of a parser that cannot be told apart.

  A parser decides what to do by the kind of the token to come and by whether a line
  break is in front of it.  Two states agree on that for different reasons: they differ
  only in their reports, or in all positions by the same distance, or in what comes
  behind a token that both have still ahead of them.  What such pairs of states have in
  common is a mirror: as long as the states mirror each other, the parser takes the same
  steps in both and yields the same output, up to positions.

  A semicolon may be the last token that both states have ahead.  Only the end of a
  statement and the end of a property read one, so inside of expressions and of
  declarations the states keep mirroring each other.  Behind the last common token, the
  first run is at the end of the file, where nothing but an `else` is looked for, and
  where everything else is reported; a mirror need not say anything about a run that is
  spoiled by a report.
-/
import Verbatim.Proofs.StatementReading
import Verbatim.Proofs.Shifting

set_option autoImplicit false

namespace Verbatim

/-- Pairs of states from which a parser takes the same steps. -/
structure Mirror where
  /-- The distance between the positions. -/
  distance : Nat
  /-- What both states have in common lies ahead. -/
  Ahead : ParseState → ParseState → Prop
  /-- What both states had in common has been read. -/
  Behind : ParseState → ParseState → Prop
  /-- Nothing is said about a run that comes to such a state. -/
  Spoiled : ParseState → Prop
  spoiled_mono : ∀ {s t : ParseState}, Spoiled s → s.diagnostics <+: t.diagnostics → Spoiled t
  peekKind : ∀ {s s' : ParseState}, Ahead s s' → s'.peekKind = s.peekKind
  atLineBreak : ∀ {s s' : ParseState}, Ahead s s' → s'.atLineBreak = s.atLineBreak
  nextToken : ∀ {s s' : ParseState}, Ahead s s' → s'.nextToken = s.nextToken.shift distance
  read : ∀ {s s' : ParseState}, Ahead s s' → s.peekKind ≠ .semicolon →
    Ahead (s.act .read) (s'.act .read)
  readSemicolon : ∀ {s s' : ParseState}, Ahead s s' → s.peekKind = .semicolon →
    Ahead (s.act .read) (s'.act .read) ∨ Behind (s.act .read) (s'.act .read)
  supply : ∀ {s s' : ParseState}, Ahead s s' → ∀ message,
    Spoiled (s.report s.lastEnd s.lastEnd message) ∨
      Ahead (s.report s.lastEnd s.lastEnd message) (s'.report s'.lastEnd s'.lastEnd message)
  complain : ∀ {s s' : ParseState}, Ahead s s' → ∀ message,
    Spoiled (s.report s.peek.start s.peek.stop message) ∨
      Ahead (s.report s.peek.start s.peek.stop message)
        (s'.report s'.peek.start s'.peek.stop message)
  skip : ∀ {s s' : ParseState}, Ahead s s' → s.peekKind ≠ .eof → ∀ message,
    Spoiled (s.act (.skip message)) ∨ Ahead (s.act (.skip message)) (s'.act (.skip message))
  behind_peekKind : ∀ {s s' : ParseState}, Behind s s' → s.peekKind = .eof ∧ s'.peekKind ≠ .elseKw
  behind_report : ∀ {s s' : ParseState}, Behind s s' → ∀ start stop message,
    Spoiled (s.report start stop message)

namespace Mirror

open Verbatim.Parser

/-- A mirror where nothing is ever behind owes nothing about such states. -/
theorem peekKind_of_never_behind {s s' : ParseState} (h : False) :
    s.peekKind = .eof ∧ s'.peekKind ≠ .elseKw :=
  h.elim

theorem spoiled_of_never_behind {_ _ : ParseState} (h : False) (_ _ : Nat) (_ : String) : False :=
  h

variable {m : Mirror}

/-- What both states have in common lies ahead, or has been read. -/
def Either (m : Mirror) (s s' : ParseState) : Prop :=
  m.Ahead s s' ∨ m.Behind s s'

/-- Where the first parser yields a result, it has added to the reports, and the second
parser yields the result that mirrors it, unless the first run is spoiled. -/
def Tracks {α : Type} (m : Mirror) (f : α → α) (P Q : ParseState → ParseState → Prop)
    (p p' : Parser α) (s : ParseState) : Prop :=
  ∀ x t, p.run s = .ok (x, t) → s.diagnostics <+: t.diagnostics ∧
    ∀ s', P s s' → m.Spoiled t ∨ ∃ t', p'.run s' = .ok (f x, t') ∧ Q t t'

/-- Output is yielded with the common part still ahead. -/
abbrev TracksOutput (m : Mirror) (p p' : Parser Segment) (s : ParseState) : Prop :=
  m.Tracks (Segment.shift m.distance) m.Ahead m.Ahead p p' s

/-- A finished node is yielded with the common part still ahead. -/
abbrev TracksNode (m : Mirror) (p p' : Parser Completed) (s : ParseState) : Prop :=
  m.Tracks (Completed.shift m.distance) m.Ahead m.Ahead p p' s

/-- Tokens are skipped with the common part still ahead. -/
abbrev TracksSkip (m : Mirror) (p p' : Parser Unit) (s : ParseState) : Prop :=
  m.Tracks id m.Ahead m.Ahead p p' s

/-- Output is yielded, and with it the common part may have been read. -/
abbrev TracksEnd (m : Mirror) (p p' : Parser Segment) (s : ParseState) : Prop :=
  m.Tracks (Segment.shift m.distance) m.Ahead m.Either p p' s

/-! ## Combinators -/

section

variable {α β : Type} {f : α → α} {g : β → β} {P M Q : ParseState → ParseState → Prop}
  {p p' : Parser α} {s : ParseState}

namespace Tracks

protected theorem pure {x x' : α} (hx : x' = f x) (hPQ : ∀ s', P s s' → Q s s') :
    m.Tracks f P Q (pure x) (pure x') s := by
  intro y t hrun
  cases hrun
  exact ⟨List.prefix_refl _, fun s' hs' => .inr ⟨s', by rw [hx]; rfl, hPQ s' hs'⟩⟩

/-- The result is put together at the end. -/
protected theorem done {x x' : α} (hx : x' = f x) : m.Tracks f P P (pure x) (pure x') s :=
  .pure hx fun _ h => h

protected theorem throw (fault : Fault) : m.Tracks f P Q (throw fault) p' s := by
  intro x t hrun
  cases hrun

protected theorem bind {q q' : α → Parser β} (h : m.Tracks f P M p p' s)
    (h' : ∀ a t, m.Tracks g M Q (q a) (q' (f a)) t) : m.Tracks g P Q (p >>= q) (p' >>= q') s := by
  intro y u hrun
  rw [StateT.run_bind] at hrun
  obtain ⟨⟨a, t⟩, hfirst, hsecond⟩ := exists_of_bind hrun
  obtain ⟨hgrows, htracks⟩ := h a t hfirst
  obtain ⟨hgrows', htracks'⟩ := h' a t y u hsecond
  refine ⟨hgrows.trans hgrows', fun s' hs' => ?_⟩
  rcases htracks s' hs' with hspoiled | ⟨t', hrun', ht'⟩
  · exact .inl (m.spoiled_mono hspoiled hgrows')
  · refine (htracks' t' ht').imp_right ?_
    rintro ⟨u', hrun'', hu'⟩
    refine ⟨u', ?_, hu'⟩
    rw [StateT.run_bind, hrun']
    exact hrun''

theorem mono (h : m.Tracks f P M p p' s) (hMQ : ∀ t t', M t t' → Q t t') :
    m.Tracks f P Q p p' s := by
  intro x t hrun
  obtain ⟨hgrows, htracks⟩ := h x t hrun
  refine ⟨hgrows, fun s' hs' => (htracks s' hs').imp_right ?_⟩
  rintro ⟨t', hrun', ht'⟩
  exact ⟨t', hrun', hMQ t t' ht'⟩

/-- Looking at the next token, and at whether a line break is in front of it, shows the
same in both states. -/
protected theorem get {q q' : ParseState → Parser α}
    (hsame : ∀ s' : ParseState, s'.peekKind = s.peekKind → s'.atLineBreak = s.atLineBreak →
      q' s' = q' s)
    (h : m.Tracks f m.Ahead Q (q s) (q' s) s) : m.Tracks f m.Ahead Q (get >>= q) (get >>= q') s := by
  intro x t hrun
  obtain ⟨hgrows, htracks⟩ := h x t hrun
  refine ⟨hgrows, fun s' hs' => ?_⟩
  have hq : q' s' = q' s := hsame s' (m.peekKind hs') (m.atLineBreak hs')
  change m.Spoiled t ∨ ∃ t', (q' s').run s' = .ok (f x, t') ∧ Q t t'
  rw [hq]
  exact htracks s' hs'

end Tracks

end

variable {s : ParseState}

theorem TracksOutput.toEnd {p p' : Parser Segment} (h : m.TracksOutput p p' s) :
    m.TracksEnd p p' s :=
  h.mono fun _ _ => .inl

/-! ## Steps -/

theorem tracks_advance (hkind : s.peekKind ≠ .semicolon) : m.TracksOutput advance advance s := by
  intro x t hrun
  cases hrun
  refine ⟨List.prefix_refl _, fun s' hs' => .inr ⟨s'.act .read, ?_, m.read hs' hkind⟩⟩
  change Except.ok ([Event.token s'.nextToken], s'.act .read) = _
  rw [m.nextToken hs']
  rfl

theorem tracks_semicolonToken (hkind : s.peekKind = .semicolon) :
    m.TracksEnd advance advance s := by
  intro x t hrun
  cases hrun
  refine ⟨List.prefix_refl _, fun s' hs' => .inr ⟨s'.act .read, ?_, m.readSemicolon hs' hkind⟩⟩
  change Except.ok ([Event.token s'.nextToken], s'.act .read) = _
  rw [m.nextToken hs']
  rfl

/-- Where the common part does not end, every token is read as it is. -/
theorem tracks_next (hend : ∀ t t', ¬ m.Behind t t') : m.TracksOutput advance advance s := by
  by_cases hkind : s.peekKind = .semicolon
  · exact (tracks_semicolonToken hkind).mono fun t t' h => h.resolve_right (hend t t')
  · exact tracks_advance hkind

theorem isAt_of_ahead {s' : ParseState} (h : m.Ahead s s') (kind : Kind) :
    s'.isAt kind = s.isAt kind := by
  rw [ParseState.isAt_congr (m.peekKind h)]

/-- A token is read, if that is tracked, or supplied. -/
theorem tracks_readOrSupply {kind : Kind}
    (hread : s.isAt kind = true → m.TracksOutput advance advance s) :
    m.TracksOutput (expect kind) (expect kind) s := by
  intro x t hrun
  rw [run_expect] at hrun
  split at hrun
  · rename_i hat
    obtain ⟨hgrows, htracks⟩ := hread hat x t hrun
    refine ⟨hgrows, fun s' hs' => ?_⟩
    rw [run_expect, isAt_of_ahead hs', if_pos hat]
    exact htracks s' hs'
  · rename_i hat
    cases hrun
    refine ⟨List.prefix_append _ _, fun s' hs' => (m.supply hs' _).imp_right fun hahead => ?_⟩
    refine ⟨_, ?_, hahead⟩
    rw [run_expect, isAt_of_ahead hs', if_neg hat]
    rfl

theorem tracks_expect {kind : Kind} (hkind : kind ≠ .semicolon) :
    m.TracksOutput (expect kind) (expect kind) s :=
  tracks_readOrSupply fun hat =>
    tracks_advance fun h => hkind ((beq_iff_eq.mp hat).symm.trans h)

theorem tracks_name : m.TracksOutput name name s :=
  tracks_expect (by decide)

theorem tracks_eat {kind : Kind} (hkind : kind ≠ .semicolon) :
    m.TracksOutput (eat kind) (eat kind) s := by
  refine .get (fun s' hkind _ => by rw [ParseState.isAt_congr hkind]) ?_
  split
  · rename_i hat
    exact tracks_advance fun h => hkind ((beq_iff_eq.mp hat).symm.trans h)
  · exact .done rfl

theorem tracks_report (message : String) : m.TracksSkip (report message) (report message) s := by
  intro x t hrun
  cases hrun
  refine ⟨List.prefix_append _ _, fun s' hs' => (m.complain hs' message).imp_right fun hahead => ?_⟩
  exact ⟨_, rfl, hahead⟩

theorem tracks_reportAndSkip (message : String) :
    m.TracksSkip (reportAndSkip message) (reportAndSkip message) s := by
  intro x t hrun
  rw [run_reportAndSkip] at hrun
  split at hrun
  · rename_i hat
    cases hrun
    refine ⟨List.prefix_append _ _, fun s' hs' => (m.complain hs' message).imp_right fun h => ?_⟩
    exact ⟨_, by rw [run_reportAndSkip, isAt_of_ahead hs', if_pos hat], h⟩
  · rename_i hat
    cases hrun
    have hpeek : s.peekKind ≠ .eof := fun h => hat (beq_iff_eq.mpr h)
    refine ⟨List.prefix_append _ _, fun s' hs' => (m.skip hs' hpeek message).imp_right fun h => ?_⟩
    exact ⟨_, by rw [run_reportAndSkip, isAt_of_ahead hs', if_neg hat], h⟩

/-! ## Loops

The budget of the second parser may be larger. -/

variable {budget budget' : Nat}

theorem tracks_skipUntil (stop : Kind → Bool) (message : String) (h : budget ≤ budget') :
    m.TracksSkip (skipUntil stop message budget) (skipUntil stop message budget') s := by
  induction budget generalizing s budget' with
  | zero => exact .throw _
  | succ budget ih =>
      obtain ⟨budget', rfl⟩ := Nat.exists_eq_add_of_lt h
      rw [skipUntil, skipUntil]
      refine .get (fun s' hkind hbreak => by rw [ParseState.isAt_congr hkind, hkind, hbreak]) ?_
      split
      · exact .done rfl
      · exact (tracks_reportAndSkip message).bind fun _ _ => ih (by omega)

theorem tracks_separatedItems (first : Kind → Bool) {item item' : Parser Segment}
    (hitem : ∀ t, m.TracksOutput item item' t) (h : budget ≤ budget') :
    m.TracksOutput (separatedItems .comma first item budget)
      (separatedItems .comma first item' budget') s := by
  induction budget generalizing s budget' with
  | zero => exact .throw _
  | succ budget ih =>
      obtain ⟨budget', rfl⟩ := Nat.exists_eq_add_of_lt h
      have hmore (t : ParseState) : m.TracksOutput (separatedItems .comma first item budget)
          (separatedItems .comma first item' (budget + budget')) t := ih (by omega)
      rw [separatedItems, separatedItems]
      refine (hitem s).bind fun here t => ?_
      refine .get (fun s' hkind hbreak => by rw [ParseState.isAt_congr hkind, hkind, hbreak]) ?_
      split
      · rename_i hat
        have hpeek : t.peekKind ≠ .semicolon := by
          rw [beq_iff_eq.mp hat]
          decide
        refine (tracks_advance hpeek).bind fun comma u => ?_
        refine .get (fun s' hkind _ => by rw [hkind]) ?_
        split
        · exact (hmore u).bind fun _ _ => .done (by simp)
        · exact .done (by simp)
      · split
        · refine (tracks_expect (by decide)).bind fun comma u => ?_
          exact (hmore u).bind fun _ _ => .done (by simp)
        · exact .done rfl

theorem tracks_separated (first : Kind → Bool) (required : Bool) {item item' : Parser Segment}
    (hitem : ∀ t, m.TracksOutput item item' t) (h : budget ≤ budget') :
    m.TracksOutput (separated .comma first required item budget)
      (separated .comma first required item' budget') s := by
  refine .get (fun s' hkind _ => by rw [hkind]) ?_
  split
  · exact (tracks_separatedItems first hitem h).bind fun _ _ => .done (by simp)
  · exact .done rfl

/-! ## Expressions -/

section

variable {inner inner' operand operand' : Parser Completed}

theorem tracks_primary (hinner : ∀ t, m.TracksNode inner inner' t) :
    m.TracksNode (primary inner) (primary inner') s := by
  refine .get (fun s' hkind _ => by rw [hkind]) ?_
  dsimp only
  split
  · rename_i hname
    have hpeek : s.peekKind ≠ .semicolon := by rw [hname]; decide
    exact (tracks_advance hpeek).bind fun _ _ => .done (by simp)
  · split
    · rename_i hliteral
      have hpeek : s.peekKind ≠ .semicolon := fun h => by rw [h] at hliteral; cases hliteral
      exact (tracks_advance hpeek).bind fun _ _ => .done (by simp)
    · split
      · rename_i hparen
        have hpeek : s.peekKind ≠ .semicolon := by rw [hparen]; decide
        refine (tracks_advance hpeek).bind fun opening t => ?_
        refine (hinner t).bind fun body u => ?_
        exact (tracks_expect (by decide)).bind fun _ _ => .done (by simp)
      · exact (tracks_report _).bind fun _ _ => .done (by simp)

theorem tracks_argumentList (hinner : ∀ t, m.TracksNode inner inner' t) (h : budget ≤ budget')
    (hpeek : s.peekKind = .openParen) :
    m.TracksOutput (argumentList inner budget) (argumentList inner' budget') s := by
  refine (tracks_advance (by rw [hpeek]; decide)).bind fun opening t => ?_
  have hitem (u : ParseState) :
      m.TracksOutput (do return (← inner).events) (do return (← inner').events) u :=
    (hinner u).bind fun _ _ => .done rfl
  refine (tracks_separated _ _ hitem h).bind fun arguments u => ?_
  refine (tracks_skipUntil _ _ h).bind fun _ v => ?_
  exact (tracks_expect (by decide)).bind fun _ _ => .done (by simp)

theorem tracks_chain (hinner : ∀ t, m.TracksNode inner inner' t) (h : budget ≤ budget')
    (object : Completed) :
    m.TracksNode (chain inner budget object)
      (chain inner' budget' (object.shift m.distance)) s := by
  induction budget generalizing s budget' object with
  | zero => exact .throw _
  | succ budget ih =>
      obtain ⟨budget', rfl⟩ := Nat.exists_eq_add_of_lt h
      rw [chain, chain]
      refine .get (fun s' hkind _ => by rw [hkind]) ?_
      dsimp only
      split
      · rename_i hparen
        refine (tracks_argumentList hinner (by omega) hparen).bind fun arguments t => ?_
        rw [← Completed.shift_wrap]
        exact ih (by omega) _
      · split
        · rename_i hdot
          refine (tracks_advance (by rw [hdot]; decide)).bind fun dot t => ?_
          refine tracks_name.bind fun member u => ?_
          rw [← Segment.shift_append, ← Completed.shift_wrap]
          exact ih (by omega) _
        · exact .done rfl

theorem tracks_unary (hinner : ∀ t, m.TracksNode inner inner' t) (h : budget ≤ budget') :
    m.TracksNode (unary inner budget) (unary inner' budget') s := by
  induction budget generalizing s budget' with
  | zero => exact .throw _
  | succ budget ih =>
      obtain ⟨budget', rfl⟩ := Nat.exists_eq_add_of_lt h
      rw [unary, unary]
      refine .get (fun s' hkind _ => by rw [hkind]) ?_
      split
      · rename_i hsign
        have hpeek : s.peekKind ≠ .semicolon := fun h => by rw [h] at hsign; cases hsign
        refine (tracks_advance hpeek).bind fun sign t => ?_
        exact (ih (by omega)).bind fun _ _ => .done (by simp)
      · exact (tracks_primary hinner).bind fun object t => tracks_chain hinner (by omega) object

theorem tracks_binary (hoperand : ∀ t, m.TracksNode operand operand' t) (h : budget ≤ budget')
    (least : Nat) (left : Completed) :
    m.TracksNode (binary operand budget least left)
      (binary operand' budget' least (left.shift m.distance)) s := by
  induction budget generalizing s budget' least left with
  | zero => exact .throw _
  | succ budget ih =>
      obtain ⟨budget', rfl⟩ := Nat.exists_eq_add_of_lt h
      rw [binary, binary]
      refine .get (fun s' hkind _ => by rw [hkind]) ?_
      split
      · exact .done rfl
      · rename_i precedence hprecedence
        have hpeek : s.peekKind ≠ .semicolon := fun h => by rw [h] at hprecedence; cases hprecedence
        split
        · exact .done rfl
        · refine (tracks_advance hpeek).bind fun operator t => ?_
          refine (hoperand t).bind fun first u => ?_
          refine (ih (by omega) precedence first).bind fun right v => ?_
          rw [Completed.events_shift, ← Segment.shift_append, ← Completed.shift_wrap]
          exact ih (by omega) least _

end

theorem tracks_expression (h : budget ≤ budget') :
    m.TracksNode (expression budget) (expression budget') s := by
  induction budget generalizing s budget' with
  | zero => exact .throw _
  | succ budget ih =>
      obtain ⟨budget', rfl⟩ := Nat.exists_eq_add_of_lt h
      have hinner (t : ParseState) :
          m.TracksNode (expression budget) (expression (budget + budget')) t := ih (by omega)
      have hoperand (t : ParseState) : m.TracksNode (unary (expression budget) budget)
          (unary (expression (budget + budget')) (budget + budget')) t :=
        tracks_unary hinner (by omega)
      rw [expression, expression]
      refine (hoperand s).bind fun first t => ?_
      refine (tracks_binary hoperand (by omega) 0 first).bind fun left u => ?_
      refine .get (fun s' hkind _ => by rw [ParseState.isAt_congr hkind]) ?_
      split
      · rename_i hat
        have hpeek : u.peekKind ≠ .semicolon := by rw [beq_iff_eq.mp hat]; decide
        refine (tracks_advance hpeek).bind fun sign v => ?_
        exact (hinner v).bind fun _ _ => .done (by simp)
      · exact .done rfl

/-! ## Declarations and conditions -/

theorem tracks_typeAscription : m.TracksOutput typeAscription typeAscription s := by
  refine (tracks_expect (by decide)).bind fun colon t => ?_
  exact tracks_name.bind fun _ _ => .done (by simp)

theorem tracks_optionalType : m.TracksOutput optionalType optionalType s := by
  refine .get (fun s' hkind _ => by rw [ParseState.isAt_congr hkind]) ?_
  split
  · exact tracks_typeAscription
  · exact .done rfl

theorem tracks_optionalValue (h : budget ≤ budget') :
    m.TracksOutput (optionalValue budget) (optionalValue budget') s := by
  refine .get (fun s' hkind _ => by rw [ParseState.isAt_congr hkind]) ?_
  split
  · rename_i hat
    have hpeek : s.peekKind ≠ .semicolon := by rw [beq_iff_eq.mp hat]; decide
    refine (tracks_advance hpeek).bind fun sign t => ?_
    exact (tracks_expression h).bind fun _ _ => .done (by simp)
  · exact .done rfl

theorem tracks_variableDeclarator (h : budget ≤ budget') :
    m.TracksOutput (variableDeclarator budget) (variableDeclarator budget') s := by
  refine tracks_name.bind fun variableName t => ?_
  refine tracks_optionalType.bind fun type u => ?_
  exact (tracks_optionalValue h).bind fun _ _ => .done (by simp)

theorem tracks_parameter : m.TracksOutput parameter parameter s :=
  tracks_name.bind fun _ _ => tracks_optionalType.bind fun _ _ => .done (by simp)

theorem tracks_parameterList (h : budget ≤ budget') :
    m.TracksOutput (parameterList budget) (parameterList budget') s := by
  refine (tracks_expect (by decide)).bind fun opening t => ?_
  refine (tracks_separated _ _ (fun _ => tracks_parameter) h).bind fun parameters u => ?_
  refine (tracks_skipUntil _ _ h).bind fun _ v => ?_
  exact (tracks_expect (by decide)).bind fun _ _ => .done (by simp)

theorem tracks_condition (h : budget ≤ budget') :
    m.TracksOutput (condition budget) (condition budget') s := by
  refine (tracks_expect (by decide)).bind fun opening t => ?_
  refine (tracks_expression h).bind fun test u => ?_
  exact (tracks_expect (by decide)).bind fun _ _ => .done (by simp)

/-- A statement up to its semicolon.  It starts with a token that is read as it is. -/
theorem tracks_unterminated (kind : Kind) (hfirst : m.TracksOutput advance advance s)
    (h : budget ≤ budget') :
    m.TracksOutput (unterminated kind budget) (unterminated kind budget') s := by
  unfold unterminated
  split
  · refine hfirst.bind fun keyword t => ?_
    refine (tracks_separated _ _ (fun _ => tracks_variableDeclarator h) h).bind fun _ _ => ?_
    exact .done (by simp)
  · refine hfirst.bind fun keyword t => ?_
    refine .get (fun s' hkind hbreak => by rw [hkind, hbreak]) ?_
    split
    · exact (tracks_expression h).bind fun _ _ => .done (by simp)
    · exact .done rfl
  · exact (tracks_expression h).bind fun _ _ => .done rfl
  · exact .throw _

end Mirror

end Verbatim
