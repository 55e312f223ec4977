/-
  A text behind another one.

  A statement that ends with a semicolon and a line break hands nothing on to what comes
  behind it.  Up to that semicolon, a parser does not see whether the file ends behind it
  or another text comes: the states mirror each other as long as the semicolon is ahead.
  The statement behind it is read as the first one of a text is, because every statement
  starts with a token that is read or skipped, and thereby the position of the last token
  and the line break behind it are forgotten.  The rest is read at positions further on.

  So the statements of both texts are those of the one and then those of the other, and
  if nothing is reported of the first text, the reports are those of the second, further
  on.
-/
import Verbatim.Proofs.MirroredStatements
import Verbatim.Proofs.ScanSeam
import Verbatim.Proofs.SourceReading

set_option autoImplicit false

namespace Verbatim

open Verbatim.Parser

/-! ## States further on -/

/-- The state further on in a text. -/
def ParseState.shift (n : Nat) (s : ParseState) : ParseState :=
  { s with
    tokens := s.tokens.map (ScannedToken.shift n)
    lastEnd := s.lastEnd + n
    diagnostics := s.diagnostics.map (Diagnostic.shift n) }

namespace ParseState

@[simp] theorem shift_zero (s : ParseState) : s.shift 0 = s := by
  have htokens : ScannedToken.shift 0 = id := rfl
  have hreports : Diagnostic.shift 0 = id := rfl
  rw [shift, htokens, hreports, List.map_id, List.map_id]
  rfl

@[simp] theorem peek_shift (n : Nat) (s : ParseState) : (s.shift n).peek = s.peek.shift n := by
  obtain ⟨tokens, _, _, _, _⟩ := s
  cases tokens <;> rfl

@[simp] theorem peekKind_shift (n : Nat) (s : ParseState) : (s.shift n).peekKind = s.peekKind := by
  rw [peekKind, peek_shift]
  rfl

theorem atLineBreak_shift (n : Nat) (s : ParseState) :
    (s.shift n).atLineBreak = s.atLineBreak := by
  rw [atLineBreak, peek_shift]
  rfl

theorem nextToken_shift (n : Nat) (s : ParseState) :
    (s.shift n).nextToken = s.nextToken.shift n := by
  rw [nextToken, peek_shift]
  rfl

theorem nextLeaf_shift (n : Nat) (s : ParseState) : (s.shift n).nextLeaf = s.nextLeaf := by
  rw [nextLeaf, peek_shift]
  rfl

theorem report_shift (n : Nat) (s : ParseState) (start stop : Nat) (message : String) :
    (s.shift n).report (start + n) (stop + n) message = (s.report start stop message).shift n := by
  simp [report, shift, Diagnostic.shift]

theorem consume_shift (n : Nat) (s : ParseState) : (s.shift n).consume = s.consume.shift n := by
  rw [consume, peek_shift, consume, shift, shift, List.map_tail]
  rfl

theorem act_read_shift (n : Nat) (s : ParseState) :
    (s.shift n).act .read = (s.act .read).shift n := by
  rw [act, consume_shift]
  rfl

theorem act_skip_shift (n : Nat) (s : ParseState) (message : String) :
    (s.shift n).act (.skip message) = (s.act (.skip message)).shift n := by
  have hskipped : (s.shift n).skippedWithNext = s.skippedWithNext := by
    rw [skippedWithNext, peek_shift]
    rfl
  have hreport : (s.shift n).report (s.peek.shift n).start (s.peek.shift n).stop message =
      (s.report s.peek.start s.peek.stop message).shift n := s.report_shift n _ _ _
  rw [act, peek_shift, hskipped, hreport, consume_shift]
  rfl

end ParseState

/-- States that differ in nothing but how far on they are. -/
def Mirror.ofDistance (n : Nat) : Mirror where
  distance := n
  Ahead s s' := s' = s.shift n
  Behind _ _ := False
  Spoiled _ := False
  spoiled_mono := fun h _ => h
  peekKind := by
    rintro s _ rfl
    exact s.peekKind_shift n
  atLineBreak := by
    rintro s _ rfl
    exact s.atLineBreak_shift n
  nextToken := by
    rintro s _ rfl
    exact s.nextToken_shift n
  read := by
    rintro s _ rfl _
    exact s.act_read_shift n
  readSemicolon := by
    rintro s _ rfl _
    exact .inl (s.act_read_shift n)
  supply := by
    rintro s _ rfl message
    exact .inr (s.report_shift ..)
  complain := by
    rintro s _ rfl message
    rw [ParseState.peek_shift]
    exact .inr (s.report_shift ..)
  skip := by
    rintro s _ rfl _ message
    exact .inr (s.act_skip_shift n message)
  behind_peekKind := @Mirror.peekKind_of_never_behind
  behind_report := @Mirror.spoiled_of_never_behind

/-- Statements further on are the same, and more budget than enough changes nothing. -/
theorem run_statements_shift {options : ParseOptions} {budget budget' count count' : Nat}
    {s t : ParseState} {body : Segment}
    (h : (statements (statement options budget) false count).run s = .ok (body, t))
    (hbudget : budget ≤ budget') (hcount : count ≤ count') (n : Nat) :
    (statements (statement options budget') false count').run (s.shift n) =
      .ok (body.shift n, t.shift n) := by
  have hcloses : (Mirror.ofDistance n).Closes (Segment.shift n) _ _ s :=
    Mirror.closes_statements (fun _ => Mirror.tracks_statement options hbudget) false hcount
  obtain hspoiled | ⟨_, hbehind⟩ | ⟨_, hrun, rfl⟩ := (hcloses body t h).2 _ rfl
  · exact hspoiled.elim
  · exact hbehind.elim
  · exact hrun

theorem run_statements_mono {options : ParseOptions} {budget budget' count count' : Nat}
    {s t : ParseState} {body : Segment}
    (h : (statements (statement options budget) false count).run s = .ok (body, t))
    (hbudget : budget ≤ budget') (hcount : count ≤ count') :
    (statements (statement options budget') false count').run s = .ok (body, t) := by
  have hrun := run_statements_shift h hbudget hcount 0
  rwa [ParseState.shift_zero, ParseState.shift_zero, Segment.shift_zero] at hrun

/-- With enough budget for both, two runs are the same. -/
theorem run_statements_det {options : ParseOptions} {budget budget' count count' : Nat}
    {s t t' : ParseState} {body body' : Segment}
    (h : (statements (statement options budget) false count).run s = .ok (body, t))
    (h' : (statements (statement options budget') false count').run s = .ok (body', t')) :
    body = body' ∧ t = t' := by
  have hleft :=
    run_statements_mono h (Nat.le_max_left budget budget') (Nat.le_max_left count count')
  have hright :=
    run_statements_mono h' (Nat.le_max_right budget budget') (Nat.le_max_right count count')
  exact Prod.mk.inj (Except.ok.inj (hleft.symm.trans hright))

/-! ## The first statement of a text

What has been read last is forgotten with the first token of a statement. -/

/-- The tokens to come, the trivia of skipped tokens and the reports are the same. -/
structure ParseState.Resembles (s s' : ParseState) : Prop where
  tokens : s'.tokens = s.tokens
  skipped : s'.skipped = s.skipped
  diagnostics : s'.diagnostics = s.diagnostics

namespace ParseState

theorem tokens_ne_nil_of_peekKind {s : ParseState} (h : s.peekKind ≠ .eof) : s.tokens ≠ [] := by
  intro hnil
  rw [peekKind, peek, hnil] at h
  exact h rfl

namespace Resembles

variable {s s' : ParseState} (h : s.Resembles s')

include h

theorem peek_eq (hne : s.tokens ≠ []) : s'.peek = s.peek := by
  rw [peek, peek, h.tokens]
  cases hs : s.tokens with
  | nil => exact absurd hs hne
  | cons t rest => rfl

theorem peekKind_eq : s'.peekKind = s.peekKind := by
  rw [peekKind, peekKind, peek, peek, h.tokens]
  cases s.tokens <;> rfl

theorem nextLeaf_eq : s'.nextLeaf = s.nextLeaf := by
  rw [nextLeaf, nextLeaf, peek, peek, h.tokens, h.skipped]
  cases s.tokens <;> rfl

theorem consume_eq (hne : s.tokens ≠ []) : s'.consume = s.consume := by
  simp only [consume, h.peek_eq hne, h.tokens, h.skipped, h.diagnostics]

theorem report (start stop : Nat) (message : String) :
    (s.report start stop message).Resembles (s'.report start stop message) :=
  ⟨h.tokens, h.skipped, congrArg (· ++ _) h.diagnostics⟩

theorem act_read_eq (hne : s.tokens ≠ []) : s'.act .read = s.act .read := by
  rw [act, act, h.consume_eq hne]

theorem act_skip_eq (hne : s.tokens ≠ []) (message : String) :
    s'.act (.skip message) = s.act (.skip message) := by
  have hskipped : s'.skippedWithNext = s.skippedWithNext := by
    rw [skippedWithNext, h.peek_eq hne, h.skipped]
    rfl
  rw [act, act, h.peek_eq hne, hskipped, (h.report _ _ _).consume_eq hne]

end Resembles

end ParseState

/-- The parser does not look at what has been read last. -/
def Parser.Forgets {α : Type} (p : Parser α) (s : ParseState) : Prop :=
  ∀ s', s.Resembles s' → p.run s' = p.run s

namespace Parser

section

variable {α β : Type} {p : Parser α} {s : ParseState}

protected theorem Forgets.bind (h : Forgets p s) (q : α → Parser β) : Forgets (p >>= q) s := by
  intro s' hs'
  rw [StateT.run_bind, StateT.run_bind, h s' hs']

/-- The kind of the next token is not forgotten. -/
protected theorem Forgets.get {q : ParseState → Parser α}
    (hsame : ∀ s' : ParseState, s'.peekKind = s.peekKind → q s' = q s) (h : Forgets (q s) s) :
    Forgets (get >>= q) s := by
  intro s' hs'
  change (q s').run s' = (q s).run s
  rw [hsame s' hs'.peekKind_eq]
  exact h s' hs'

end

variable {s : ParseState} {budget : Nat}

theorem forgets_advance (hne : s.tokens ≠ []) : Forgets advance s := by
  intro s' hs'
  change Except.ok ([Event.token s'.nextToken], s'.act .read) =
    Except.ok ([Event.token s.nextToken], s.act .read)
  rw [hs'.act_read_eq hne, ParseState.nextToken, hs'.peek_eq hne, hs'.skipped]
  rfl

theorem forgets_reportAndSkip (message : String) (hkind : s.peekKind ≠ .eof) :
    Forgets (reportAndSkip message) s := by
  intro s' hs'
  have hnot : ¬ s.isAt .eof = true := fun hat => hkind (beq_iff_eq.mp hat)
  rw [run_reportAndSkip, run_reportAndSkip, ParseState.isAt_congr hs'.peekKind_eq,
    if_neg hnot, if_neg hnot,
    hs'.act_skip_eq (ParseState.tokens_ne_nil_of_peekKind hkind)]

theorem forgets_primary {inner : Parser Completed} (hkind : s.peekKind ≠ .eof)
    (hstarts : startsExpression s.peekKind = true) (hsign : isSign s.peekKind = false) :
    Forgets (primary inner) s := by
  have hadvance := forgets_advance (ParseState.tokens_ne_nil_of_peekKind hkind)
  refine .get (fun s' hkind => by rw [hkind]) ?_
  dsimp only
  split
  · exact hadvance.bind _
  · rename_i hname
    split
    · exact hadvance.bind _
    · rename_i hliteral
      split
      · exact hadvance.bind _
      · rename_i hparen
        simp [startsExpression, hname, hliteral, hparen, hsign] at hstarts

theorem forgets_unary {inner : Parser Completed} (hkind : s.peekKind ≠ .eof)
    (hstarts : startsExpression s.peekKind = true) : Forgets (unary inner budget) s := by
  cases budget with
  | zero => exact fun _ _ => rfl
  | succ budget =>
      rw [unary]
      refine .get (fun s' hkind => by rw [hkind]) ?_
      split
      · exact (forgets_advance (ParseState.tokens_ne_nil_of_peekKind hkind)).bind _
      · rename_i hsign
        exact (forgets_primary hkind hstarts (Bool.eq_false_iff.mpr hsign)).bind _

theorem forgets_expression (hkind : s.peekKind ≠ .eof)
    (hstarts : startsExpression s.peekKind = true) : Forgets (expression budget) s := by
  cases budget with
  | zero => exact fun _ _ => rfl
  | succ budget => exact (forgets_unary hkind hstarts).bind _

/-- In front of the end of the file, a statement reads or skips a token first. -/
theorem forgets_statement (options : ParseOptions) (hkind : s.peekKind ≠ .eof) :
    Forgets (statement options budget) s := by
  have hadvance := forgets_advance (ParseState.tokens_ne_nil_of_peekKind hkind)
  cases budget with
  | zero => exact fun _ _ => rfl
  | succ budget =>
      rw [statement]
      refine .get (fun s' hkind => by rw [hkind]) ?_
      split
      case h_6 =>
        rename_i hbrace
        have hat : s.isAt .openBrace = true := beq_iff_eq.mpr hbrace
        refine .get (fun s' hkind => by rw [ParseState.isAt_congr hkind]) ?_
        rw [if_pos hat]
        exact hadvance.bind _
      case h_11 =>
        split
        · rename_i hstarts
          exact (forgets_expression hkind hstarts).bind _
        · exact (forgets_reportAndSkip _ hkind).bind _
      all_goals exact hadvance.bind _

/-- At the end of the file there are no statements. -/
theorem run_statements_eof (inner : Parser Segment) (toBrace : Bool) (count : Nat)
    (hpeek : s.peekKind = .eof) : (statements inner toBrace (count + 1)).run s = .ok ([], s) := by
  have hat : s.isAt .eof = true := beq_iff_eq.mpr hpeek
  rw [statements]
  change (if (s.isAt .eof || _) = true then _ else _ : Parser Segment).run s = _
  rw [hat]
  rfl

/-- In front of the end of the file, a statement is read, and then the rest. -/
theorem run_statements_succ_iff {inner : Parser Segment} {count : Nat} {body : Segment}
    {t : ParseState} (hpeek : s.peekKind ≠ .eof) :
    (statements inner false (count + 1)).run s = .ok (body, t) ↔
      ∃ here mid rest, inner.run s = .ok (here, mid) ∧
        (statements inner false count).run mid = .ok (rest, t) ∧ body = here ++ rest := by
  have hnot : s.isAt .eof = false := beq_eq_false_iff_ne.mpr hpeek
  have hrun : (statements inner false (count + 1)).run s = (do
      let here ← inner
      return here ++ (← statements inner false count)).run s := by
    rw [statements]
    change (if (s.isAt .eof || _) = true then _ else _ : Parser Segment).run s = _
    rw [hnot]
    rfl
  rw [hrun, StateT.run_bind]
  constructor
  · intro h
    obtain ⟨⟨here, mid⟩, hfirst, hsecond⟩ := exists_of_bind h
    rw [StateT.run_bind] at hsecond
    obtain ⟨⟨rest, _⟩, hrest, hbody⟩ := exists_of_bind hsecond
    cases hbody
    exact ⟨here, mid, rest, hfirst, hrest, rfl⟩
  · rintro ⟨here, mid, rest, hfirst, hrest, rfl⟩
    rw [hfirst]
    change ((statements inner false count).run mid >>= _) = _
    rw [hrest]
    rfl

/-- The statements of a text do not depend on what has been read last. -/
theorem run_statements_resembles {options : ParseOptions} {count : Nat} {s' t : ParseState}
    {body : Segment} (hs' : s.Resembles s')
    (h : (statements (statement options budget) false count).run s = .ok (body, t)) :
    ∃ t', (statements (statement options budget) false count).run s' = .ok (body, t') ∧
      t.Resembles t' := by
  cases count with
  | zero => cases h
  | succ count =>
      by_cases hpeek : s.peekKind = .eof
      · rw [run_statements_eof _ _ _ hpeek] at h
        cases h
        exact ⟨s', run_statements_eof _ _ _ (hs'.peekKind_eq.trans hpeek), hs'⟩
      · have hpeek' : s'.peekKind ≠ .eof := by rwa [hs'.peekKind_eq]
        obtain ⟨here, mid, rest, hfirst, hrest, rfl⟩ := (run_statements_succ_iff hpeek).mp h
        rw [← forgets_statement options hpeek s' hs'] at hfirst
        refine ⟨t, (run_statements_succ_iff hpeek').mpr ?_, rfl, rfl, rfl⟩
        exact ⟨here, mid, rest, hfirst, hrest, rfl⟩

end Parser

/-! ## The end of the first text -/

namespace ParseState

variable {s : ParseState} {front tail : List ScannedToken} {last : ScannedToken}

/-- The next token is the same whatever comes behind a token that is still ahead. -/
theorem peek_of_tokens (h : s.tokens = front ++ last :: tail) (more : List ScannedToken) :
    { s with tokens := front ++ last :: more }.peek = s.peek := by
  cases front <;> simp [peek, h]

theorem act_read_of_tokens {t : ScannedToken} (h : s.tokens = t :: front ++ last :: tail)
    (more : List ScannedToken) :
    { s with tokens := t :: front ++ last :: more }.act .read =
      { s.act .read with tokens := front ++ last :: more } := by
  rw [act, consume, peek_of_tokens h]
  rfl

theorem diagnostics_report_ne_nil (start stop : Nat) (message : String) :
    (s.report start stop message).diagnostics ≠ [] := by
  simp [report]

end ParseState

/-- States that have a semicolon and what is in front of it in common.  Behind it, the
first one has the end of the file, and the second one other tokens.  Nothing is said about
runs that make a report. -/
def Mirror.ofSeam {last eof : ScannedToken} (hlast : last.kind = .semicolon)
    (heof : eof.kind = .eof) {more : List ScannedToken}
    (hmore : (ParseState.start more).peekKind ≠ .elseKw) : Mirror where
  distance := 0
  Ahead s s' := s.diagnostics = [] ∧ ∃ front, (∀ t ∈ front, t.kind ≠ .eof) ∧
    s.tokens = front ++ [last, eof] ∧ s' = { s with tokens := front ++ last :: more }
  Behind s s' := s.diagnostics = [] ∧ s.tokens = [eof] ∧ (ParseState.start more).Resembles s'
  Spoiled s := s.diagnostics ≠ []
  spoiled_mono := by
    intro s t hs hgrows hnil
    rw [hnil] at hgrows
    exact hs (List.prefix_nil.mp hgrows)
  peekKind := by
    rintro s _ ⟨_, front, _, htokens, rfl⟩
    rw [ParseState.peekKind, ParseState.peek_of_tokens htokens]
    rfl
  atLineBreak := by
    rintro s _ ⟨_, front, _, htokens, rfl⟩
    rw [ParseState.atLineBreak, ParseState.peek_of_tokens htokens]
    rfl
  nextToken := by
    rintro s _ ⟨_, front, _, htokens, rfl⟩
    rw [ParseState.nextToken, ParseState.peek_of_tokens htokens]
    rfl
  read := by
    rintro s _ ⟨hsilent, front, hfront, htokens, rfl⟩ hkind
    cases front with
    | nil =>
        rw [ParseState.peekKind, ParseState.peek, htokens] at hkind
        exact absurd hlast hkind
    | cons t front =>
        refine ⟨hsilent, front, (List.forall_mem_cons.mp hfront).2, ?_, ?_⟩
        · exact congrArg List.tail htokens
        · exact ParseState.act_read_of_tokens htokens more
  readSemicolon := by
    rintro s _ ⟨hsilent, front, hfront, htokens, rfl⟩ _
    cases front with
    | nil => exact .inr ⟨hsilent, congrArg List.tail htokens, rfl, rfl, hsilent⟩
    | cons t front =>
        refine .inl ⟨hsilent, front, (List.forall_mem_cons.mp hfront).2, ?_, ?_⟩
        · exact congrArg List.tail htokens
        · exact ParseState.act_read_of_tokens htokens more
  supply := fun _ _ => .inl (ParseState.diagnostics_report_ne_nil _ _ _)
  complain := fun _ _ => .inl (ParseState.diagnostics_report_ne_nil _ _ _)
  skip := fun _ _ _ => .inl (ParseState.diagnostics_report_ne_nil _ _ _)
  behind_peekKind := by
    rintro s s' ⟨_, htokens, hresembles⟩
    refine ⟨?_, ?_⟩
    · rw [ParseState.peekKind, ParseState.peek, htokens]
      exact heof
    · rw [hresembles.peekKind_eq]
      exact hmore
  behind_report := fun _ _ _ _ => ParseState.diagnostics_report_ne_nil _ _ _

section

variable {last eof : ScannedToken} {hlast : last.kind = .semicolon} {heof : eof.kind = .eof}
  {more : List ScannedToken} {hmore : (ParseState.start more).peekKind ≠ .elseKw}

/-- The end of the file is not ahead of the last common token. -/
theorem Mirror.peekKind_ne_eof_of_seam {s s' : ParseState}
    (h : (ofSeam hlast heof hmore).Ahead s s') : s.peekKind ≠ .eof := by
  obtain ⟨_, front, hfront, htokens, _⟩ := h
  rw [ParseState.peekKind, ParseState.peek, htokens]
  cases front with
  | nil =>
      rw [List.nil_append, hlast]
      decide
  | cons t front => exact hfront t List.mem_cons_self

/-- Statements that are read without a report up to the last common semicolon are read in
the same way, and then what comes behind it. -/
theorem run_statements_seam {options : ParseOptions} {budget budget' count count' : Nat}
    (hbudget : budget ≤ budget') {s s' t : ParseState} {body : Segment}
    (hahead : (Mirror.ofSeam hlast heof hmore).Ahead s s')
    (h : (statements (statement options budget) false count).run s = .ok (body, t))
    (hsilent : t.diagnostics = []) :
    ∃ u, (ParseState.start more).Resembles u ∧ ∀ behind v,
      (statements (statement options budget') false count').run u = .ok (behind, v) →
        (statements (statement options budget') false (count + count')).run s' =
          .ok (body ++ behind, v) := by
  have hinner (s : ParseState) : (Mirror.ofSeam hlast heof hmore).TracksEnd
      (statement options budget) (statement options budget') s :=
    Mirror.tracks_statement options hbudget
  induction count generalizing s s' body with
  | zero => cases h
  | succ count ih =>
      have hpeek := Mirror.peekKind_ne_eof_of_seam hahead
      have hpeek' : s'.peekKind ≠ .eof := by rwa [Mirror.peekKind _ hahead]
      obtain ⟨here, mid, rest, hfirst, hrest, rfl⟩ := (run_statements_succ_iff hpeek).mp h
      obtain ⟨hgrows, _⟩ := Mirror.closes_statements hinner false (Nat.le_refl count) _ _ hrest
      rw [hsilent] at hgrows
      obtain hspoiled | ⟨mid', hfirst', hnext⟩ := (hinner s here mid hfirst).2 s' hahead
      · exact absurd (List.prefix_nil.mp hgrows) hspoiled
      · have hstep {behind : Segment} {v : ParseState}
            (hbehind : (statements (statement options budget') false (count + count')).run mid' =
              .ok (behind, v)) :
            (statements (statement options budget') false (count + 1 + count')).run s' =
              .ok (here ++ behind, v) := by
          rw [Nat.add_right_comm]
          refine (run_statements_succ_iff hpeek').mpr ⟨_, mid', behind, hfirst', hbehind, ?_⟩
          exact congrArg (· ++ behind) (Segment.shift_zero here).symm
        rcases hnext with hnext | hnext
        · obtain ⟨u, hresembles, hu⟩ := ih hnext hrest
          refine ⟨u, hresembles, fun behind v hbehind => ?_⟩
          rw [List.append_assoc]
          exact hstep (hu behind v hbehind)
        · -- No statement is left in the first run, and the second one goes on from here.
          cases count with
          | zero => cases hrest
          | succ count =>
              rw [run_statements_eof _ _ _ (Mirror.behind_peekKind _ hnext).1] at hrest
              cases hrest
              refine ⟨mid', hnext.2.2, fun behind v hbehind => ?_⟩
              rw [List.append_nil]
              exact hstep (run_statements_mono hbehind (Nat.le_refl _) (Nat.le_add_left _ _))

end

/-! ## Two texts -/

/-- The text is scanned, and the scan has the property. -/
def Scans (P : Scan → Prop) (source : Text) : Prop :=
  ∃ scanned, scan source = .ok scanned ∧ P scanned

instance (P : Scan → Prop) [DecidablePred P] (source : Text) : Decidable (Scans P source) :=
  match h : scan source with
  | .ok scanned =>
      decidable_of_iff (P scanned)
        ⟨fun hP => ⟨scanned, h, hP⟩, fun ⟨_, hfound, hP⟩ =>
          Except.ok.inj (h.symm.trans hfound) ▸ hP⟩
  | .error _ => isFalse fun ⟨_, hfound, _⟩ => by rw [h] at hfound; cases hfound

/-- The last token in front of the end of the file is a semicolon, and the text ends with a
line break that is the end of the trivia behind it. -/
def EndsStatement (source : Text) : Prop :=
  Scans (fun scanned => ∃ last ∈ scanned.tokens.dropLast.getLast?, last.kind = .semicolon ∧
    last.fullStop = source.width ∧ last.trailing.text.getLast? = some '\n') source

instance (source : Text) : Decidable (EndsStatement source) :=
  inferInstanceAs (Decidable (Scans _ source))

/-- The first token of the text is of the kind. -/
def StartsWith (kind : Kind) (source : Text) : Prop :=
  Scans (fun scanned => ∃ first ∈ scanned.tokens.head?, first.kind = kind) source

instance (kind : Kind) (source : Text) : Decidable (StartsWith kind source) :=
  inferInstanceAs (Decidable (Scans _ source))

/-- The tree of a text with the given statements. -/
def Element.sourceUnit (statements : List Element) (eof : Token) : Element :=
  .makeNode .sourceUnit [.makeList statements, .token eof]

/-- Statements of one token sequence behind those of another one, which ends with a
semicolon and is read without a report. -/
theorem run_statements_append {options : ParseOptions} {budget budget' : Nat}
    {front tokens : List ScannedToken} {last eof : ScannedToken} {body body' : Segment}
    {t t' : ParseState} (hlast : last.kind = .semicolon) (heof : eof.kind = .eof)
    (hfront : ∀ t ∈ front, t.kind ≠ .eof)
    (helse : (ParseState.start tokens).peekKind ≠ .elseKw)
    (h : (statements (statement options budget) false budget).run
      (.start (front ++ [last, eof])) = .ok (body, t))
    (hsilent : t.diagnostics = [])
    (h' : (statements (statement options budget') false budget').run (.start tokens) =
      .ok (body', t')) (n : Nat) :
    ∃ u, (statements (statement options (budget + budget')) false (budget + budget')).run
        (.start (front ++ last :: tokens.map (ScannedToken.shift n))) =
          .ok (body ++ body'.shift n, u) ∧ (t'.shift n).Resembles u := by
  have helse' : (ParseState.start (tokens.map (ScannedToken.shift n))).peekKind ≠ .elseKw := by
    cases tokens <;> exact helse
  have hahead : (Mirror.ofSeam hlast heof helse').Ahead (.start (front ++ [last, eof]))
      (.start (front ++ last :: tokens.map (ScannedToken.shift n))) :=
    ⟨rfl, front, hfront, rfl, rfl⟩
  obtain ⟨fresh, hresembles, hseam⟩ :=
    run_statements_seam (Nat.le_add_right budget budget') hahead h hsilent
  have hshift := run_statements_shift h' (Nat.le_add_left budget' budget) (Nat.le_refl _) n
  have hfresh : ((ParseState.start tokens).shift n).Resembles fresh :=
    ⟨hresembles.tokens, hresembles.skipped, hresembles.diagnostics⟩
  obtain ⟨u, hrun, hu⟩ := run_statements_resembles hfresh hshift
  exact ⟨u, hseam _ u hrun, hu⟩

/-- What is read of the tokens of a text up to the end of the file. -/
structure UnitReading (options : ParseOptions) (tokens : List ScannedToken) where
  body : Segment
  last : ParseState
  statements : List Element
  run_eq : (Parser.statements (statement options (budget tokens.length)) false
    (budget tokens.length)).run (.start tokens) = .ok (body, last)
  peekKind : last.peekKind = .eof
  stands : body.Stands statements
  isNode : ∀ e ∈ statements, e.isNode = true

/-- All tokens are read. -/
theorem exists_unitReading (options : ParseOptions) (tokens : List ScannedToken) :
    Nonempty (UnitReading options tokens) := by
  have hbudget : (ParseState.start tokens).tokens.length + 3 < budget tokens.length :=
    Nat.lt_succ_self _
  obtain ⟨body, last, hrun, actions, es, hreads⟩ := unitStatements_succeeds options hbudget
  exact ⟨⟨body, last, es, hrun, hreads.peekKind, hreads.reading.stands,
    fun e he => Element.isNode_of_isNodeIn (hreads.statements e he)⟩⟩

theorem UnitReading.parse_eq {options : ParseOptions} {source : Text}
    {tokens : List ScannedToken} {reports : List Diagnostic} (r : UnitReading options tokens)
    (h : scan source = .ok ⟨tokens, reports⟩) :
    parse source options = .ok ⟨.sourceUnit r.statements r.last.nextLeaf,
      Diagnostic.sort (reports ++ r.last.diagnostics)⟩ :=
  parse_eq_of_statements h r.run_eq r.peekKind r.stands r.isNode

/-- The reading of tokens behind those of a sequence that ends with a semicolon and is
read without a report. -/
theorem UnitReading.exists_append {options : ParseOptions} {front tokens : List ScannedToken}
    {last eof : ScannedToken} (ra : UnitReading options (front ++ [last, eof]))
    (rb : UnitReading options tokens) (hlast : last.kind = .semicolon) (heof : eof.kind = .eof)
    (hfront : ∀ t ∈ front, t.kind ≠ .eof)
    (helse : (ParseState.start tokens).peekKind ≠ .elseKw) (hsilent : ra.last.diagnostics = [])
    (n : Nat) :
    ∃ r : UnitReading options (front ++ last :: tokens.map (ScannedToken.shift n)),
      r.statements = ra.statements ++ rb.statements ∧ (rb.last.shift n).Resembles r.last := by
  obtain ⟨u, hrun, hresembles⟩ :=
    run_statements_append hlast heof hfront helse ra.run_eq hsilent rb.run_eq n
  have hpeek : u.peekKind = .eof := by
    rw [hresembles.peekKind_eq, ParseState.peekKind_shift, rb.peekKind]
  obtain ⟨r⟩ := exists_unitReading options (front ++ last :: tokens.map (ScannedToken.shift n))
  have hrun' := r.run_eq
  obtain ⟨hbody, hstate⟩ := run_statements_det hrun' hrun
  rw [hbody, hstate] at hrun'
  refine ⟨⟨_, u, _, hrun', hpeek, ra.stands.append (rb.stands.shift n), ?_⟩, rfl, hresembles⟩
  intro e he
  exact (List.mem_append.mp he).elim (ra.isNode e) (rb.isNode e)

/-- Where the first of two texts ends with a statement and a line break, and nothing is
reported of it, and the second one does not start with an `else`, the statements of both
are those of the first and then those of the second.  The end of the file is that of the
second text, and so are the reports, which are further on by the width of the first. -/
theorem parse_append (options : ParseOptions) {a b : Text}
    (hwidth : (a ++ b).width < Offset.limit) {pa : Parse} (ha : parse a options = .ok pa)
    (hsilent : pa.diagnostics = []) (hends : EndsStatement a) (hstarts : ¬ StartsWith .elseKw b) :
    ∃ pb pab as bs eofA eof,
      parse b options = .ok pb ∧ parse (a ++ b) options = .ok pab ∧
      pa.root = .sourceUnit as eofA ∧ pb.root = .sourceUnit bs eof ∧
      pab.root = .sourceUnit (as ++ bs) eof ∧
      pab.diagnostics = pb.diagnostics.map (Diagnostic.shift a.width) := by
  obtain ⟨⟨tokensA, reportsA⟩, hscan, last, hmem, hlast, hstop, hline⟩ := hends
  obtain ⟨init, eof, rfl, heof, hinit⟩ := (Scanner.covers_of_scanFrom hscan).ends
  obtain ⟨front, rfl⟩ : ∃ front, init = front ++ [last] :=
    List.getLast?_eq_some_iff.mp (by simpa using hmem)
  rw [List.append_assoc, List.singleton_append] at hscan
  obtain ⟨ra⟩ := exists_unitReading options (front ++ [last, eof])
  obtain rfl := Except.ok.inj (ha.symm.trans (ra.parse_eq hscan))
  obtain ⟨rfl, hquiet⟩ := List.append_eq_nil_iff.mp (Diagnostic.eq_nil_of_sort hsilent)
  have hwidthB : b.width < Offset.limit := by
    rw [Text.width_append] at hwidth
    omega
  obtain ⟨⟨tokens, reports⟩, hscanB, _⟩ := scan_covers b hwidthB
  have helse : (ParseState.start tokens).peekKind ≠ .elseKw := by
    intro hkind
    cases tokens with
    | nil => cases hkind
    | cons first rest => exact hstarts ⟨_, hscanB, first, rfl, hkind⟩
  obtain ⟨rb⟩ := exists_unitReading options tokens
  obtain ⟨r, hstatements, hresembles⟩ := ra.exists_append rb hlast heof
    (fun t ht => hinit t (List.mem_append_left _ ht)) helse hquiet a.width
  refine ⟨_, _, ra.statements, rb.statements, ra.last.nextLeaf, rb.last.nextLeaf,
    rb.parse_eq hscanB, r.parse_eq (scan_append hwidth hscan hstop hline hscanB), rfl, rfl, ?_, ?_⟩
  · have hleaf : r.last.nextLeaf = rb.last.nextLeaf := by
      rw [hresembles.nextLeaf_eq, ParseState.nextLeaf_shift]
    rw [hstatements, hleaf]
  · rw [hresembles.diagnostics]
    change Diagnostic.sort (reports.map _ ++ rb.last.diagnostics.map _) = _
    rw [← List.map_append, Diagnostic.sort_map_shift]

/-- A branch that would go on with an `else`. -/
def branchSource : Text :=
  "if (x) y;\n".toList

/-- A token that starts no statement, and a declaration without a name. -/
def strayedSource : Text :=
  ") let = 'z".toList

theorem parse_append_strayedSource :
    ∃ pa pb pab as bs eofA eof,
      parse branchSource ⟨false⟩ = .ok pa ∧ parse strayedSource ⟨false⟩ = .ok pb ∧
      parse (branchSource ++ strayedSource) ⟨false⟩ = .ok pab ∧
      pa.root = .sourceUnit as eofA ∧ pb.root = .sourceUnit bs eof ∧
      pab.root = .sourceUnit (as ++ bs) eof ∧
      pab.diagnostics = pb.diagnostics.map (Diagnostic.shift branchSource.width) := by
  have hwidth : (branchSource ++ strayedSource).width < Offset.limit := by decide +kernel
  have hends : EndsStatement branchSource := by decide +kernel
  have hstarts : ¬ StartsWith .elseKw strayedSource := by decide +kernel
  have hsilent : (parse branchSource ⟨false⟩).toOption.map Parse.diagnostics = some [] := by
    decide +kernel
  cases ha : parse branchSource ⟨false⟩ with
  | error fault =>
      rw [ha] at hsilent
      cases hsilent
  | ok pa =>
      rw [ha] at hsilent
      obtain ⟨pb, pab, as, bs, eofA, eof, hresult⟩ :=
        parse_append ⟨false⟩ hwidth ha (Option.some.inj hsilent) hends hstarts
      exact ⟨pa, pb, pab, as, bs, eofA, eof, rfl, hresult⟩

end Verbatim
