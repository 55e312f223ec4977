/-
  The steps of a parser, as readings.

  Each step succeeds from every state, and its result is described by the part of
  the grammar that it reads.  A loop is a pass that is repeated: if every pass that
  wants another one takes a token off the sequence, then a budget larger than the
  number of tokens is never used up.  That argument is made once, for all loops.
-/
import Verbatim.Proofs.Reading

set_option autoImplicit false

namespace Verbatim

/-- A computation in two parts has a result only if both parts have one. -/
theorem exists_of_bind {ε α β : Type} {x : Except ε α} {f : α → Except ε β} {b : β}
    (h : x >>= f = .ok b) : ∃ a, x = .ok a ∧ f a = .ok b := by
  cases x with
  | error e => cases h
  | ok a => exact ⟨a, rfl, h⟩

theorem ParseState.isAt_congr {s s' : ParseState} (h : s'.peekKind = s.peekKind) :
    s'.isAt = s.isAt := by
  unfold isAt
  rw [h]

namespace Parser

/-! ## Success -/

section

variable {α β σ : Type}

/-- The parser yields a result from the state, and the result is as described. -/
def Succeeds (p : Parser α) (s : ParseState) (post : α → ParseState → Prop) : Prop :=
  ∃ a t, p.run s = .ok (a, t) ∧ post a t

namespace Succeeds

variable {s : ParseState} {p : Parser α} {f : α → Parser β} {mid post : α → ParseState → Prop}
  {last : β → ParseState → Prop}

protected theorem pure {a : α} (h : post a s) : Succeeds (pure a) s post :=
  ⟨a, s, rfl, h⟩

protected theorem bind (h : Succeeds p s mid) (h' : ∀ a t, mid a t → Succeeds (f a) t last) :
    Succeeds (p >>= f) s last := by
  obtain ⟨a, t, hrun, hmid⟩ := h
  obtain ⟨b, u, hrun', hlast⟩ := h' a t hmid
  refine ⟨b, u, ?_, hlast⟩
  rw [StateT.run_bind, hrun]
  exact hrun'

/-- Looking at the state leaves it as it is. -/
protected theorem get {f : ParseState → Parser β} (h : Succeeds (f s) s last) :
    Succeeds (get >>= f) s last := by
  obtain ⟨b, t, hrun, hlast⟩ := h
  exact ⟨b, t, hrun, hlast⟩

theorem mono (h : Succeeds p s mid) (h' : ∀ a t, mid a t → post a t) : Succeeds p s post := by
  obtain ⟨a, t, hrun, hmid⟩ := h
  exact ⟨a, t, hrun, h' a t hmid⟩

/-- The result is the one that the parser yields. -/
theorem and_run (h : Succeeds p s post) :
    Succeeds p s fun a t => post a t ∧ p.run s = .ok (a, t) := by
  obtain ⟨a, t, hrun, hpost⟩ := h
  exact ⟨a, t, hrun, hpost, hrun⟩

end Succeeds

/-! ## Loops -/

/-- Repeats a pass as long as it asks for another one.  A pass learns the budget
that is left to it. -/
def iterate (pass : Nat → σ → Parser (σ × Bool)) : Nat → σ → Parser σ
  | 0, _ => throw .exhausted
  | budget + 1, x => do
      let (y, more) ← pass budget x
      if more then iterate pass budget y else return y

/-- The pass succeeds, and takes a token off the sequence unless the loop ends with it. -/
def Advances (pass : Parser (σ × Bool)) (s : ParseState) : Prop :=
  Succeeds pass s fun out t => out.2 = true → t.tokens.length < s.tokens.length

/-- The loop repeats the pass from the given start, and as long as fewer than
`limit` tokens are left, no pass keeps the loop going without taking a token off. -/
structure Loops (loop : Nat → Parser σ) (pass : Nat → σ → Parser (σ × Bool)) (start : σ)
    (limit : Nat) : Prop where
  eq_iterate : ∀ budget, loop budget = iterate pass budget start
  advances : ∀ (budget : Nat) (x : σ) (s : ParseState),
    s.tokens.length ≤ budget → s.tokens.length < limit → Advances (pass budget x) s

/-- A loop whose passes keep an invariant, and advance, comes to its end before the
budget does. -/
theorem iterate_succeeds {pass : Nat → σ → Parser (σ × Bool)} (inv : σ → ParseState → Prop)
    {post : σ → ParseState → Prop}
    (hpass : ∀ budget x s, inv x s → s.tokens.length ≤ budget →
      Succeeds (pass budget x) s fun out t =>
        (out.2 = true → inv out.1 t ∧ t.tokens.length < s.tokens.length) ∧
          (out.2 = false → post out.1 t)) :
    ∀ (budget : Nat) (x : σ) (s : ParseState), inv x s → s.tokens.length < budget →
      Succeeds (iterate pass budget x) s post := by
  intro budget
  induction budget with
  | zero =>
      intro x s _ hbudget
      exact absurd hbudget (Nat.not_lt_zero _)
  | succ budget ih =>
      intro x s hinv hbudget
      have hlength : s.tokens.length ≤ budget := Nat.le_of_lt_succ hbudget
      rw [iterate]
      refine (hpass budget x s hinv hlength).bind ?_
      rintro ⟨y, more⟩ t ⟨hmore, hdone⟩
      cases more with
      | true =>
          obtain ⟨hinv', hshorter⟩ := hmore rfl
          exact ih y t hinv' (Nat.lt_of_lt_of_le hshorter hlength)
      | false => exact .pure (hdone rfl)

end

/-! ## Single tokens -/

/-- What becomes of the state and of the next token when it is read. -/
theorem advance_reads_next (s : ParseState) :
    Succeeds advance s fun events t =>
      events = [.token s.nextToken] ∧ t = s.act .read :=
  ⟨_, _, rfl, rfl, rfl⟩

/-- The next token is read. -/
theorem advance_succeeds {s : ParseState} (kinds : List Kind)
    (hkinds : kinds.all Kind.isSignificant = true) (h : kinds.contains s.peekKind = true) :
    Succeeds advance s fun events t =>
      Reads s [.one (.token kinds)] events t ∧ t.tokens.length < s.tokens.length := by
  have hsignificant : s.peekKind.isSignificant = true :=
    List.all_eq_true.mp hkinds _ (List.contains_iff_mem.mp h)
  have hreading := Reading.read hsignificant
  have hlength := hreading.steps.length_eq
  have hone : [Action.read].countP Action.consumes = 1 := rfl
  refine (advance_reads_next s).mono ?_
  rintro _ _ ⟨rfl, rfl⟩
  exact ⟨⟨_, _, hreading, rfl, Part.accepts_one h⟩, by omega⟩

/-- The next token is the one of a production. -/
theorem advance_token_succeeds {s : ParseState} {kind : Kind} (hkind : kind.isSignificant = true)
    (h : s.isAt kind = true) :
    Succeeds advance s fun events t =>
      Reads s [.token kind] events t ∧ t.tokens.length < s.tokens.length := by
  rw [ParseState.isAt, beq_iff_eq] at h
  exact advance_succeeds [kind] (by simp [hkind]) (by simp [h])

/-- A token of the kind is read that the source has. -/
def ReadsPresent (kind : Kind) (s : ParseState) (events : Segment) (t : ParseState) : Prop :=
  ∃ actions c, Reading s actions t events [.token c] ∧ Quiet actions ∧ c.kind = kind ∧
    (s.Textual → c.isZeroWidth = false)

theorem ReadsPresent.reads {kind : Kind} {s t : ParseState} {events : Segment}
    (h : ReadsPresent kind s events t) : Reads s [.token kind] events t := by
  obtain ⟨actions, c, hreading, hquiet, hkind, _⟩ := h
  refine ⟨actions, _, hreading, hquiet, Part.accepts_one ?_⟩
  simp [Symbol.admits, Element.isTokenIn, hkind]

/-- The next token is one that the source has, unless it is the end of the file. -/
theorem advance_present_succeeds {s : ParseState} {kind : Kind}
    (hkind : kind.isSignificant = true) (h : s.isAt kind = true) :
    Succeeds advance s fun events t =>
      ReadsPresent kind s events t ∧ t.tokens.length < s.tokens.length := by
  rw [ParseState.isAt, beq_iff_eq] at h
  have hreading := Reading.read (h ▸ hkind)
  have hlength := hreading.steps.length_eq
  have hone : [Action.read].countP Action.consumes = 1 := rfl
  have hne : s.peekKind ≠ .eof := by
    simp only [Kind.isSignificant, Bool.and_eq_true, bne_iff_ne] at hkind
    rw [h]
    exact hkind.2
  refine (advance_reads_next s).mono ?_
  rintro _ _ ⟨rfl, rfl⟩
  exact ⟨⟨_, _, hreading, rfl, h, fun hs => hs.isZeroWidth_nextLeaf hne⟩, by omega⟩

/-- No token is missed in the words of the complaint about a body. -/
theorem expectation_ne (kind : Kind) : expectation kind ≠ statementExpected := by
  cases kind <;> decide

/-- A token is read if it comes next, and supplied otherwise. -/
theorem run_expect (s : ParseState) (kind : Kind) :
    (expect kind).run s =
      if s.isAt kind then advance.run s
      else .ok ([.missing kind], s.report s.lastEnd s.lastEnd (expectation kind)) := by
  change (if s.isAt kind = true then advance else _ : Parser Segment).run s = _
  split <;> rfl

/-- A token that does not come next is supplied. -/
theorem expect_supplies {s : ParseState} {kind : Kind} (h : s.isAt kind = false) :
    Succeeds (expect kind) s fun events t =>
      events = [.missing kind] ∧
        t = s.act (.supply kind ⟨s.lastEnd, s.lastEnd, expectation kind⟩) := by
  unfold expect
  apply Succeeds.get
  rw [if_neg (Bool.not_eq_true _ ▸ h)]
  exact ⟨_, _, rfl, rfl, rfl⟩

/-- A token is read, or supplied where the source does not have it. -/
theorem expect_succeeds (s : ParseState) {kind : Kind} (hkind : kind.isSignificant = true) :
    Succeeds (expect kind) s fun events t =>
      Reads s [.token kind] events t ∧
        (s.isAt kind = true → t.tokens.length < s.tokens.length) := by
  by_cases hat : s.isAt kind = true
  · unfold expect
    apply Succeeds.get
    rw [if_pos hat]
    refine (advance_token_succeeds hkind hat).mono ?_
    intro events t hresult
    obtain ⟨hreads, hlength⟩ := hresult
    exact ⟨hreads, fun _ => hlength⟩
  · refine (expect_supplies (Bool.not_eq_true _ ▸ hat)).mono ?_
    rintro _ _ ⟨rfl, rfl⟩
    exact ⟨.supply hkind (expectation_ne kind) (.inl ⟨rfl, rfl⟩), fun h => absurd h hat⟩

/-- A token is read if it comes next, and left out otherwise. -/
theorem eat_succeeds (s : ParseState) {kind : Kind} (hkind : kind.isSignificant = true) :
    Succeeds (eat kind) s fun events t => Reads s [.maybe (.token [kind])] events t := by
  unfold eat
  apply Succeeds.get
  by_cases hat : s.isAt kind = true
  · rw [if_pos hat]
    exact (advance_token_succeeds hkind hat).mono fun _ _ ⟨hreads, _⟩ => hreads.maybe
  · rw [if_neg hat]
    exact .pure (.left_out s _)

theorem name_succeeds (s : ParseState) :
    Succeeds name s fun events t =>
      Reads s [.token .identifier] events t ∧
        (s.isAt .identifier = true → t.tokens.length < s.tokens.length) :=
  expect_succeeds s rfl

/-- The end of a statement is a semicolon, or nothing. -/
theorem semicolon_succeeds (options : ParseOptions) (s : ParseState) :
    Succeeds (semicolon options) s fun events t =>
      Reads s [.maybe (.token [.semicolon])] events t := by
  unfold semicolon
  apply Succeeds.get
  split
  · rename_i hat
    exact (advance_token_succeeds rfl hat).mono fun _ _ ⟨hreads, _⟩ => hreads.maybe
  · split
    · exact .pure (.left_out s _)
    · exact (expect_succeeds s rfl).mono fun _ _ ⟨hreads, _⟩ => hreads.maybe

/-! ## Skipping -/

@[simp] theorem isAt_report (s : ParseState) (start stop : Nat) (message : String) (kind : Kind) :
    (s.report start stop message).isAt kind = s.isAt kind :=
  rfl

/-- Reporting the next token leaves everything but the reports as it is. -/
theorem report_succeeds (s : ParseState) (message : String) :
    Succeeds (report message) s fun _ t => t = s.report s.peek.start s.peek.stop message :=
  ⟨(), _, rfl, rfl⟩

/-- The next token is reported and skipped, unless it is the end of the file. -/
theorem run_reportAndSkip (s : ParseState) (message : String) :
    (reportAndSkip message).run s =
      if s.isAt .eof then .ok ((), s.report s.peek.start s.peek.stop message)
      else .ok ((), s.act (.skip message)) := by
  change (if s.isAt .eof = true then _ else _ : Parser Unit).run
    (s.report s.peek.start s.peek.stop message) = _
  split <;> rfl

/-- Another token than the end of the file becomes skipped text. -/
theorem reportAndSkip_succeeds {s : ParseState} (message : String) (h : s.isAt .eof = false) :
    Succeeds (reportAndSkip message) s fun _ t =>
      Reads s [] [] t ∧ t.tokens.length < s.tokens.length := by
  have hallowed : s.Allows (.skip message) := by
    rwa [ParseState.isAt, beq_eq_false_iff_ne] at h
  have hsteps := Steps.single hallowed
  have hlength := hsteps.length_eq
  have hone : [Action.skip message].countP Action.consumes = 1 := rfl
  unfold reportAndSkip
  refine (report_succeeds s message).bind ?_
  rintro _ _ rfl
  apply Succeeds.get
  rw [isAt_report, if_neg (Bool.not_eq_true _ ▸ h)]
  exact ⟨(), s.act (.skip message), rfl, ⟨_, _, .silent hsteps rfl, rfl, rfl⟩, by omega⟩

/-- The end of the file is complained about and stays. -/
theorem reportAndSkip_succeeds_eof {s : ParseState} (h : s.isAt .eof = true) :
    Succeeds (reportAndSkip statementExpected) s fun _ t => ReadsOrEnds s [] [] t := by
  have heof : s.peekKind = .eof := by rwa [ParseState.isAt, beq_iff_eq] at h
  have hsteps : Steps s [.complain statementExpected] [] (s.act (.complain statementExpected)) :=
    Steps.single ⟨heof, rfl⟩
  unfold reportAndSkip
  refine (report_succeeds s statementExpected).bind ?_
  rintro _ _ rfl
  apply Succeeds.get
  rw [isAt_report, if_pos h]
  exact .pure ⟨_, _, .silent hsteps rfl, .inr ⟨rfl, heof⟩, rfl⟩

/-- One pass of skipping. -/
def skipPass (stop : Kind → Bool) (message : String) : Parser (Unit × Bool) := do
  let s ← get
  if s.isAt .eof || stop s.peekKind || s.atLineBreak then return ((), false)
  reportAndSkip message
  return ((), true)

theorem skipUntil_eq_iterate (stop : Kind → Bool) (message : String) (budget : Nat) :
    skipUntil stop message budget = iterate (fun _ _ => skipPass stop message) budget () := by
  induction budget with
  | zero => rfl
  | succ budget ih =>
      simp only [skipUntil, iterate, skipPass, ih, bind_assoc]
      congr 1
      funext s
      split <;> simp

/-- A pass of skipping reads nothing, and takes the token off that it does not stop at. -/
theorem skipPass_succeeds (stop : Kind → Bool) (message : String) (s : ParseState) :
    Succeeds (skipPass stop message) s fun out t =>
      Reads s [] [] t ∧ (out.2 = true → t.tokens.length < s.tokens.length) := by
  unfold skipPass
  apply Succeeds.get
  split
  · exact .pure ⟨.nil s, nofun⟩
  · rename_i hstop
    simp only [Bool.or_eq_true, not_or, Bool.not_eq_true] at hstop
    refine (reportAndSkip_succeeds message hstop.1.1).bind ?_
    intro _ t hresult
    obtain ⟨hreads, hlength⟩ := hresult
    exact .pure ⟨hreads, fun _ => hlength⟩

theorem skipUntil_succeeds (stop : Kind → Bool) (message : String) {budget : Nat}
    {s : ParseState} (hbudget : s.tokens.length < budget) :
    Succeeds (skipUntil stop message budget) s fun _ t => Reads s [] [] t := by
  rw [skipUntil_eq_iterate]
  refine iterate_succeeds (fun _ t => Reads s [] [] t) ?_ budget () s (.nil s) hbudget
  intro _ _ t hread _
  refine (skipPass_succeeds stop message t).mono ?_
  rintro ⟨_, more⟩ u ⟨hmore, hlength⟩
  exact ⟨fun h => ⟨hread.append hmore, hlength h⟩, fun _ => hread.append hmore⟩

/-! ## Separated lists -/

/-- One pass over the items of a separated list: an item, and the separator behind it. -/
def separatedPass (separator : Kind) (first : Kind → Bool) (item : Parser Segment)
    (acc : Segment) : Parser (Segment × Bool) := do
  let here ← item
  let s ← get
  if s.isAt separator then
    let mark ← advance
    return (acc ++ here ++ mark, first (← get).peekKind)
  else if first s.peekKind && !s.atLineBreak then
    let mark ← expect separator
    return (acc ++ here ++ mark, true)
  else return (acc ++ here, false)

theorem iterate_separatedPass (separator : Kind) (first : Kind → Bool) (item : Parser Segment)
    (budget : Nat) (acc : Segment) :
    iterate (fun _ => separatedPass separator first item) budget acc =
      (acc ++ ·) <$> separatedItems separator first item budget := by
  induction budget generalizing acc with
  | zero => rfl
  | succ budget ih =>
      simp only [separatedItems, iterate, separatedPass, bind_assoc, map_bind]
      congr 1
      funext here
      congr 1
      funext s
      split
      · simp only [bind_assoc, map_bind, pure_bind]
        congr 1
        funext mark
        congr 1
        funext s
        split <;> simp [ih, List.append_assoc]
      · split
        · simp [ih, List.append_assoc]
        · simp

theorem separatedItems_eq_iterate (separator : Kind) (first : Kind → Bool) (item : Parser Segment)
    (budget : Nat) :
    separatedItems separator first item budget =
      iterate (fun _ => separatedPass separator first item) budget [] := by
  rw [iterate_separatedPass]
  simp

/-- The output is whole pairs of an item and a comma. -/
def Pairs (kinds : List Kind) (s : ParseState) (events : Segment) (t : ParseState) : Prop :=
  ∃ actions es, Reading s actions t events es ∧ Quiet actions ∧
    Element.alternates kinds es = true ∧ es.length % 2 = 0

/-- The output is items with commas between them, at least one item.  A comma behind the last
item is one that the source has. -/
def Alternates (kinds : List Kind) (s : ParseState) (events : Segment) (t : ParseState) : Prop :=
  ∃ actions es, Reading s actions t events es ∧ Quiet actions ∧
    Element.alternates kinds es = true ∧ es.isEmpty = false ∧
      (s.Textual → Element.EndPresent es)

theorem Pairs.item {kinds : List Kind} {s t u : ParseState} {acc here : Segment}
    (h : Pairs kinds s acc t) (hitem : Reads t [.one (.node kinds)] here u) :
    Alternates kinds s (acc ++ here) u := by
  obtain ⟨actions, es, hreading, hquiet, halternates, heven⟩ := h
  obtain ⟨bs, ys, hreading', hquiet', haccepts⟩ := hitem
  obtain ⟨e, rfl, he⟩ := Part.exists_of_accepts_one haccepts
  refine ⟨_, _, hreading.append hreading', hquiet.append hquiet', ?_, by simp, fun _ t ht => ?_⟩
  · rw [Element.alternates_append halternates heven]
    exact he
  · rw [List.getLast?_concat] at ht
    cases ht
    cases he

theorem alternates_pair {kinds : List Kind} {es : List Element} {e c : Element}
    (h : Element.alternates kinds es = true) (heven : es.length % 2 = 0)
    (he : e.isNodeIn kinds = true) (hc : c.isTokenIn [.comma] = true) :
    Element.alternates kinds (es ++ [e] ++ [c]) = true := by
  rw [List.append_assoc, Element.alternates_append h heven]
  simp [Element.alternates, he, hc]

theorem Pairs.pair {kinds : List Kind} {s t u v : ParseState} {acc here comma : Segment}
    (h : Pairs kinds s acc t) (hitem : Reads t [.one (.node kinds)] here u)
    (hcomma : Reads u [.token .comma] comma v) : Pairs kinds s (acc ++ here ++ comma) v := by
  obtain ⟨actions, es, hreading, hquiet, halternates, heven⟩ := h
  obtain ⟨bs, ys, hreading', hquiet', haccepts⟩ := hitem
  obtain ⟨cs, zs, hreading'', hquiet'', haccepts'⟩ := hcomma
  obtain ⟨e, rfl, he⟩ := Part.exists_of_accepts_one haccepts
  obtain ⟨c, rfl, hc⟩ := Part.exists_of_accepts_one haccepts'
  refine ⟨_, _, (hreading.append hreading').append hreading'',
    (hquiet.append hquiet').append hquiet'', alternates_pair halternates heven he hc, ?_⟩
  rw [List.length_append, List.length_append]
  simp only [List.length_singleton]
  omega

/-- The list may end behind a comma that is read. -/
theorem Pairs.alternates {kinds : List Kind} {s t u v : ParseState} {acc here comma : Segment}
    (h : Pairs kinds s acc t) (hitem : Reads t [.one (.node kinds)] here u)
    (hcomma : ReadsPresent .comma u comma v) : Alternates kinds s (acc ++ here ++ comma) v := by
  obtain ⟨actions, es, hreading, hquiet, halternates, heven⟩ := h
  obtain ⟨bs, ys, hreading', hquiet', haccepts⟩ := hitem
  obtain ⟨cs, c, hreading'', hquiet'', hkind, hpresent⟩ := hcomma
  obtain ⟨e, rfl, he⟩ := Part.exists_of_accepts_one haccepts
  have hc : Element.isTokenIn [.comma] (.token c) = true := by simp [Element.isTokenIn, hkind]
  have hfront := hreading.append hreading'
  refine ⟨_, _, hfront.append hreading'', (hquiet.append hquiet').append hquiet'',
    alternates_pair halternates heven he hc, by simp, fun hs t ht => ?_⟩
  rw [List.getLast?_concat] at ht
  cases ht
  exact hpresent (hfront.steps.textual hs)

/-- The items of a list can be read from the state. -/
def ReadsItem (kinds : List Kind) (first : Kind → Bool) (item : Parser Segment) (s : ParseState) :
    Prop :=
  Succeeds item s fun events t =>
    Reads s [.one (.node kinds)] events t ∧
      (first s.peekKind = true → t.tokens.length < s.tokens.length)

/-- A pass over the items takes a token off, or is the last one: where it supplies a
comma, an item comes next, and that was not so before the pass. -/
theorem separatedPass_succeeds {kinds : List Kind} {first : Kind → Bool} {item : Parser Segment}
    {t : ParseState} (acc : Segment) (hitem : ReadsItem kinds first item t) :
    Succeeds (separatedPass .comma first item acc) t fun out u =>
      (out.2 = true → u.tokens.length < t.tokens.length) ∧
        ∀ s, Pairs kinds s acc t →
          (out.2 = true → Pairs kinds s out.1 u) ∧
            (out.2 = false → Alternates kinds s out.1 u) := by
  unfold separatedPass
  refine hitem.bind ?_
  intro here u hresult
  obtain ⟨hhere, hprogress⟩ := hresult
  have hle := hhere.length_le
  apply Succeeds.get
  split
  · rename_i hat
    refine (advance_present_succeeds rfl hat).bind ?_
    intro comma v hresult
    obtain ⟨hcomma, hlength⟩ := hresult
    refine .get (.pure ⟨fun _ => by omega, fun s hacc => ?_⟩)
    exact ⟨fun _ => hacc.pair hhere hcomma.reads, fun _ => hacc.alternates hhere hcomma⟩
  · split
    · rename_i hfirst
      simp only [Bool.and_eq_true] at hfirst
      have hlt : u.tokens.length < t.tokens.length := by
        by_cases hsame : u.peekKind = t.peekKind
        · exact hprogress (hsame ▸ hfirst.1)
        · exact hhere.length_lt_of_peekKind_ne hsame
      refine (expect_succeeds u rfl).bind ?_
      intro comma v hresult
      obtain ⟨hcomma, _⟩ := hresult
      have hle' := hcomma.length_le
      exact .pure ⟨fun _ => by omega, fun s hacc => ⟨fun _ => hacc.pair hhere hcomma, nofun⟩⟩
    · exact .pure ⟨nofun, fun s hacc => ⟨nofun, fun _ => hacc.item hhere⟩⟩

theorem separatedItems_succeeds {kinds : List Kind} {first : Kind → Bool} {item : Parser Segment}
    {s : ParseState} {budget : Nat} (hbudget : s.tokens.length < budget)
    (hitem : ∀ t : ParseState, t.tokens.length ≤ s.tokens.length →
      ReadsItem kinds first item t) :
    Succeeds (separatedItems .comma first item budget) s fun events t =>
      Alternates kinds s events t := by
  rw [separatedItems_eq_iterate]
  refine iterate_succeeds (Pairs kinds s) ?_ budget [] s ⟨[], [], .nil s, quiet_nil, rfl, rfl⟩
    hbudget
  intro _ acc t hacc _
  have hle : t.tokens.length ≤ s.tokens.length := by
    obtain ⟨_, _, hreading, _⟩ := hacc
    exact hreading.steps.length_le
  refine (separatedPass_succeeds acc (hitem t hle)).mono ?_
  rintro ⟨out, more⟩ u ⟨hprogress, hout⟩
  obtain ⟨hpairs, halternates⟩ := hout s hacc
  exact ⟨fun hmore => ⟨hpairs hmore, hprogress hmore⟩, halternates⟩

/-- A separated list is read, with at least one item if one is required. -/
theorem separated_succeeds {kinds : List Kind} {first : Kind → Bool} (required : Bool)
    {item : Parser Segment} {s : ParseState} {budget : Nat} (hbudget : s.tokens.length < budget)
    (hitem : ∀ t : ParseState, t.tokens.length ≤ s.tokens.length →
      ReadsItem kinds first item t) :
    Succeeds (separated .comma first required item budget) s fun events t =>
      Reads s [.one (.separated kinds required)] events t := by
  unfold separated
  apply Succeeds.get
  split
  · refine (separatedItems_succeeds hbudget hitem).bind ?_
    intro events t hresult
    obtain ⟨actions, es, hreading, hquiet, halternates, hsome, hend⟩ := hresult
    refine .pure ⟨actions, _, hreading.separated halternates hend, hquiet, Part.accepts_one ?_⟩
    simp [Symbol.admits, halternates, hsome]
  · rename_i hempty
    simp only [Bool.or_eq_true, not_or, Bool.not_eq_true] at hempty
    have hnone : Element.alternates kinds [] = true := rfl
    have hend : Element.EndPresent [] := fun t ht => by simp at ht
    refine .pure ⟨[], _, (Reading.nil s).separated hnone fun _ => hend, quiet_nil,
      Part.accepts_one ?_⟩
    simp [Symbol.admits, hnone, hempty.1]

end Parser

end Verbatim
