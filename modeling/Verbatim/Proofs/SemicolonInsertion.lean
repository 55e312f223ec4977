/-
  What the insertion of semicolons changes in the parse of a text.

  The two parses of a text read its statements side by side, so their trees differ only
  in semicolons that the source does not have.  Where a parser ends a statement, the
  last token that it has taken off the sequence is the one in front of the next one, and
  the line break between the two is recorded in the trivia of either.  Reports are put
  in order by where they start, which leaves those that both parses make in the same
  order.
-/
import Verbatim.Proofs.ReportOrder
import Verbatim.Proofs.SourceReading
import Verbatim.Proofs.TwinStatements

set_option autoImplicit false

namespace Verbatim

/-! ## Reports in order -/

/-- The reports of a scanner in front of both, and ordering, make no difference. -/
theorem AsksForSemicolons.sort {first second : List Diagnostic} {count : Nat}
    (h : AsksForSemicolons first second count) (scanned : List Diagnostic) :
    AsksForSemicolons (Diagnostic.sort (scanned ++ first)) (Diagnostic.sort (scanned ++ second))
      count := by
  obtain ⟨extra, hperm, hlength, hextra⟩ := ((AsksForSemicolons.refl scanned).append h).extra
  refine ⟨Diagnostic.sort_sublist_sort (h.sublist.append_left scanned), extra, ?_,
    by rw [hlength, Nat.zero_add], hextra⟩
  exact (Diagnostic.sort_perm _).trans
    (hperm.trans ((Diagnostic.sort_perm _).symm.append_right extra))

/-! ## The token in front -/

namespace ParseState

/-- The state is behind the first tokens of a sequence, and remembers whether a line break
follows the last of them. -/
structure Behind (tokens before : List ScannedToken) (s : ParseState) : Prop where
  tokens_eq : tokens = before ++ s.tokens
  afterLineBreak : ∀ front previous, before = front ++ [previous] →
    s.afterLineBreak = previous.trailing.flags.newline

theorem behind_start (tokens : List ScannedToken) : Behind tokens [] (start tokens) :=
  ⟨rfl, fun front previous h => by cases front <;> cases h⟩

variable {tokens before : List ScannedToken} {s : ParseState}

/-- A token that is taken off the sequence is the last one behind the state. -/
theorem Behind.consume (h : Behind tokens before s) (hpeek : s.peekKind ≠ .eof)
    (skipped : TriviaList) (ds : List Diagnostic) :
    Behind tokens (before ++ [s.peek])
      { s.consume with skipped := skipped, diagnostics := ds } := by
  refine ⟨?_, fun front previous heq => ?_⟩
  · rw [h.tokens_eq, tokens_of_peekKind_ne hpeek, List.append_assoc]
    rfl
  · have hlast := (List.append_inj' heq rfl).2
    cases hlast
    rfl

/-- A state that is not at the start of the sequence is behind a token. -/
theorem Behind.exists_previous (h : Behind tokens before s)
    (hlength : s.tokens.length < tokens.length) :
    ∃ front previous, before = front ++ [previous] := by
  rcases List.eq_nil_or_concat before with rfl | hlast
  · rw [h.tokens_eq, List.nil_append] at hlength
    exact absurd hlength (Nat.lt_irrefl _)
  · obtain ⟨front, previous, rfl⟩ := hlast
    exact ⟨front, previous, List.concat_eq_append⟩

theorem Ended.exists_next (h : s.Ended) : ∃ next rest, s.tokens = next :: rest := by
  obtain ⟨front, last, htokens, _⟩ := h
  exact List.exists_cons_of_ne_nil (by simp [htokens])

theorem Allows.exists_behind {a : Action} (ha : s.Allows a) (h : Behind tokens before s) :
    ∃ before', Behind tokens before' (s.act a) := by
  cases a with
  | read => exact ⟨_, h.consume ha _ _⟩
  | skip message => exact ⟨_, h.consume ha _ _⟩
  | supply _ _ => exact ⟨before, h.tokens_eq, h.afterLineBreak⟩
  | fill _ => exact ⟨before, h⟩
  | complain _ => exact ⟨before, h.tokens_eq, h.afterLineBreak⟩

end ParseState

theorem Steps.exists_behind {tokens before : List ScannedToken} {s t : ParseState}
    {actions : List Action} {leaves : List Token} (h : Steps s actions leaves t)
    (hs : ParseState.Behind tokens before s) : ∃ before', ParseState.Behind tokens before' t := by
  induction h generalizing before with
  | refl s => exact ⟨before, hs⟩
  | cons ha _ ih =>
      obtain ⟨before', hbehind⟩ := ha.exists_behind hs
      exact ih hbehind

/-- A parser comes to the end of a statement by actions that take tokens off. -/
theorem NodePlace.EndsIn.exists_steps {place : NodePlace} {start u : ParseState}
    (h : place.EndsIn start u) :
    ∃ actions leaves, Steps start actions leaves u ∧ u.tokens.length < start.tokens.length := by
  obtain ⟨_, _, s, _, _, _, _, _, _, hbefore, _, _, hsteps, hlength, _⟩ := h
  have hle := hbefore.length_le
  exact ⟨_, _, hbefore.trans hsteps, by omega⟩

/-- Insertion supplies a semicolon in front of the end of the file, a closing brace or a
line break that either of the tokens around it carries. -/
theorem ParseState.insertsSemicolon_iff {tokens before front rest : List ScannedToken}
    {u : ParseState} {previous next : ScannedToken} (h : Behind tokens before u)
    (hbefore : before = front ++ [previous]) (hnext : u.tokens = next :: rest) :
    u.insertsSemicolon = true ↔
      next.kind ≠ .semicolon ∧ (next.kind = .eof ∨ next.kind = .closeBrace ∨
        previous.trailing.flags.newline = true ∨ next.leading.flags.newline = true) := by
  have hpeek : u.peek = next := by rw [peek, hnext]
  have hbreak := h.afterLineBreak front previous hbefore
  simp only [insertsSemicolon, isAt, atLineBreak, peekKind, hpeek, hbreak, Bool.and_eq_true,
    Bool.not_eq_true', Bool.or_eq_true, beq_iff_eq, beq_eq_false_iff_ne, ne_eq]
  constructor
  · rintro ⟨hne, ((hprevious | hleading) | hbrace) | heof⟩
    · exact ⟨hne, .inr (.inr (.inl hprevious))⟩
    · exact ⟨hne, .inr (.inr (.inr hleading))⟩
    · exact ⟨hne, .inr (.inl hbrace)⟩
    · exact ⟨hne, .inl heof⟩
  · rintro ⟨hne, heof | hbrace | hprevious | hleading⟩
    · exact ⟨hne, .inr heof⟩
    · exact ⟨hne, .inl (.inr hbrace)⟩
    · exact ⟨hne, .inl (.inl (.inl hprevious))⟩
    · exact ⟨hne, .inl (.inl (.inr hleading))⟩

/-! ## Two parses of one text -/

/-- The tokens of a source text, and the statements that are read from them with and
without insertion. -/
structure TwinRun (source : Text) where
  scanned : Scan
  actions : List Action
  /-- The state in front of the end of the file, with insertion. -/
  last : ParseState
  /-- What has been reported there without insertion. -/
  reported : List Diagnostic
  on : Segment
  off : Segment
  statements : List Element
  statementsOff : List Element
  scan_eq : scan source = .ok scanned
  covers : Scanner.Covers 0 source scanned
  twins : Twins (.start scanned.tokens) actions last on off statements statementsOff reported
  isNode : ∀ e ∈ statements, e.isNode = true
  isNodeOff : ∀ e ∈ statementsOff, e.isNode = true
  peekKind : last.peekKind = .eof
  parseTokens_eq :
    parseTokens scanned.tokens ⟨true⟩ = .ok (last.unitEvents on, last.diagnostics)
  parseTokensOff_eq : parseTokens scanned.tokens ⟨false⟩ = .ok (last.unitEvents off, reported)

/-- Both read the statements up to the end of the file, and then the end of the file. -/
theorem Parser.sourceUnit_twins {s : ParseState} {budget : Nat} (ds : List Diagnostic)
    (hbudget : s.tokens.length + 3 < budget) :
    TwinsSucceed (sourceUnit ⟨true⟩ budget) (sourceUnit ⟨false⟩ budget) s ds fun on off t ds' =>
      ∃ u body body', ReadsTwinNodes s ds body body' u ds' ∧ u.peekKind = .eof ∧
        on = u.unitEvents body ∧ off = u.unitEvents body' ∧ t = u.act .read := by
  unfold sourceUnit
  have hinner (t : ParseState) (ht : t.tokens.length ≤ s.tokens.length) :
      ReadsStatement (statement ⟨true⟩ budget) t :=
    statement_succeeds ⟨true⟩ (by omega)
  have htwice (t : ParseState) (ht : t.tokens.length ≤ s.tokens.length) :
      ReadTwice (statement ⟨true⟩ budget) (statement ⟨false⟩ budget) t :=
    statement_twins (by omega)
  refine ((statements_twins false ds (by omega) htwice).and_succeeds
    (statements_succeeds (by omega) hinner)).bind ?_
  rintro body body' u ds' ⟨hbody, _, hstop⟩
  have hat : u.isAt .eof = true := hstop.resolve_right nofun
  have hpeek : u.peekKind = .eof := by rwa [ParseState.isAt, beq_iff_eq] at hat
  have hlast : Succeeds (expect .eof) u fun events t =>
      events = [.token u.nextToken] ∧ t = u.act .read := by
    unfold expect
    apply Succeeds.get
    rw [if_pos hat]
    exact advance_reads_next u
  refine (TwinsSucceed.of_indifferent (expect_indifferent .eof) hlast).bind ?_
  rintro _ _ _ _ ⟨rfl, ⟨rfl, rfl⟩, more, hreports, rfl⟩
  have hmore : more = [] := List.self_eq_append_right.mp hreports
  subst hmore
  rw [List.append_nil]
  exact .pure ⟨u, body, body', hbody, hpeek, rfl, rfl, rfl⟩

theorem exists_twinRun (source : Text) (h : source.width < Offset.limit) :
    Nonempty (TwinRun source) := by
  obtain ⟨scanned, hscan, hcovers⟩ := scan_covers source h
  have hbudget : (ParseState.start scanned.tokens).tokens.length + 3 <
      Parser.budget scanned.tokens.length := Nat.lt_succ_self _
  obtain ⟨on, off, t, ds', hrun, hrun', u, body, body', hbody, hpeek, rfl, rfl, rfl⟩ :=
    Parser.sourceUnit_twins [] hbudget
  obtain ⟨actions, es, ys, _, htwins, rfl, hes, hys⟩ := hbody
  refine ⟨⟨scanned, actions, u, ds', body, body', es, ys, hscan, hcovers, htwins, hes, hys, hpeek,
    ?_, ?_⟩⟩
  · unfold parseTokens
    rw [hrun]
    rfl
  · unfold parseTokens
    have hstart : ParseState.start scanned.tokens =
        (ParseState.start scanned.tokens).reporting [] := rfl
    rw [hstart, hrun']
    rfl

namespace TwinRun

variable {source : Text} (run : TwinRun source)

/-- The tree with insertion. -/
def root : Element :=
  run.last.unitRoot run.statements

/-- The tree without insertion. -/
def rootOff : Element :=
  run.last.unitRoot run.statementsOff

theorem parse_eq : parse source ⟨true⟩ =
    .ok ⟨run.root, Diagnostic.sort (run.scanned.diagnostics ++ run.last.diagnostics)⟩ :=
  parse_eq_of_replay run.scan_eq run.parseTokens_eq
    (ParseState.replay_unitEvents run.twins.stands run.isNode run.peekKind)

theorem parseOff_eq : parse source ⟨false⟩ =
    .ok ⟨run.rootOff, Diagnostic.sort (run.scanned.diagnostics ++ run.reported)⟩ :=
  parse_eq_of_replay run.scan_eq run.parseTokensOff_eq
    (ParseState.replay_unitEvents run.twins.standsOff run.isNodeOff run.peekKind)

/-- The end of the file is no semicolon, so nothing but the statements changes. -/
theorem dropAbsent_root :
    run.root.dropAbsent .semicolon = run.rootOff.dropAbsent .semicolon := by
  have heof : (Element.token run.last.nextLeaf).isAbsent .semicolon = false := by
    have hkind : run.last.nextLeaf.kind = .eof := run.peekKind
    simp [Element.isAbsent, hkind]
  have hroot (es : List Element) : (run.last.unitRoot es).dropAbsent .semicolon =
      run.last.unitRoot (Element.dropAbsentAll .semicolon es) := by
    have hlist : (Element.makeList es).isAbsent .semicolon = false := rfl
    simp only [ParseState.unitRoot, Element.makeNode, Element.dropAbsent, Element.dropAbsentAll,
      hlist, heof]
    rfl
  rw [root, rootOff, hroot, hroot, run.twins.same]

theorem closed : ∀ n ∈ run.rootOff.nodes, n.isTerminated = true → n.semicolons = 1 := by
  rw [rootOff, ParseState.nodes_unitRoot]
  exact List.forall_mem_cons.mpr ⟨nofun, run.twins.closed⟩

/-- A statement ends behind a token that has been taken off, and in front of another one. -/
theorem ends : ∀ place ∈ run.root.placesFrom [], place.node.isTerminated = true →
    ∃ u front previous next rest, place.EndsIn (.start run.scanned.tokens) u ∧
      run.scanned.tokens = front ++ previous :: next :: rest ∧ u.tokens = next :: rest ∧
      (place.node.lacksSemicolon = true ↔
        next.kind ≠ .semicolon ∧ (next.kind = .eof ∨ next.kind = .closeBrace ∨
          previous.trailing.flags.newline = true ∨ next.leading.flags.newline = true)) := by
  have hplaces : run.root.placesFrom [] =
      ⟨[], run.root⟩ :: Element.placesAllFrom [] run.statements := by
    simp [root, ParseState.unitRoot, Element.makeNode, Element.makeList, Element.placesFrom,
      Element.placesAllFrom]
  rw [hplaces]
  refine List.forall_mem_cons.mpr ⟨fun hroot => absurd hroot Bool.false_ne_true,
    fun place hplace hterminated => ?_⟩
  obtain ⟨u, hends, hlacks⟩ :=
    run.twins.ends _ [] [] (.refl _) place hplace hterminated
  obtain ⟨before, actions, hsteps, hlength⟩ := hends.exists_steps
  obtain ⟨taken, hbehind⟩ := hsteps.exists_behind (ParseState.behind_start _)
  obtain ⟨front, previous, rfl⟩ := hbehind.exists_previous hlength
  obtain ⟨next, rest, hnext⟩ := (hsteps.ended run.covers.ends).exists_next
  refine ⟨u, front, previous, next, rest, hends, ?_, hnext, ?_⟩
  · rw [hbehind.tokens_eq, hnext, List.append_assoc]
    rfl
  · rw [hlacks]
    exact ParseState.insertsSemicolon_iff hbehind rfl hnext

theorem asksForSemicolons : AsksForSemicolons
    (Diagnostic.sort (run.scanned.diagnostics ++ run.last.diagnostics))
    (Diagnostic.sort (run.scanned.diagnostics ++ run.reported))
    (run.root.nodes.countP Element.lacksSemicolon) := by
  obtain ⟨new, hnew, hasks⟩ := run.twins.reports
  have hreported : run.last.diagnostics = new := hnew
  have hcount : run.root.nodes.countP Element.lacksSemicolon =
      (Element.nodesAll run.statements).countP Element.lacksSemicolon := by
    rw [root, ParseState.nodes_unitRoot, List.countP_cons]
    rfl
  rw [hcount, hreported]
  exact hasks.sort _

end TwinRun

/-- Every text that offsets can count is parsed with and without the insertion of
semicolons.  Without the semicolons that the source does not have, the two trees are
equal.  In the second tree every statement that a semicolon ends has one; in the first
it lacks it exactly if the parser ends the statement in front of another token than a
semicolon, and that token is the end of the file or a closing brace, or a line break
stands between it and the token in front of it.  The reports of the second parse are
those of the first, in their order, and one for each statement that lacks its semicolon
in the first tree. -/
theorem parse_insertion_changes_semicolons (source : Text) (h : source.width < Offset.limit) :
    ∃ on off scanned,
      parse source ⟨true⟩ = .ok on ∧ parse source ⟨false⟩ = .ok off ∧
      scan source = .ok scanned ∧
      on.root.dropAbsent .semicolon = off.root.dropAbsent .semicolon ∧
      (∀ n ∈ off.root.nodes, n.isTerminated = true → n.semicolons = 1) ∧
      (∀ place ∈ on.root.placesFrom [], place.node.isTerminated = true →
        ∃ u front previous next rest, place.EndsIn (.start scanned.tokens) u ∧
          scanned.tokens = front ++ previous :: next :: rest ∧ u.tokens = next :: rest ∧
          (place.node.lacksSemicolon = true ↔
            next.kind ≠ .semicolon ∧ (next.kind = .eof ∨ next.kind = .closeBrace ∨
              previous.trailing.flags.newline = true ∨ next.leading.flags.newline = true))) ∧
      AsksForSemicolons on.diagnostics off.diagnostics
        (on.root.nodes.countP Element.lacksSemicolon) := by
  obtain ⟨run⟩ := exists_twinRun source h
  exact ⟨_, _, run.scanned, run.parse_eq, run.parseOff_eq, run.scan_eq, run.dropAbsent_root,
    run.closed, run.ends, run.asksForSemicolons⟩

/-- Statements that end in a semicolon, at a line break, in front of a brace, on one line
and at the end of the file. -/
def insertionSource : Text :=
  "let x = 1;\nf(x)\ny z function g() \x7b return \x7d return 'end".toList

theorem width_insertionSource : insertionSource.width < Offset.limit := by
  decide

theorem parse_insertionSource_changes_semicolons :
    insertionSource.width < Offset.limit ∧
      ∃ on off scanned,
        parse insertionSource ⟨true⟩ = .ok on ∧ parse insertionSource ⟨false⟩ = .ok off ∧
        scan insertionSource = .ok scanned ∧
        on.root.dropAbsent .semicolon = off.root.dropAbsent .semicolon ∧
        (∀ n ∈ off.root.nodes, n.isTerminated = true → n.semicolons = 1) ∧
        (∀ place ∈ on.root.placesFrom [], place.node.isTerminated = true →
          ∃ u front previous next rest, place.EndsIn (.start scanned.tokens) u ∧
            scanned.tokens = front ++ previous :: next :: rest ∧ u.tokens = next :: rest ∧
            (place.node.lacksSemicolon = true ↔
              next.kind ≠ .semicolon ∧ (next.kind = .eof ∨ next.kind = .closeBrace ∨
                previous.trailing.flags.newline = true ∨ next.leading.flags.newline = true))) ∧
        AsksForSemicolons on.diagnostics off.diagnostics
          (on.root.nodes.countP Element.lacksSemicolon) :=
  ⟨width_insertionSource, parse_insertion_changes_semicolons insertionSource width_insertionSource⟩

end Verbatim
