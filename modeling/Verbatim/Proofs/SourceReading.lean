/-
  The parse of a whole source text.

  A text that offsets can count is scanned into tokens that tile it, its statements
  are read up to the end of the file, and the output is replayed into one tree.  A
  run keeps what the three stages agree on, so that facts about the result of a
  parse are facts about the actions and the leaves of a run.
-/
import Verbatim.Parse.Basic
import Verbatim.Proofs.StatementReading

set_option autoImplicit false

namespace Verbatim

theorem ParseState.nodes_unitRoot (last : ParseState) (es : List Element) :
    (last.unitRoot es).nodes = last.unitRoot es :: Element.nodesAll es := by
  simp [unitRoot, Element.makeNode, Element.makeList, Element.nodes, Element.nodesAll]

/-- The output of a whole text is replayed into the tree of its statements. -/
theorem ParseState.replay_unitEvents {last : ParseState} {body : Segment} {es : List Element}
    (hbody : body.Stands es) (hnodes : ∀ e ∈ es, e.isNode = true)
    (hlast : last.peekKind = .eof) : (last.unitEvents body).replay = .ok (last.unitRoot es) := by
  have htoken : last.nextToken.kind.isToken = true := by
    have hkind : last.nextToken.kind = .eof := hlast
    rw [hkind]
    rfl
  have hstands := ((hbody.list hnodes).append (Segment.stands_token htoken)).node
    (show Kind.sourceUnit.isNode = true from rfl)
  exact hstands.replay_eq rfl

/-- The three stages of a parse, one behind the other. -/
theorem parse_eq_of_replay {source : Text} {options : ParseOptions} {scanned : Scan}
    {events : Segment} {reported : List Diagnostic} {root : Element}
    (hscan : scan source = .ok scanned)
    (htokens : parseTokens scanned.tokens options = .ok (events, reported))
    (hreplay : events.replay = .ok root) :
    parse source options =
      .ok ⟨root, Diagnostic.sort (scanned.diagnostics ++ reported)⟩ := by
  unfold parse
  rw [hscan]
  simp only [bind, Except.bind, htokens, hreplay]
  rfl

/-- A text whose statements have been read up to the end of the file. -/
theorem parse_eq_of_statements {source : Text} {options : ParseOptions} {scanned : Scan}
    {body : Segment} {last : ParseState} {es : List Element} (hscan : scan source = .ok scanned)
    (hrun : (Parser.statements
        (Parser.statement options (Parser.budget scanned.tokens.length)) false
        (Parser.budget scanned.tokens.length)).run (.start scanned.tokens) = .ok (body, last))
    (hlast : last.peekKind = .eof) (hbody : body.Stands es)
    (hnodes : ∀ e ∈ es, e.isNode = true) :
    parse source options =
      .ok ⟨last.unitRoot es, Diagnostic.sort (scanned.diagnostics ++ last.diagnostics)⟩ := by
  have htokens : parseTokens scanned.tokens options =
      .ok (last.unitEvents body, last.diagnostics) := by
    unfold parseTokens
    rw [Parser.run_sourceUnit hrun hlast]
    rfl
  exact parse_eq_of_replay hscan htokens (ParseState.replay_unitEvents hbody hnodes hlast)

/-- The tokens of a source text, and the statements that are read from them. -/
structure ParseRun (source : Text) (options : ParseOptions) where
  scanned : Scan
  actions : List Action
  /-- The state in front of the end of the file. -/
  last : ParseState
  body : Segment
  statements : List Element
  scan_eq : scan source = .ok scanned
  covers : Scanner.Covers 0 source scanned
  reads : Parser.ReadsUnit (.start scanned.tokens) actions last body statements
  parseTokens_eq :
    parseTokens scanned.tokens options = .ok (last.unitEvents body, last.diagnostics)

/-- The tokens of a scan are read to the end. -/
theorem exists_parseRun_of_scan {source : Text} (options : ParseOptions) {scanned : Scan}
    (h : scan source = .ok scanned) : Nonempty (ParseRun source options) := by
  have hbudget : (ParseState.start scanned.tokens).tokens.length + 3 <
      Parser.budget scanned.tokens.length := Nat.lt_succ_self _
  obtain ⟨events, last, hrun, actions, t, body, es, hreads, rfl, rfl⟩ :=
    Parser.sourceUnit_succeeds options hbudget
  refine ⟨⟨scanned, actions, t, body, es, h, Scanner.covers_of_scanFrom h, hreads, ?_⟩⟩
  unfold parseTokens
  rw [hrun]
  rfl

/-- Every text that offsets can count is parsed. -/
theorem exists_parseRun (source : Text) (options : ParseOptions)
    (h : source.width < Offset.limit) : Nonempty (ParseRun source options) := by
  obtain ⟨scanned, hscan, _⟩ := scan_covers source h
  exact exists_parseRun_of_scan options hscan

namespace ParseRun

variable {source : Text} {options : ParseOptions} (run : ParseRun source options)

/-- The tree. -/
def root : Element :=
  run.last.unitRoot run.statements

/-- The output that the tree is replayed from. -/
def events : Segment :=
  run.last.unitEvents run.body

/-! ## Tokens -/

theorem wellFormed : ∀ t ∈ run.scanned.tokens, t.WellFormed :=
  run.covers.tiles.wellFormed

theorem textual : (ParseState.start run.scanned.tokens).Textual :=
  fun t ht => (run.wellFormed t ht).text_eq_nil_iff.mp

theorem regular : (ParseState.start run.scanned.tokens).Regular :=
  ⟨TriviaList.regular_empty, run.wellFormed⟩

/-- Only the end of the file is left when the statements have been read. -/
theorem tokens_last : run.last.tokens = [run.last.peek] := by
  have hstart : (ParseState.start run.scanned.tokens).Ended := run.covers.ends
  exact (run.reads.reading.steps.ended hstart).tokens_eq run.reads.peekKind

theorem peek_mem_last : run.last.peek ∈ run.last.tokens := by
  rw [run.tokens_last]
  exact List.mem_singleton_self _

theorem regular_last : run.last.Regular :=
  run.reads.reading.steps.regular run.regular

/-! ## The tree -/

theorem leaves_root :
    run.root.leaves = Element.leavesAll run.statements ++ [run.last.nextLeaf] := by
  simp [root, ParseState.unitRoot, Element.makeNode, Element.makeList, Element.leaves,
    Element.leavesAll]

theorem nodes_root : run.root.nodes = run.root :: Element.nodesAll run.statements :=
  ParseState.nodes_unitRoot run.last run.statements

theorem isNode_statements : ∀ e ∈ run.statements, e.isNode = true :=
  fun e he => Element.isNode_of_isNodeIn (run.reads.statements e he)

theorem balanced : run.events.Balanced :=
  (run.reads.reading.balanced.list.append (Segment.balanced_token _)).node rfl

theorem replay_eq : run.events.replay = .ok run.root :=
  ParseState.replay_unitEvents run.reads.reading.stands run.isNode_statements run.reads.peekKind

/-- The tree, and the reports of the scanner and the parser in order. -/
def result : Parse :=
  ⟨run.root, Diagnostic.sort (run.scanned.diagnostics ++ run.last.diagnostics)⟩

theorem parse_eq : parse source options = .ok run.result :=
  parse_eq_of_replay run.scan_eq run.parseTokens_eq run.replay_eq

theorem made_root : run.root.Made := by
  refine .node _ _ ?_
  simp only [List.forall_mem_cons]
  exact ⟨.list _ run.reads.reading.made, .token .., List.forall_mem_nil _⟩

end ParseRun

/-- A parse with a result is a run. -/
theorem exists_parseRun_of_parse {source : Text} {options : ParseOptions} {p : Parse}
    (h : parse source options = .ok p) : ∃ run : ParseRun source options, run.result = p := by
  obtain ⟨scanned, hscan, _⟩ := exists_of_bind h
  obtain ⟨run⟩ := exists_parseRun_of_scan options hscan
  have hresult := run.parse_eq.symm.trans h
  exact ⟨run, Except.ok.inj hresult⟩

/-- A text that asks for every kind of recovery: a token that starts no statement, a
comma and a body that are missing, a string and a comment that do not end, and a loop
in front of the end of the file. -/
def brokenSource : Text :=
  ") function f(a b) 'y\n while (é /*".toList

theorem width_brokenSource : brokenSource.width < Offset.limit := by
  decide

end Verbatim
