/-
  What it means for a production to read a part of the grammar.

  A reading ties the three sides of a run together: the actions that lead from one
  parser state to the next, the output, and the elements that the output stands
  for.  The leaves of the elements are the tokens that the actions put into the
  tree, every node conforms to the production of its kind, operators are nested by
  precedence, a token is supplied without a report exactly once for each block that
  lacks its opening brace, and no separated list ends in a separator that is supplied.
  Readings of neighbours make a reading of both, and a reading of a production
  makes a reading of one node, so each parser function is read off its body.
-/
import Verbatim.Proofs.EventReplay
import Verbatim.Proofs.ParserSteps
import Verbatim.Proofs.Precedence

set_option autoImplicit false

namespace Verbatim

/-- Nodes of the kind are neither blocks nor have operands. -/
def Kind.isPlain (k : Kind) : Bool :=
  k != .block && !Grammar.operations.contains k

theorem Grammar.isPlain_of_terminated {kind : Kind} (h : terminated.contains kind = true) :
    kind.isPlain = true := by
  revert h
  cases kind <;> first | exact fun _ => rfl | nofun

/-! ## Separators at the end -/

/-- Where the elements end in a token, it is one that the source has. -/
def Element.EndPresent (es : List Element) : Prop :=
  ∀ t, es.getLast? = some (.token t) → t.isZeroWidth = false

/-- No separated list of the subtree ends in a separator that the source does not have. -/
inductive Element.SeparatorsEndPresent : Element → Prop
  | token (t : Token) : SeparatorsEndPresent (.token t)
  | node (kind : Kind) (measure : Measure) {children : List Element} :
      (∀ c ∈ children, SeparatorsEndPresent c) →
        SeparatorsEndPresent (.node kind measure children)
  | list (measure : Measure) {nodes : List Element} :
      (∀ c ∈ nodes, SeparatorsEndPresent c) → SeparatorsEndPresent (.list measure nodes)
  | separated (measure : Measure) {slots : List Element} :
      (∀ c ∈ slots, SeparatorsEndPresent c) → EndPresent slots →
        SeparatorsEndPresent (.separated measure slots)

theorem Element.SeparatorsEndPresent.children {e : Element} (h : e.SeparatorsEndPresent) :
    ∀ c ∈ e.children, c.SeparatorsEndPresent := by
  cases h with
  | token t => exact List.forall_mem_nil _
  | node kind measure hchildren => exact hchildren
  | list measure hnodes => exact hnodes
  | separated measure hslots hend => exact hslots

theorem Element.SeparatorsEndPresent.endPresent {measure : Measure} {slots : List Element}
    (h : SeparatorsEndPresent (.separated measure slots)) : EndPresent slots := by
  cases h with
  | separated _ hslots hend => exact hend

/-- Only the end of the file lacks text, so any other token that is read is there. -/
theorem ParseState.Textual.isZeroWidth_nextLeaf {s : ParseState} (hs : s.Textual)
    (h : s.peekKind ≠ .eof) : s.nextLeaf.isZeroWidth = false := by
  have htext : s.peek.text ≠ [] := fun hempty =>
    h (hs s.peek (peek_mem_of_peekKind_ne h) hempty)
  simp [Token.isZeroWidth, nextLeaf, Token.make, htext]

/-! ## Readings -/

/-- Actions, output and elements of one run. -/
structure Reading (s : ParseState) (actions : List Action) (t : ParseState) (events : Segment)
    (es : List Element) : Prop where
  steps : Steps s actions (Element.leavesAll es) t
  stands : events.Stands es
  balanced : events.Balanced
  made : ∀ e ∈ es, e.Made
  conforms : ∀ n ∈ Element.nodesAll es, n.conforms = true
  nested : ∀ n ∈ Element.nodesAll es, n.nested = true
  fills : s.Textual →
    actions.countP Action.isFill = (Element.nodesAll es).countP Element.lacksBrace
  supplied : actions.countP Action.isFill ≤ actions.countP Action.isSupply
  endsPresent : s.Textual → ∀ e ∈ es, e.SeparatorsEndPresent

namespace Reading

variable {s t u : ParseState} {actions bs : List Action} {events inner : Segment}
  {es ys : List Element}

theorem nil (s : ParseState) : Reading s [] s [] [] where
  steps := .refl s
  stands := Segment.stands_nil
  balanced := Segment.balanced_nil
  made := List.forall_mem_nil _
  conforms := List.forall_mem_nil _
  nested := List.forall_mem_nil _
  fills := fun _ => rfl
  supplied := Nat.le_refl _
  endsPresent := fun _ => List.forall_mem_nil _

theorem append (h : Reading s actions t events es) (h' : Reading t bs u inner ys) :
    Reading s (actions ++ bs) u (events ++ inner) (es ++ ys) where
  steps := by
    rw [Element.leavesAll_append]
    exact h.steps.trans h'.steps
  stands := h.stands.append h'.stands
  balanced := h.balanced.append h'.balanced
  made := List.forall_mem_append.mpr ⟨h.made, h'.made⟩
  conforms := by
    rw [Element.nodesAll_append]
    exact List.forall_mem_append.mpr ⟨h.conforms, h'.conforms⟩
  nested := by
    rw [Element.nodesAll_append]
    exact List.forall_mem_append.mpr ⟨h.nested, h'.nested⟩
  fills := by
    intro hs
    rw [List.countP_append, Element.nodesAll_append, List.countP_append, h.fills hs,
      h'.fills (h.steps.textual hs)]
  supplied := by
    have hs := h.supplied
    have hs' := h'.supplied
    rw [List.countP_append, List.countP_append]
    omega
  endsPresent := fun hs =>
    List.forall_mem_append.mpr ⟨h.endsPresent hs, h'.endsPresent (h.steps.textual hs)⟩

/-- Kinds with a production label nodes. -/
theorem isNode_of_production {kind : Kind} {parts : List Part}
    (h : Grammar.production kind = some parts) : kind.isNode = true := by
  revert h
  cases kind <;> first | exact fun _ => rfl | nofun

/-- The children of a production make a node. -/
theorem node (h : Reading s actions t inner es) {kind : Kind} {parts : List Part}
    (hkind : Grammar.production kind = some parts) (haccepts : Part.accepts parts es = true)
    (hnested : (Element.makeNode kind es).nested = true)
    (hbrace : s.Textual → (Element.makeNode kind es).lacksBrace = false) :
    Reading s actions t (Segment.node kind inner) [.makeNode kind es] where
  steps := by
    rw [Element.leavesAll_singleton]
    exact h.steps
  stands := h.stands.node (isNode_of_production hkind)
  balanced := h.balanced.node (isNode_of_production hkind)
  made := List.forall_mem_singleton.mpr (.node kind es h.made)
  conforms := by
    rw [Element.nodesAll_singleton]
    refine List.forall_mem_cons.mpr ⟨?_, h.conforms⟩
    simp only [Element.conforms, Element.kind, hkind]
    exact haccepts
  nested := by
    rw [Element.nodesAll_singleton]
    exact List.forall_mem_cons.mpr ⟨hnested, h.nested⟩
  fills := by
    intro hs
    rw [Element.nodesAll_singleton, Element.makeNode, Element.nodes, List.countP_cons, h.fills hs,
      ← Element.makeNode, hbrace hs]
    rfl
  supplied := h.supplied
  endsPresent := fun hs => List.forall_mem_singleton.mpr (.node _ _ (h.endsPresent hs))

/-- Nodes of most kinds ask nothing of their children but the production. -/
theorem plainNode (h : Reading s actions t inner es) {kind : Kind} {parts : List Part}
    (hkind : Grammar.production kind = some parts) (haccepts : Part.accepts parts es = true)
    (hplain : kind.isPlain = true) :
    Reading s actions t (Segment.node kind inner) [.makeNode kind es] := by
  simp only [Kind.isPlain, Bool.and_eq_true, bne, Bool.not_eq_true'] at hplain
  exact h.node hkind haccepts (Element.nested_of_not_operation hplain.2 es)
    fun _ => Element.lacksBrace_makeNode hplain.1 es

/-- Nodes make a list. -/
theorem list (h : Reading s actions t inner es) (hnodes : ∀ e ∈ es, e.isNode = true) :
    Reading s actions t (Segment.list inner) [.makeList es] where
  steps := by
    rw [Element.leavesAll_singleton]
    exact h.steps
  stands := h.stands.list hnodes
  balanced := h.balanced.list
  made := List.forall_mem_singleton.mpr (.list es h.made)
  conforms := by
    rw [Element.nodesAll_singleton]
    exact h.conforms
  nested := by
    rw [Element.nodesAll_singleton]
    exact h.nested
  fills := by
    rw [Element.nodesAll_singleton]
    exact h.fills
  supplied := h.supplied
  endsPresent := fun hs => List.forall_mem_singleton.mpr (.list _ (h.endsPresent hs))

/-- Nodes and commas in turn make a separated list. -/
theorem separated (h : Reading s actions t inner es) {kinds : List Kind}
    (halternate : Element.alternates kinds es = true) (hend : s.Textual → Element.EndPresent es) :
    Reading s actions t (Segment.separated inner) [.separated (Element.measureAll es) es] where
  steps := by
    rw [Element.leavesAll_singleton]
    exact h.steps
  stands := h.stands.separated (Element.isSlot_of_alternates halternate)
    (Element.checkSlots_of_alternates halternate rfl)
  balanced := h.balanced.separated
  made := List.forall_mem_singleton.mpr (.separated es h.made)
  conforms := by
    rw [Element.nodesAll_singleton]
    exact h.conforms
  nested := by
    rw [Element.nodesAll_singleton]
    exact h.nested
  fills := by
    rw [Element.nodesAll_singleton]
    exact h.fills
  supplied := h.supplied
  endsPresent := fun hs =>
    List.forall_mem_singleton.mpr (.separated _ (h.endsPresent hs) (hend hs))

/-- The next token is read. -/
theorem read {s : ParseState} (h : s.peekKind.isSignificant = true) :
    Reading s [.read] (s.act .read) [.token s.nextToken] [.token s.nextLeaf] := by
  simp only [Kind.isSignificant, Bool.and_eq_true, bne_iff_ne] at h
  exact
    { steps := Steps.single (a := .read) h.2
      stands := Segment.stands_token h.1
      balanced := Segment.balanced_token _
      made := List.forall_mem_singleton.mpr (.token ..)
      conforms := List.forall_mem_nil _
      nested := List.forall_mem_nil _
      fills := fun _ => rfl
      supplied := Nat.le_refl _
      endsPresent := fun _ => List.forall_mem_singleton.mpr (.token _) }

/-- A token is supplied, with a report behind the last token or at the next one. -/
theorem supply {s : ParseState} {kind : Kind} (hkind : kind.isSignificant = true) {d : Diagnostic}
    (hmessage : d.message ≠ statementExpected)
    (hrange : (d.start = s.lastEnd ∧ d.stop = s.lastEnd) ∨
      (d.start = s.peek.start ∧ d.stop = s.peek.stop)) :
    Reading s [.supply kind d] (s.act (.supply kind d)) [.missing kind]
      [.token (.standIn kind)] := by
  simp only [Kind.isSignificant, Bool.and_eq_true, bne_iff_ne] at hkind
  exact
    { steps := Steps.single (a := .supply kind d) ⟨hkind.2, hmessage, hrange⟩
      stands := Segment.stands_missing hkind.1
      balanced := Segment.balanced_missing kind
      made := List.forall_mem_singleton.mpr (.token ..)
      conforms := List.forall_mem_nil _
      nested := List.forall_mem_nil _
      fills := fun _ => rfl
      supplied := Nat.zero_le _
      endsPresent := fun _ => List.forall_mem_singleton.mpr (.token _) }

/-- The empty block that stands in for one that does not start.  Its closing brace
is the one token that is supplied without a report. -/
theorem emptyBlock {s : ParseState} {d : Diagnostic}
    (h : s.Allows (.supply .openBrace d)) :
    Reading s [.supply .openBrace d, .fill .closeBrace] (s.act (.supply .openBrace d))
      (Segment.node .block ([.missing .openBrace] ++ Segment.list [] ++ [.missing .closeBrace]))
      [.makeNode .block [.token (.standIn .openBrace), .makeList [],
        .token (.standIn .closeBrace)]] where
  steps := Steps.cons h (Steps.single (a := .fill .closeBrace) nofun)
  stands := (((Segment.stands_missing rfl).append
    (Segment.stands_nil.list (List.forall_mem_nil _))).append (Segment.stands_missing rfl)).node rfl
  balanced := (((Segment.balanced_missing _).append Segment.balanced_nil.list).append
    (Segment.balanced_missing _)).node rfl
  made := by
    refine List.forall_mem_singleton.mpr (.node _ _ ?_)
    simp only [List.forall_mem_cons]
    exact ⟨.token .., .list _ (List.forall_mem_nil _), .token .., List.forall_mem_nil _⟩
  conforms := List.forall_mem_singleton.mpr rfl
  nested := List.forall_mem_singleton.mpr rfl
  fills := fun _ => rfl
  supplied := Nat.le_refl _
  endsPresent := by
    intro _
    refine List.forall_mem_singleton.mpr (.node _ _ ?_)
    simp only [List.forall_mem_cons]
    exact ⟨.token _, .list _ (List.forall_mem_nil _), .token _, List.forall_mem_nil _⟩

/-- Actions that leave the tree alone. -/
theorem silent (h : Steps s actions [] t) (hfills : actions.countP Action.isFill = 0) :
    Reading s actions t [] [] where
  steps := h
  stands := Segment.stands_nil
  balanced := Segment.balanced_nil
  made := List.forall_mem_nil _
  conforms := List.forall_mem_nil _
  nested := List.forall_mem_nil _
  fills := fun _ => hfills
  supplied := by omega
  endsPresent := fun _ => List.forall_mem_nil _

end Reading

/-! ## Readings of a pattern

The actions and the elements of a run do not matter to the productions around it:
what they need to know is which parts of a pattern the output fills, and whether
the run may have complained about the end of the file. -/

/-- The output fills the parts, and the run does not complain. -/
def Reads (s : ParseState) (parts : List Part) (events : Segment) (t : ParseState) : Prop :=
  ∃ actions es, Reading s actions t events es ∧ Quiet actions ∧ Part.accepts parts es = true

/-- The output fills the parts, and the run has complained only if the file is at its end. -/
def ReadsOrEnds (s : ParseState) (parts : List Part) (events : Segment) (t : ParseState) : Prop :=
  ∃ actions es, Reading s actions t events es ∧ Settled actions t ∧
    Part.accepts parts es = true

namespace Reads

variable {s t u : ParseState} {parts qs : List Part} {events inner : Segment}

theorem length_le (h : Reads s parts events t) : t.tokens.length ≤ s.tokens.length := by
  obtain ⟨_, _, hreading, _⟩ := h
  exact hreading.steps.length_le

/-- Another token comes next only if a token has been taken off the sequence. -/
theorem length_lt_of_peekKind_ne (h : Reads s parts events t) (hne : t.peekKind ≠ s.peekKind) :
    t.tokens.length < s.tokens.length := by
  obtain ⟨_, _, hreading, _⟩ := h
  exact Nat.lt_of_le_of_ne hreading.steps.length_le
    fun hlength => hne (hreading.steps.peekKind_eq hlength)

theorem nil (s : ParseState) : Reads s [] [] s :=
  ⟨[], [], .nil s, quiet_nil, rfl⟩

theorem append (h : Reads s parts events t) (h' : Reads t qs inner u) :
    Reads s (parts ++ qs) (events ++ inner) u := by
  obtain ⟨actions, es, hreading, hquiet, haccepts⟩ := h
  obtain ⟨bs, ys, hreading', hquiet', haccepts'⟩ := h'
  exact ⟨_, _, hreading.append hreading', hquiet.append hquiet',
    Part.accepts_append haccepts haccepts'⟩

/-- A place that may be left out is left out. -/
theorem left_out (s : ParseState) (symbol : Symbol) : Reads s [.maybe symbol] [] s :=
  ⟨[], [], .nil s, quiet_nil, rfl⟩

/-- A place that may be left out is filled. -/
theorem maybe {symbol : Symbol} (h : Reads s [.one symbol] events t) :
    Reads s [.maybe symbol] events t := by
  obtain ⟨actions, es, hreading, hquiet, haccepts⟩ := h
  exact ⟨actions, es, hreading, hquiet, Part.accepts_maybe haccepts⟩

theorem token_of_mem {kind : Kind} {kinds : List Kind} (h : Reads s [.token kind] events t)
    (hmem : kinds.contains kind = true) : Reads s [.one (.token kinds)] events t := by
  obtain ⟨actions, es, hreading, hquiet, haccepts⟩ := h
  exact ⟨actions, es, hreading, hquiet, Part.accepts_token_of_mem hmem haccepts⟩

/-- A token is supplied, with a report behind the last token or at the next one. -/
theorem supply {kind : Kind} (hkind : kind.isSignificant = true) {d : Diagnostic}
    (hmessage : d.message ≠ statementExpected)
    (hrange : (d.start = s.lastEnd ∧ d.stop = s.lastEnd) ∨
      (d.start = s.peek.start ∧ d.stop = s.peek.stop)) :
    Reads s [.token kind] [.missing kind] (s.act (.supply kind d)) := by
  have hadmits : Symbol.admits (.token [kind]) (.token (.standIn kind)) = true := by
    simp [Symbol.admits, Element.isTokenIn, Token.standIn, Token.make]
  exact ⟨_, _, Reading.supply hkind hmessage hrange, rfl, Part.accepts_one hadmits⟩

/-- The parts of a production make a node. -/
theorem node (h : Reads s parts inner t) {kind : Kind}
    (hkind : Grammar.production kind = some parts) (hplain : kind.isPlain = true) :
    Reads s [.node kind] (Segment.node kind inner) t := by
  obtain ⟨actions, es, hreading, hquiet, haccepts⟩ := h
  exact ⟨actions, _, hreading.plainNode hkind haccepts hplain, hquiet, Part.accepts_node kind es⟩

end Reads

namespace ReadsOrEnds

variable {s t u : ParseState} {parts qs : List Part} {events inner : Segment}

theorem of_reads (h : Reads s parts events t) : ReadsOrEnds s parts events t := by
  obtain ⟨actions, es, hreading, hquiet, haccepts⟩ := h
  exact ⟨actions, es, hreading, hquiet.settled t, haccepts⟩

theorem length_le (h : ReadsOrEnds s parts events t) : t.tokens.length ≤ s.tokens.length := by
  obtain ⟨_, _, hreading, _⟩ := h
  exact hreading.steps.length_le

/-- A run that is not at the end of the file has not complained about it. -/
theorem reads (h : ReadsOrEnds s parts events t) (ht : t.peekKind ≠ .eof) :
    Reads s parts events t := by
  obtain ⟨actions, es, hreading, hsettled, haccepts⟩ := h
  exact ⟨actions, es, hreading, hsettled.quiet ht, haccepts⟩

theorem append_left (h : Reads s parts events t) (h' : ReadsOrEnds t qs inner u) :
    ReadsOrEnds s (parts ++ qs) (events ++ inner) u := by
  obtain ⟨actions, es, hreading, hquiet, haccepts⟩ := h
  obtain ⟨bs, ys, hreading', hsettled', haccepts'⟩ := h'
  exact ⟨_, _, hreading.append hreading', hquiet.append_settled hsettled',
    Part.accepts_append haccepts haccepts'⟩

theorem append_right (h : ReadsOrEnds s parts events t) (h' : Reads t qs inner u) :
    ReadsOrEnds s (parts ++ qs) (events ++ inner) u := by
  obtain ⟨actions, es, hreading, hsettled, haccepts⟩ := h
  obtain ⟨bs, ys, hreading', hquiet', haccepts'⟩ := h'
  exact ⟨_, _, hreading.append hreading', hsettled.append_quiet hreading'.steps hquiet',
    Part.accepts_append haccepts haccepts'⟩

/-- At the end of the file no second complaint may follow the first. -/
theorem append (h : ReadsOrEnds s parts events t) (h' : ReadsOrEnds t qs inner u)
    (hquiet : t.peekKind = .eof → Reads t qs inner u) :
    ReadsOrEnds s (parts ++ qs) (events ++ inner) u := by
  by_cases ht : t.peekKind = .eof
  · exact h.append_right (hquiet ht)
  · exact append_left (h.reads ht) h'

theorem maybe {symbol : Symbol} (h : ReadsOrEnds s [.one symbol] events t) :
    ReadsOrEnds s [.maybe symbol] events t := by
  obtain ⟨actions, es, hreading, hsettled, haccepts⟩ := h
  exact ⟨actions, es, hreading, hsettled, Part.accepts_maybe haccepts⟩

theorem node_of_mem {kind : Kind} {kinds : List Kind} (h : ReadsOrEnds s [.node kind] events t)
    (hmem : kinds.contains kind = true) : ReadsOrEnds s [.one (.node kinds)] events t := by
  obtain ⟨actions, es, hreading, hsettled, haccepts⟩ := h
  exact ⟨actions, es, hreading, hsettled, Part.accepts_node_of_mem hmem haccepts⟩

theorem node (h : ReadsOrEnds s parts inner t) {kind : Kind}
    (hkind : Grammar.production kind = some parts) (hplain : kind.isPlain = true) :
    ReadsOrEnds s [.node kind] (Segment.node kind inner) t := by
  obtain ⟨actions, es, hreading, hsettled, haccepts⟩ := h
  exact ⟨actions, _, hreading.plainNode hkind haccepts hplain, hsettled,
    Part.accepts_node kind es⟩

/-- A brace that is read is there. -/
theorem isAbsent_nextLeaf {s : ParseState} (h : s.isAt .openBrace = true) (hs : s.Textual) :
    (Element.token s.nextLeaf).isAbsent .openBrace = false := by
  rw [ParseState.isAt, beq_iff_eq] at h
  have hne : s.peekKind ≠ .eof := by
    rw [h]
    decide
  rw [Element.isAbsent, hs.isZeroWidth_nextLeaf hne, Bool.and_false]

/-- A block that starts with the brace that comes next. -/
theorem block (h : s.isAt .openBrace = true)
    (hrest : ReadsOrEnds (s.act .read) [.one (.list Grammar.statements), .token .closeBrace] inner
      t) :
    ReadsOrEnds s [.node .block] (Segment.node .block ([.token s.nextToken] ++ inner)) t := by
  obtain ⟨actions, es, hreading, hsettled, haccepts⟩ := hrest
  have hkind : s.peekKind = .openBrace := by rwa [ParseState.isAt, beq_iff_eq] at h
  have hopening := Reading.read (s := s) (by rw [hkind]; rfl)
  have hadmits : Symbol.admits (.token [.openBrace]) (.token s.nextLeaf) = true := by
    have hleaf : s.nextLeaf.kind = .openBrace := hkind
    simp [Symbol.admits, Element.isTokenIn, hleaf]
  refine ⟨_, _, (hopening.append hreading).node rfl
    (Part.accepts_append (Part.accepts_one hadmits) haccepts)
    (Element.nested_of_not_operation rfl _) ?_, ?_, Part.accepts_node _ _⟩
  · intro hs
    exact (Element.lacksBrace_block haccepts).trans (isAbsent_nextLeaf h hs)
  · have hquiet : Quiet [.read] := rfl
    exact hquiet.append_settled hsettled

end ReadsOrEnds

/-! ## Readings of a sequence of nodes -/

/-- The output is nodes of the kinds, and the run has complained only if the file is
at its end. -/
def ReadsMany (kinds : List Kind) (s : ParseState) (events : Segment) (t : ParseState) : Prop :=
  ∃ actions es, Reading s actions t events es ∧ Settled actions t ∧
    ∀ e ∈ es, e.isNodeIn kinds = true

namespace ReadsMany

variable {s t u : ParseState} {kinds : List Kind} {events inner : Segment}

theorem nil (s : ParseState) : ReadsMany kinds s [] s :=
  ⟨[], [], .nil s, quiet_nil.settled s, List.forall_mem_nil _⟩

theorem length_le (h : ReadsMany kinds s events t) : t.tokens.length ≤ s.tokens.length := by
  obtain ⟨_, _, hreading, _⟩ := h
  exact hreading.steps.length_le

/-- In front of the end of the file another node can be read. -/
theorem append (h : ReadsMany kinds s events t) (ht : t.peekKind ≠ .eof)
    (h' : ReadsOrEnds t [.maybe (.node kinds)] inner u) :
    ReadsMany kinds s (events ++ inner) u := by
  obtain ⟨actions, es, hreading, hsettled, hnodes⟩ := h
  obtain ⟨bs, ys, hreading', hsettled', haccepts⟩ := h'
  exact ⟨_, _, hreading.append hreading', (hsettled.quiet ht).append_settled hsettled',
    List.forall_mem_append.mpr ⟨hnodes, Part.forall_of_accepts_maybe haccepts⟩⟩

theorem list (h : ReadsMany kinds s events t) :
    ReadsOrEnds s [.one (.list kinds)] (Segment.list events) t := by
  obtain ⟨actions, es, hreading, hsettled, hnodes⟩ := h
  refine ⟨actions, _, hreading.list fun e he => Element.isNode_of_isNodeIn (hnodes e he), hsettled,
    Part.accepts_one ?_⟩
  exact List.all_eq_true.mpr hnodes

end ReadsMany

/-! ## Readings of a finished node -/

/-- The output of a finished node that is an expression of at least the given strength,
and can become the first child of a larger one. -/
def Completes (least : Nat) (s : ParseState) (c : Completed) (t : ParseState) : Prop :=
  ∃ actions e, Reading s actions t c.events [e] ∧ c.Stands e ∧ Quiet actions ∧
    e.isNodeIn Grammar.expressions = true ∧ least ≤ e.strength

namespace Completes

variable {s t u v : ParseState} {c : Completed} {parts : List Part} {inner : Segment}
  {least most : Nat}

theorem reads (h : Completes least s c t) : Reads s [Grammar.expression] c.events t := by
  obtain ⟨actions, e, hreading, _, hquiet, he, _⟩ := h
  exact ⟨actions, [e], hreading, hquiet, Part.accepts_one he⟩

theorem length_le (h : Completes least s c t) : t.tokens.length ≤ s.tokens.length :=
  h.reads.length_le

theorem mono (h : Completes most s c t) (hle : least ≤ most) : Completes least s c t := by
  obtain ⟨actions, e, hreading, hstands, hquiet, he, hstrength⟩ := h
  exact ⟨actions, e, hreading, hstands, hquiet, he, Nat.le_trans hle hstrength⟩

/-- No expression is a block. -/
theorem ne_block_of_mem_expressions {kind : Kind} (h : Grammar.expressions.contains kind = true) :
    (kind == .block) = false := by
  revert h
  cases kind <;> decide

/-- A finished node over what has been read. -/
theorem of_reading {actions : List Action} {es : List Element}
    (h : Reading s actions t inner es) (hquiet : Quiet actions) {kind : Kind}
    (hkind : Grammar.production kind = some parts) (haccepts : Part.accepts parts es = true)
    (hexpression : Grammar.expressions.contains kind = true)
    (hnested : (Element.makeNode kind es).nested = true)
    (hstrength : least ≤ (Element.makeNode kind es).strength) :
    Completes least s (.node kind inner) t :=
  ⟨actions, .makeNode kind es,
    h.node hkind haccepts hnested
      fun _ => Element.lacksBrace_makeNode (ne_block_of_mem_expressions hexpression) es,
    Completed.stands_node h.stands (Reading.isNode_of_production hkind), hquiet, hexpression,
    hstrength⟩

/-- An expression that a call can follow, and that has no operands itself. -/
theorem node (h : Reads s parts inner t) {kind : Kind}
    (hkind : Grammar.production kind = some parts)
    (hexpression : Grammar.expressions.contains kind = true)
    (hobject : Grammar.objects.contains kind = true)
    (hplain : Grammar.operations.contains kind = false) :
    Completes Grammar.object s (.node kind inner) t := by
  obtain ⟨actions, es, hreading, hquiet, haccepts⟩ := h
  exact of_reading hreading hquiet hkind haccepts hexpression
    (Element.nested_of_not_operation hplain es)
    (Nat.le_of_eq (Element.strength_of_object hobject es).symm)

/-- An operand with a sign in front of it. -/
theorem sign {sign : Segment} (h : Reads s [.one (.token Grammar.signs)] sign t)
    (h' : Completes Grammar.signed t c u) :
    Completes Grammar.signed s (.node .prefixUnaryExpression (sign ++ c.events)) u := by
  obtain ⟨actions, es, hreading, hquiet, haccepts⟩ := h
  obtain ⟨bs, e, hreading', _, hquiet', he, hstrength⟩ := h'
  obtain ⟨first, rfl, _⟩ := Part.exists_of_accepts_one haccepts
  have hoperand : Part.accepts [Grammar.expression] [e] = true := Part.accepts_one he
  exact of_reading (hreading.append hreading') (hquiet.append hquiet') rfl
    (Part.accepts_append haccepts hoperand) rfl (decide_eq_true hstrength) (Nat.le_refl _)

/-- The finished node and what comes behind it make a larger expression. -/
theorem wrap_reading (h : Completes least s c t) {bs : List Action} {ys : List Element}
    (h' : Reading t bs u inner ys) (hquiet' : Quiet bs) {kind : Kind}
    (hkind : Grammar.production kind = some (Grammar.expression :: parts))
    (haccepts' : Part.accepts parts ys = true)
    (hexpression : Grammar.expressions.contains kind = true)
    (hnested : ∀ e : Element, least ≤ e.strength →
      (Element.makeNode kind (e :: ys)).nested = true ∧
        most ≤ (Element.makeNode kind (e :: ys)).strength) :
    Completes most s (Completed.wrap c kind inner) u := by
  obtain ⟨actions, e, hreading, hstands, hquiet, he, hstrength⟩ := h
  obtain ⟨hnested', hmost⟩ := hnested e hstrength
  have hnode := Reading.isNode_of_production hkind
  have hwrapped := hstands.wrap h'.stands hnode
  have hfirst : Part.accepts [Grammar.expression] [e] = true := Part.accepts_one he
  have hboth := (hreading.append h').node hkind (Part.accepts_append hfirst haccepts') hnested'
    fun _ => Element.lacksBrace_makeNode (ne_block_of_mem_expressions hexpression) _
  refine ⟨actions ++ bs, .makeNode kind (e :: ys), ?_, hwrapped, hquiet.append hquiet',
    hexpression, hmost⟩
  -- The output differs from that of a plain node, but stands for the same element.
  exact { hboth with
    stands := hwrapped.segment
    balanced := hreading.balanced.wrap h'.balanced hnode }

/-- A call of the finished node, or an access to a member of it. -/
theorem access (h : Completes Grammar.object s c t) (h' : Reads t parts inner u) {kind : Kind}
    (hkind : Grammar.production kind = some (Grammar.expression :: parts))
    (hexpression : Grammar.expressions.contains kind = true)
    (hobject : Grammar.objects.contains kind = true)
    (hnested : ∀ (e : Element) (ys : List Element), Grammar.object ≤ e.strength →
      (Element.makeNode kind (e :: ys)).nested = true) :
    Completes Grammar.object s (Completed.wrap c kind inner) u := by
  obtain ⟨bs, ys, hreading', hquiet', haccepts'⟩ := h'
  refine h.wrap_reading hreading' hquiet' hkind haccepts' hexpression fun e he => ?_
  exact ⟨hnested e ys he, Nat.le_of_eq (Element.strength_of_object hobject _).symm⟩

/-- The finished node is the left operand of an operator that is no stronger, and the
right operand is stronger. -/
theorem binary {k : Nat} {operator : Kind} {sign : Segment} {right : Completed}
    (h : Completes k s c t) (hsign : Reads t [.token operator] sign u)
    (hprecedence : Parser.precedence? operator = some k)
    (hoperator : Grammar.operators.contains operator = true) (hright : Completes (k + 1) u right v) :
    Completes k s (Completed.wrap c .binaryExpression (sign ++ right.events)) v := by
  obtain ⟨bs, ys, hreading', hquiet', haccepts'⟩ := hsign
  obtain ⟨ds, e', hreading'', _, hquiet'', he', hstrength'⟩ := hright
  obtain ⟨token, rfl, htoken⟩ := Part.exists_of_accepts_one haccepts'
  have hkind : token.kind = operator := Element.kind_of_isTokenIn htoken
  have hbehind : Part.accepts [.one (.token Grammar.operators), Grammar.expression] [token, e'] =
      true :=
    Part.accepts_append (Part.accepts_token_of_mem hoperator haccepts') (Part.accepts_one he')
  refine h.wrap_reading (hreading'.append hreading'') (hquiet'.append hquiet'') rfl hbehind rfl
    fun e he => ?_
  have hk : Parser.precedence? token.kind = some k := by rw [hkind, hprecedence]
  exact ⟨Element.nested_binary hk he hstrength', Nat.le_of_eq (Element.strength_binary hk).symm⟩

/-- The finished node, which is no assignment, is assigned to. -/
theorem assign (h : Completes 1 s c t)
    (h' : Reads t [.token .equals, Grammar.expression] inner u) :
    Completes 0 s (Completed.wrap c .assignmentExpression inner) u := by
  obtain ⟨bs, ys, hreading', hquiet', haccepts'⟩ := h'
  exact h.wrap_reading hreading' hquiet' rfl haccepts' rfl
    fun e he => ⟨decide_eq_true he, Nat.zero_le _⟩

end Completes

end Verbatim
