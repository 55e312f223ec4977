/-
  The grammar completes its markers in stack order.

  A draft is a program that starts and completes markers in stack order, and writes its events
  through them.  Whatever a production yields is the output of some draft, and whatever an
  expression is read as is the output of a node of a draft: productions put drafts behind one
  another, enclose them in lists and nodes, and let a new node precede a completed one.  So what
  holds of drafts holds of parses, and the tree of a parse is the one that its draft stands for
  without events and links.
-/
import Verbatim.Proofs.ForwardParents
import Verbatim.Proofs.SourceReading

set_option autoImplicit false

namespace Verbatim

/-! ## Output of drafts -/

/-- One draft behind another one. -/
def Draft.append : Draft → Draft → Draft
  | .done, d => d
  | .token t rest, d => .token t (rest.append d)
  | .missing kind rest, d => .missing kind (rest.append d)
  | .list inner rest, d => .list inner (rest.append d)
  | .separated inner rest, d => .separated inner (rest.append d)
  | .node first rest, d => .node first (rest.append d)

theorem Draft.segment_append : ∀ d e : Draft, (d.append e).segment = d.segment ++ e.segment
  | .done, _ => rfl
  | .token _ rest, e | .missing _ rest, e | .list _ rest, e | .separated _ rest, e
  | .node _ rest, e => by
      simp only [Draft.append, Draft.segment, rest.segment_append e, List.append_assoc]

namespace Segment

variable {events more : Segment}

/-- Some draft writes the piece of output. -/
def Drafted (events : Segment) : Prop :=
  ∃ d : Draft, d.segment = events

theorem drafted_nil : Drafted [] :=
  ⟨.done, rfl⟩

theorem drafted_token (t : ScannedToken) : Drafted [.token t] :=
  ⟨.token t .done, rfl⟩

theorem drafted_missing (kind : Kind) : Drafted [.missing kind] :=
  ⟨.missing kind .done, rfl⟩

theorem Drafted.append (h : events.Drafted) (h' : more.Drafted) : (events ++ more).Drafted := by
  obtain ⟨d, rfl⟩ := h
  obtain ⟨e, rfl⟩ := h'
  exact ⟨d.append e, d.segment_append e⟩

theorem Drafted.list (h : events.Drafted) : (Segment.list events).Drafted := by
  obtain ⟨d, rfl⟩ := h
  exact ⟨.list d .done, List.append_nil _⟩

theorem Drafted.separated (h : events.Drafted) : (Segment.separated events).Drafted := by
  obtain ⟨d, rfl⟩ := h
  exact ⟨.separated d .done, List.append_nil _⟩

end Segment

namespace Completed

variable {c : Completed} {inner : Segment}

/-- Some node of a draft writes the output. -/
def Drafted (c : Completed) : Prop :=
  ∃ n : NodeDraft, n.completed = c

theorem drafted_node (h : inner.Drafted) (kind : Kind) : (node kind inner).Drafted := by
  obtain ⟨d, rfl⟩ := h
  exact ⟨.complete d kind, rfl⟩

theorem Drafted.wrap (h : c.Drafted) (kind : Kind) (hinner : inner.Drafted) :
    (c.wrap kind inner).Drafted := by
  obtain ⟨n, rfl⟩ := h
  obtain ⟨d, rfl⟩ := hinner
  exact ⟨.precede n d kind, rfl⟩

theorem Drafted.events (h : c.Drafted) : c.events.Drafted := by
  obtain ⟨n, rfl⟩ := h
  exact ⟨.node n .done, List.append_nil _⟩

end Completed

theorem Segment.Drafted.node {events : Segment} (h : events.Drafted) (kind : Kind) :
    (Segment.node kind events).Drafted :=
  (Completed.drafted_node h kind).events

/-! ## What productions give -/

namespace Parser

/-- Whatever the production gives, from whatever state, has the property. -/
def Gives {α : Type} (P : α → Prop) (p : Parser α) : Prop :=
  ∀ s a t, p.run s = .ok (a, t) → P a

section Rules

variable {α β : Type} {P : α → Prop} {Q : β → Prop}

theorem Gives.pure {a : α} (h : P a) : Gives P (pure a) := by
  intro s b t hrun
  cases hrun
  exact h

theorem gives_throw (fault : Fault) : Gives P (throw fault) :=
  nofun

theorem Gives.bind {p : Parser β} {f : β → Parser α} (h : Gives Q p)
    (hf : ∀ b, Q b → Gives P (f b)) : Gives P (p >>= f) := by
  intro s a t hrun
  obtain ⟨⟨b, u⟩, hp, hrest⟩ := exists_of_bind hrun
  exact hf b (h s b u hp) u a t hrest

/-- What an action gives need not matter. -/
theorem Gives.after {p : Parser β} {f : β → Parser α} (hf : ∀ b, Gives P (f b)) :
    Gives P (p >>= f) :=
  Gives.bind (fun _ _ _ _ => trivial) fun b (_ : True) => hf b

end Rules

/-- The production yields the output of a draft. -/
abbrev Drafts (p : Parser Segment) : Prop :=
  Gives Segment.Drafted p

/-- The production yields the output of a node of a draft. -/
abbrev DraftsNode (p : Parser Completed) : Prop :=
  Gives Completed.Drafted p

open Segment Completed

/-! ## Steps -/

theorem drafts_advance : Drafts advance :=
  .after fun _ => .after fun _ => .pure (drafted_token _)

theorem drafts_expect (kind : Kind) : Drafts (expect kind) := by
  refine .after fun s => ?_
  split
  · exact drafts_advance
  · exact .after fun _ => .pure (drafted_missing kind)

theorem drafts_eat (kind : Kind) : Drafts (eat kind) := by
  refine .after fun s => ?_
  split
  · exact drafts_advance
  · exact .pure drafted_nil

theorem drafts_separatedItems (separator : Kind) (first : Kind → Bool) {item : Parser Segment}
    (hitem : Drafts item) (budget : Nat) :
    Drafts (separatedItems separator first item budget) := by
  induction budget with
  | zero => exact gives_throw _
  | succ budget ih =>
      unfold separatedItems
      refine hitem.bind fun here hhere => .after fun s => ?_
      split
      · refine drafts_advance.bind fun mark hmark => .after fun s => ?_
        split
        · exact ih.bind fun more hmore => .pure ((hhere.append hmark).append hmore)
        · exact .pure (hhere.append hmark)
      · split
        · refine (drafts_expect separator).bind fun mark hmark => ?_
          exact ih.bind fun more hmore => .pure ((hhere.append hmark).append hmore)
        · exact .pure hhere

theorem drafts_separated (separator : Kind) (first : Kind → Bool) (required : Bool)
    {item : Parser Segment} (hitem : Drafts item) (budget : Nat) :
    Drafts (separated separator first required item budget) := by
  refine .after fun s => ?_
  split
  · exact (drafts_separatedItems separator first hitem budget).bind fun items hitems =>
      .pure hitems.separated
  · exact .pure drafted_nil.separated

theorem drafts_name : Drafts name :=
  drafts_expect .identifier

theorem drafts_semicolon (options : ParseOptions) : Drafts (semicolon options) := by
  refine .after fun s => ?_
  split
  · exact drafts_advance
  · split
    · exact .pure drafted_nil
    · exact drafts_expect .semicolon

/-! ## Expressions -/

section

variable {inner : Parser Completed}

theorem drafts_primary (hinner : DraftsNode inner) : DraftsNode (primary inner) := by
  refine .after fun s => ?_
  dsimp only
  split
  · exact drafts_advance.bind fun token htoken => .pure (drafted_node htoken _)
  · split
    · exact drafts_advance.bind fun token htoken => .pure (drafted_node htoken _)
    · split
      · refine drafts_advance.bind fun opening hopening => hinner.bind fun body hbody => ?_
        exact (drafts_expect .closeParen).bind fun closing hclosing =>
          .pure (drafted_node ((hopening.append hbody.events).append hclosing) _)
      · exact .after fun _ => .pure (drafted_node (drafted_missing _) _)

theorem drafts_argumentList (hinner : DraftsNode inner) (budget : Nat) :
    Drafts (argumentList inner budget) := by
  have hargument : Drafts (do return (← inner).events) :=
    hinner.bind fun c hc => .pure hc.events
  refine drafts_advance.bind fun opening hopening => ?_
  refine (drafts_separated .comma startsExpression false hargument budget).bind
    fun arguments harguments => .after fun _ => ?_
  exact (drafts_expect .closeParen).bind fun closing hclosing =>
    .pure (((hopening.append harguments).append hclosing).node _)

/-- Each call and each access precedes what has been completed. -/
theorem drafts_chain (hinner : DraftsNode inner) (budget : Nat) {object : Completed}
    (hobject : object.Drafted) : DraftsNode (chain inner budget object) := by
  induction budget generalizing object with
  | zero => exact gives_throw _
  | succ budget ih =>
      unfold chain
      refine .after fun s => ?_
      dsimp only
      split
      · exact (drafts_argumentList hinner budget).bind fun arguments harguments =>
          ih (hobject.wrap _ harguments)
      · split
        · refine drafts_advance.bind fun dot hdot => drafts_name.bind fun member hmember => ?_
          exact ih (hobject.wrap _ (hdot.append hmember))
        · exact .pure hobject

theorem drafts_unary (hinner : DraftsNode inner) (budget : Nat) :
    DraftsNode (unary inner budget) := by
  induction budget with
  | zero => exact gives_throw _
  | succ budget ih =>
      unfold unary
      refine .after fun s => ?_
      split
      · exact drafts_advance.bind fun sign hsign => ih.bind fun operand hoperand =>
          .pure (drafted_node (hsign.append hoperand.events) _)
      · exact (drafts_primary hinner).bind fun object hobject =>
          drafts_chain hinner budget hobject

/-- An operator with its right operand precedes the left operand. -/
theorem drafts_binary {operand : Parser Completed} (hoperand : DraftsNode operand)
    (budget least : Nat) {left : Completed} (hleft : left.Drafted) :
    DraftsNode (binary operand budget least left) := by
  induction budget generalizing least left with
  | zero => exact gives_throw _
  | succ budget ih =>
      unfold binary
      refine .after fun s => ?_
      split
      · exact .pure hleft
      · split
        · exact .pure hleft
        · refine drafts_advance.bind fun operator hoperator => ?_
          refine hoperand.bind fun first hfirst => (ih _ hfirst).bind fun right hright => ?_
          exact ih least (hleft.wrap _ (hoperator.append hright.events))

end

theorem drafts_expression (budget : Nat) : DraftsNode (expression budget) := by
  induction budget with
  | zero => exact gives_throw _
  | succ budget ih =>
      have hoperand := drafts_unary ih budget
      unfold expression
      refine hoperand.bind fun first hfirst => ?_
      refine (drafts_binary hoperand budget 0 hfirst).bind fun left hleft => .after fun s => ?_
      split
      · exact drafts_advance.bind fun sign hsign => ih.bind fun right hright =>
          .pure (hleft.wrap _ (hsign.append hright.events))
      · exact .pure hleft

/-! ## Declarations -/

theorem drafts_typeAscription : Drafts typeAscription :=
  (drafts_expect .colon).bind fun _ hcolon => drafts_name.bind fun _ htype =>
    .pure ((hcolon.append (htype.node _)).node _)

theorem drafts_optionalType : Drafts optionalType := by
  refine .after fun s => ?_
  split
  · exact drafts_typeAscription
  · exact .pure drafted_nil

theorem drafts_statements {inner : Parser Segment} (hinner : Drafts inner) (toBrace : Bool)
    (budget : Nat) : Drafts (statements inner toBrace budget) := by
  induction budget with
  | zero => exact gives_throw _
  | succ budget ih =>
      unfold statements
      refine .after fun s => ?_
      split
      · exact .pure drafted_nil
      · exact hinner.bind fun here hhere => ih.bind fun more hmore => .pure (hhere.append hmore)

theorem drafts_block {inner : Parser Segment} (hinner : Drafts inner) (budget : Nat) :
    Drafts (block inner budget) := by
  refine .after fun s => ?_
  split
  · refine drafts_advance.bind fun opening hopening => ?_
    refine (drafts_statements hinner true budget).bind fun body hbody => ?_
    exact (drafts_expect .closeBrace).bind fun closing hclosing =>
      .pure (((hopening.append hbody.list).append hclosing).node _)
  · exact (drafts_expect .openBrace).bind fun opening hopening =>
      .pure (((hopening.append drafted_nil.list).append (drafted_missing _)).node _)

theorem drafts_propertySignature : Drafts propertySignature := by
  refine drafts_advance.bind fun key hkey => (drafts_eat .question).bind fun question hquestion =>
    drafts_typeAscription.bind fun type htype => .after fun s => ?_
  have hterminated (terminator : Segment) (h : terminator.Drafted) :
      Drafts (pure (Segment.node .propertySignature (key ++ question ++ type ++ terminator))) :=
    .pure ((((hkey.append hquestion).append htype).append h).node _)
  split
  · exact drafts_advance.bind hterminated
  · split
    · exact drafts_advance.bind hterminated
    · split
      · exact hterminated [] drafted_nil
      · exact (drafts_expect .semicolon).bind hterminated

theorem drafts_members (budget : Nat) : Drafts (members budget) := by
  induction budget with
  | zero => exact gives_throw _
  | succ budget ih =>
      unfold members
      refine .after fun s => ?_
      split
      · exact .pure drafted_nil
      · split
        · exact drafts_propertySignature.bind fun here hhere => ih.bind fun more hmore =>
            .pure (hhere.append hmore)
        · exact .after fun _ => ih

theorem drafts_optionalValue (budget : Nat) : Drafts (optionalValue budget) := by
  refine .after fun s => ?_
  split
  · exact drafts_advance.bind fun sign hsign => (drafts_expression budget).bind
      fun value hvalue => .pure ((hsign.append hvalue.events).node _)
  · exact .pure drafted_nil

theorem drafts_variableDeclarator (budget : Nat) : Drafts (variableDeclarator budget) :=
  drafts_name.bind fun _ hname => drafts_optionalType.bind fun _ htype =>
    (drafts_optionalValue budget).bind fun _ hvalue =>
      .pure (((hname.append htype).append hvalue).node _)

theorem drafts_variableStatement (options : ParseOptions) (budget : Nat) :
    Drafts (variableStatement options budget) := by
  refine drafts_advance.bind fun keyword hkeyword => ?_
  refine (drafts_separated .comma startsName true (drafts_variableDeclarator budget) budget).bind
    fun declarators hdeclarators => ?_
  exact (drafts_semicolon options).bind fun terminator hterminator =>
    .pure ((((hkeyword.append hdeclarators).node _).append hterminator).node _)

theorem drafts_parameter : Drafts parameter :=
  drafts_name.bind fun _ hname => drafts_optionalType.bind fun _ htype =>
    .pure ((hname.append htype).node _)

theorem drafts_parameterList (budget : Nat) : Drafts (parameterList budget) := by
  refine (drafts_expect .openParen).bind fun opening hopening => ?_
  refine (drafts_separated .comma startsName false drafts_parameter budget).bind
    fun parameters hparameters => .after fun _ => ?_
  exact (drafts_expect .closeParen).bind fun closing hclosing =>
    .pure (((hopening.append hparameters).append hclosing).node _)

theorem drafts_functionDeclaration {inner : Parser Segment} (hinner : Drafts inner)
    (budget : Nat) : Drafts (functionDeclaration inner budget) := by
  refine drafts_advance.bind fun keyword hkeyword => drafts_name.bind fun name hname => ?_
  refine (drafts_parameterList budget).bind fun parameters hparameters => ?_
  refine drafts_optionalType.bind fun type htype => (drafts_block hinner budget).bind
    fun body hbody => ?_
  exact .pure (((((hkeyword.append hname).append hparameters).append htype).append hbody).node _)

theorem drafts_interfaceDeclaration (budget : Nat) : Drafts (interfaceDeclaration budget) := by
  refine drafts_advance.bind fun keyword hkeyword => drafts_name.bind fun name hname => ?_
  refine (drafts_expect .openBrace).bind fun opening hopening => ?_
  refine (drafts_members budget).bind fun properties hproperties => ?_
  exact (drafts_expect .closeBrace).bind fun closing hclosing => .pure
    (((((hkeyword.append hname).append hopening).append hproperties.list).append hclosing).node _)

/-! ## Control flow -/

theorem drafts_condition (budget : Nat) : Drafts (condition budget) :=
  (drafts_expect .openParen).bind fun _ hopening => (drafts_expression budget).bind
    fun _ htest => (drafts_expect .closeParen).bind fun _ hclosing =>
      .pure ((hopening.append htest.events).append hclosing)

section

variable {inner : Parser Segment}

theorem drafts_optionalElse (hinner : Drafts inner) : Drafts (optionalElse inner) := by
  refine .after fun s => ?_
  split
  · exact drafts_advance.bind fun keyword hkeyword => hinner.bind fun body hbody =>
      .pure ((hkeyword.append hbody).node _)
  · exact .pure drafted_nil

theorem drafts_ifStatement (hinner : Drafts inner) (budget : Nat) :
    Drafts (ifStatement inner budget) :=
  drafts_advance.bind fun _ hkeyword => (drafts_condition budget).bind fun _ htest =>
    hinner.bind fun _ hbody => (drafts_optionalElse hinner).bind fun _ hotherwise =>
      .pure ((((hkeyword.append htest).append hbody).append hotherwise).node _)

theorem drafts_whileStatement (hinner : Drafts inner) (budget : Nat) :
    Drafts (whileStatement inner budget) :=
  drafts_advance.bind fun _ hkeyword => (drafts_condition budget).bind fun _ htest =>
    hinner.bind fun _ hbody => .pure (((hkeyword.append htest).append hbody).node _)

end

theorem drafts_returnStatement (options : ParseOptions) (budget : Nat) :
    Drafts (returnStatement options budget) := by
  refine drafts_advance.bind fun keyword hkeyword => .after fun s => ?_
  have hended (value : Segment) (hvalue : value.Drafted) :
      Drafts (do
        let terminator ← semicolon options
        return Segment.node .returnStatement (keyword ++ value ++ terminator)) :=
    (drafts_semicolon options).bind fun terminator hterminator =>
      .pure (((hkeyword.append hvalue).append hterminator).node _)
  split
  · exact (drafts_expression budget).bind fun value hvalue => hended _ hvalue.events
  · exact hended [] drafted_nil

theorem drafts_expressionStatement (options : ParseOptions) (budget : Nat) :
    Drafts (expressionStatement options budget) :=
  (drafts_expression budget).bind fun _ hvalue => (drafts_semicolon options).bind
    fun _ hterminator => .pure ((hvalue.events.append hterminator).node _)

theorem drafts_statement (options : ParseOptions) (budget : Nat) :
    Drafts (statement options budget) := by
  induction budget with
  | zero => exact gives_throw _
  | succ budget ih =>
      unfold statement
      refine .after fun s => ?_
      split
      · exact drafts_variableStatement options budget
      · exact drafts_variableStatement options budget
      · exact drafts_variableStatement options budget
      · exact drafts_functionDeclaration ih budget
      · exact drafts_interfaceDeclaration budget
      · exact drafts_block ih budget
      · exact drafts_advance.bind fun token htoken => .pure (htoken.node _)
      · exact drafts_ifStatement ih budget
      · exact drafts_whileStatement ih budget
      · exact drafts_returnStatement options budget
      · split
        · exact drafts_expressionStatement options budget
        · exact .after fun _ => .pure drafted_nil

theorem drafts_sourceUnit (options : ParseOptions) (budget : Nat) :
    Drafts (sourceUnit options budget) := by
  refine (drafts_statements (drafts_statement options budget) false budget).bind
    fun body hbody => ?_
  exact (drafts_expect .eof).bind fun last hlast => .pure ((hbody.list.append hlast).node _)

end Parser

/-! ## Parses -/

/-- The events of a token sequence are the output of a draft. -/
theorem exists_draft_of_parseTokens {tokens : List ScannedToken} {options : ParseOptions}
    {events : Segment} {reported : List Diagnostic}
    (h : parseTokens tokens options = .ok (events, reported)) :
    ∃ d : Draft, d.segment = events := by
  obtain ⟨⟨out, last⟩, hrun, h⟩ := exists_of_bind h
  cases h
  exact Parser.drafts_sourceUnit options _ _ _ _ hrun

/-- The grammar completes its markers in stack order: the events of every parse are those of a
draft.  The tree of the parse is the one that the draft stands for, and as long as places can be
counted, the markers of the draft write these very events. -/
theorem exists_draft_of_parse {source : Text} {options : ParseOptions} {p : Parse}
    (h : parse source options = .ok p) :
    ∃ scanned events reported, ∃ d : Draft,
      scan source = .ok scanned ∧
        parseTokens scanned.tokens options = .ok (events, reported) ∧
        d.segment = events ∧ d.tree = .ok p.root ∧
        (d.size < Offset.limit → d.write.run [] = .ok ((), events)) := by
  obtain ⟨run, rfl⟩ := exists_parseRun_of_parse h
  obtain ⟨d, hd⟩ := exists_draft_of_parseTokens run.parseTokens_eq
  have hreplay : d.segment.replay = .ok run.root := by
    rw [hd]
    exact run.replay_eq
  refine ⟨run.scanned, _, _, d, run.scan_eq, run.parseTokens_eq, hd, d.tree_of_replay hreplay,
    fun hsize => ?_⟩
  have hwrite := d.run_write [] (by rwa [List.length_nil, Nat.zero_add])
  rwa [List.nil_append, hd] at hwrite

end Verbatim
