/-
  The productions of the grammar, as patterns over the children of a node.

  A production is a sequence of parts, each of which is there or may be left out,
  and a part is a token, a node, a list of nodes or a separated list, of given
  kinds.  Whether a node conforms to the production of its kind can be computed.
  Tokens that the source does not have count as tokens of their kind, so trees of
  malformed texts are measured by the same productions.
-/
import Verbatim.Proofs.TreeViews

set_option autoImplicit false

namespace Verbatim

/-! ## Patterns -/

namespace Element

/-- A token of one of the kinds. -/
def isTokenIn (kinds : List Kind) : Element → Bool
  | .token t => kinds.contains t.kind
  | _ => false

/-- A node of one of the kinds. -/
def isNodeIn (kinds : List Kind) : Element → Bool
  | .node kind _ _ => kinds.contains kind
  | _ => false

/-- Nodes of the kinds with a comma between any two, and possibly one at the end. -/
def alternates (kinds : List Kind) : List Element → Bool
  | [] => true
  | [e] => e.isNodeIn kinds
  | e :: comma :: rest => e.isNodeIn kinds && comma.isTokenIn [.comma] && alternates kinds rest

end Element

/-- One place of a production. -/
inductive Symbol where
  | token (kinds : List Kind)
  | node (kinds : List Kind)
  /-- A list of nodes, which may be empty. -/
  | list (kinds : List Kind)
  /-- A list of nodes separated by commas, which may be empty unless a node is required. -/
  | separated (kinds : List Kind) (required : Bool)
  deriving DecidableEq, Repr

/-- The element can stand at the place. -/
def Symbol.admits : Symbol → Element → Bool
  | .token kinds, e => e.isTokenIn kinds
  | .node kinds, e => e.isNodeIn kinds
  | .list kinds, .list _ nodes => nodes.all (Element.isNodeIn kinds)
  | .separated kinds required, .separated _ slots =>
      Element.alternates kinds slots && (!required || !slots.isEmpty)
  | _, _ => false

/-- A place that has to be filled, or one that may be left out. -/
inductive Part where
  | one (symbol : Symbol)
  | maybe (symbol : Symbol)
  deriving DecidableEq, Repr

namespace Part

/-- The elements fill the parts in order. -/
def accepts : List Part → List Element → Bool
  | [], es => es.isEmpty
  | .one _ :: _, [] => false
  | .one symbol :: parts, e :: es => symbol.admits e && accepts parts es
  | .maybe _ :: parts, [] => accepts parts []
  | .maybe symbol :: parts, e :: es =>
      (symbol.admits e && accepts parts es) || accepts parts (e :: es)

/-- A part of one token. -/
def token (kind : Kind) : Part := .one (.token [kind])

/-- A part of one node. -/
def node (kind : Kind) : Part := .one (.node [kind])

end Part

/-! ## The grammar -/

namespace Grammar

/-- Kinds of expressions. -/
def expressions : List Kind :=
  [.nameExpression, .literalExpression, .parenthesizedExpression, .prefixUnaryExpression,
    .binaryExpression, .assignmentExpression, .invocationExpression, .memberAccessExpression]

/-- Kinds of statements, declarations included. -/
def statements : List Kind :=
  [.variableStatement, .functionDeclaration, .interfaceDeclaration, .block, .emptyStatement,
    .ifStatement, .whileStatement, .returnStatement, .expressionStatement]

/-- Kinds of literals. -/
def literals : List Kind :=
  [.numericLiteral, .stringLiteral, .trueKw, .falseKw, .nullKw]

/-- Kinds of the operators in front of an operand. -/
def signs : List Kind :=
  [.exclamation, .minus, .plus]

/-- Kinds of the operators between two operands. -/
def operators : List Kind :=
  [.barBar, .ampersandAmpersand, .equalsEquals, .exclamationEquals, .equalsEqualsEquals,
    .exclamationEqualsEquals, .lessThan, .lessThanEquals, .greaterThan, .greaterThanEquals, .plus,
    .minus, .asterisk, .slash, .percent]

/-- A part of one expression. -/
def expression : Part := .one (.node expressions)

/-- The production of a kind of nodes. -/
def production : Kind → Option (List Part)
  | .sourceUnit => some [.one (.list statements), .token .eof]
  | .block => some [.token .openBrace, .one (.list statements), .token .closeBrace]
  | .variableStatement => some [.node .variableDeclaration, .maybe (.token [.semicolon])]
  | .variableDeclaration =>
      some [.one (.token [.varKw, .letKw, .constKw]), .one (.separated [.variableDeclarator] true)]
  | .variableDeclarator =>
      some [.token .identifier, .maybe (.node [.typeAscription]),
        .maybe (.node [.equalsValueClause])]
  | .equalsValueClause => some [.token .equals, expression]
  | .functionDeclaration =>
      some [.token .functionKw, .token .identifier, .node .parameterList,
        .maybe (.node [.typeAscription]), .node .block]
  | .parameterList =>
      some [.token .openParen, .one (.separated [.parameter] false), .token .closeParen]
  | .parameter => some [.token .identifier, .maybe (.node [.typeAscription])]
  | .interfaceDeclaration =>
      some [.token .interfaceKw, .token .identifier, .token .openBrace,
        .one (.list [.propertySignature]), .token .closeBrace]
  | .propertySignature =>
      some [.token .identifier, .maybe (.token [.question]), .node .typeAscription,
        .maybe (.token [.semicolon, .comma])]
  | .typeAscription => some [.token .colon, .node .typeReference]
  | .typeReference => some [.token .identifier]
  | .emptyStatement => some [.token .semicolon]
  | .ifStatement =>
      some [.token .ifKw, .token .openParen, expression, .token .closeParen,
        .maybe (.node statements), .maybe (.node [.elseClause])]
  | .elseClause => some [.token .elseKw, .maybe (.node statements)]
  | .whileStatement =>
      some [.token .whileKw, .token .openParen, expression, .token .closeParen,
        .maybe (.node statements)]
  | .returnStatement =>
      some [.token .returnKw, .maybe (.node expressions), .maybe (.token [.semicolon])]
  | .expressionStatement => some [expression, .maybe (.token [.semicolon])]
  | .nameExpression => some [.token .identifier]
  | .literalExpression => some [.one (.token literals)]
  | .parenthesizedExpression => some [.token .openParen, expression, .token .closeParen]
  | .prefixUnaryExpression => some [.one (.token signs), expression]
  | .binaryExpression => some [expression, .one (.token operators), expression]
  | .assignmentExpression => some [expression, .token .equals, expression]
  | .invocationExpression => some [expression, .node .argumentList]
  | .argumentList =>
      some [.token .openParen, .one (.separated expressions false), .token .closeParen]
  | .memberAccessExpression => some [expression, .token .dot, .token .identifier]
  | _ => none

/-- Kinds of statements that a semicolon ends. -/
def terminated : List Kind :=
  [.variableStatement, .expressionStatement, .returnStatement]

/-- The production of a statement that a semicolon ends, up to the semicolon. -/
def unterminated : Kind → List Part
  | .variableStatement => [.node .variableDeclaration]
  | .returnStatement => [.token .returnKw, .maybe (.node expressions)]
  | .expressionStatement => [expression]
  | _ => []

theorem production_of_terminated {kind : Kind} (h : terminated.contains kind = true) :
    production kind = some (unterminated kind ++ [.maybe (.token [.semicolon])]) := by
  revert h
  cases kind <;> first | exact fun _ => rfl | nofun

end Grammar

/-- The children of the node fill the production of its kind. -/
def Element.conforms (e : Element) : Bool :=
  match Grammar.production e.kind with
  | some parts => Part.accepts parts e.children
  | none => false

/-! ## Putting patterns together -/

namespace Part

theorem accepts_one {symbol : Symbol} {e : Element} (h : symbol.admits e = true) :
    accepts [.one symbol] [e] = true := by
  simp [accepts, h]

theorem accepts_node (kind : Kind) (es : List Element) :
    accepts [.node kind] [.makeNode kind es] = true :=
  accepts_one (by simp [Symbol.admits, Element.isNodeIn, Element.makeNode])

/-- Filling a place is one way to pass a part that may be left out. -/
theorem accepts_maybe {symbol : Symbol} {es : List Element}
    (h : accepts [.one symbol] es = true) : accepts [.maybe symbol] es = true := by
  cases es with
  | nil => rfl
  | cons e rest =>
      simp only [accepts, Bool.or_eq_true] at h ⊢
      exact Or.inl h

/-- The only way to fill one place is by one element. -/
theorem exists_of_accepts_one {symbol : Symbol} {es : List Element}
    (h : accepts [.one symbol] es = true) : ∃ e, es = [e] ∧ symbol.admits e = true := by
  cases es with
  | nil => cases h
  | cons e rest =>
      simp only [accepts, Bool.and_eq_true, List.isEmpty_iff] at h
      exact ⟨e, by rw [h.2], h.1⟩

/-- What fills a production that starts with a place has an element for it in front. -/
theorem exists_of_accepts_cons {symbol : Symbol} {parts : List Part} {es : List Element}
    (h : accepts (.one symbol :: parts) es = true) :
    ∃ e rest, es = e :: rest ∧ symbol.admits e = true ∧ accepts parts rest = true := by
  cases es with
  | nil => cases h
  | cons e rest =>
      simp only [accepts, Bool.and_eq_true] at h
      exact ⟨e, rest, rfl, h.1, h.2⟩

/-- A token of one kind is a token of any kinds that include it. -/
theorem accepts_token_of_mem {kind : Kind} {kinds : List Kind} {es : List Element}
    (hmem : kinds.contains kind = true) (h : accepts [.token kind] es = true) :
    accepts [.one (.token kinds)] es = true := by
  obtain ⟨e, rfl, he⟩ := exists_of_accepts_one h
  refine accepts_one ?_
  cases e with
  | token t =>
      have hkind : t.kind = kind := by simpa [Symbol.admits, Element.isTokenIn] using he
      rwa [Symbol.admits, Element.isTokenIn, hkind]
  | node _ _ _ => cases he
  | list _ _ => cases he
  | separated _ _ => cases he

/-- A node of one kind is a node of any kinds that include it. -/
theorem accepts_node_of_mem {kind : Kind} {kinds : List Kind} {es : List Element}
    (hmem : kinds.contains kind = true) (h : accepts [.node kind] es = true) :
    accepts [.one (.node kinds)] es = true := by
  obtain ⟨e, rfl, he⟩ := exists_of_accepts_one h
  refine accepts_one ?_
  cases e with
  | node k measure children =>
      have hkind : k = kind := by simpa [Symbol.admits, Element.isNodeIn] using he
      rwa [Symbol.admits, Element.isNodeIn, hkind]
  | token _ => cases he
  | list _ _ => cases he
  | separated _ _ => cases he

/-- What fills a place for a node, or leaves it out, is nodes. -/
theorem forall_of_accepts_maybe {kinds : List Kind} {es : List Element}
    (h : accepts [.maybe (.node kinds)] es = true) : ∀ e ∈ es, e.isNodeIn kinds = true := by
  cases es with
  | nil => exact List.forall_mem_nil _
  | cons e rest =>
      simp only [accepts, Bool.or_eq_true, Bool.and_eq_true, List.isEmpty_iff] at h
      rcases h with ⟨he, rfl⟩ | h
      · exact List.forall_mem_singleton.mpr he
      · cases h

/-- Patterns can be put one behind the other. -/
theorem accepts_append {ps qs : List Part} {xs ys : List Element} (hp : accepts ps xs = true)
    (hq : accepts qs ys = true) : accepts (ps ++ qs) (xs ++ ys) = true := by
  induction ps generalizing xs with
  | nil =>
      rw [accepts, List.isEmpty_iff] at hp
      rwa [hp]
  | cons part ps ih =>
      cases part with
      | one symbol =>
          cases xs with
          | nil => cases hp
          | cons x xs =>
              simp only [accepts, Bool.and_eq_true, List.cons_append] at hp ⊢
              exact ⟨hp.1, ih hp.2⟩
      | maybe symbol =>
          -- Leaving the place empty works whatever comes behind.
          have hskip (zs : List Element) (h : accepts (ps ++ qs) zs = true) :
              accepts (.maybe symbol :: (ps ++ qs)) zs = true := by
            cases zs with
            | nil => exact h
            | cons z zs =>
                simp only [accepts, Bool.or_eq_true]
                exact Or.inr h
          cases xs with
          | nil => exact hskip _ (ih hp)
          | cons x xs =>
              simp only [accepts, Bool.or_eq_true, Bool.and_eq_true] at hp
              rcases hp with ⟨hx, hxs⟩ | hxs
              · simp only [List.cons_append, accepts, Bool.or_eq_true, Bool.and_eq_true]
                exact Or.inl ⟨hx, ih hxs⟩
              · exact hskip _ (ih hxs)

end Part

namespace Element

theorem isNode_of_isNodeIn {kinds : List Kind} {e : Element} (h : e.isNodeIn kinds = true) :
    e.isNode = true := by
  cases e with
  | node kind measure children => rfl
  | token _ => cases h
  | list _ _ => cases h
  | separated _ _ => cases h

theorem contains_of_isNodeIn {e : Element} {kinds : List Kind} (h : e.isNodeIn kinds = true) :
    kinds.contains e.kind = true := by
  cases e with
  | node kind measure children => exact h
  | token _ => cases h
  | list _ _ => cases h
  | separated _ _ => cases h

theorem isNodeIn_of_not_contains {e : Element} {kinds : List Kind}
    (h : kinds.contains e.kind = false) : e.isNodeIn kinds = false := by
  cases e with
  | node kind measure children => exact h
  | token _ => rfl
  | list _ _ => rfl
  | separated _ _ => rfl

theorem isToken_of_isTokenIn {kinds : List Kind} {e : Element} (h : e.isTokenIn kinds = true) :
    e.isNode = false ∧ e.isToken = true := by
  cases e with
  | token t => exact ⟨rfl, rfl⟩
  | node _ _ _ => cases h
  | list _ _ => cases h
  | separated _ _ => cases h

theorem exists_of_isTokenIn {kind : Kind} {e : Element} (h : e.isTokenIn [kind] = true) :
    ∃ t, e = .token t ∧ t.kind = kind := by
  cases e with
  | token t => exact ⟨t, rfl, by simpa [isTokenIn] using h⟩
  | node _ _ _ => cases h
  | list _ _ => cases h
  | separated _ _ => cases h

theorem kind_of_isTokenIn {kind : Kind} {e : Element} (h : e.isTokenIn [kind] = true) :
    e.kind = kind := by
  obtain ⟨t, rfl, hkind⟩ := exists_of_isTokenIn h
  exact hkind

/-- Whether a block lacks its opening brace shows at its first child. -/
theorem lacksBrace_block {kinds : List Kind} {first : Element} {rest : List Element}
    (h : Part.accepts [.one (.list kinds), .token .closeBrace] rest = true) :
    (makeNode .block (first :: rest)).lacksBrace = first.isAbsent .openBrace := by
  match rest with
  | [] => cases h
  | body :: rest =>
      simp only [Part.accepts, Bool.and_eq_true] at h
      obtain ⟨hbody, hclosing⟩ := h
      obtain ⟨closing, rfl, hbrace⟩ := Part.exists_of_accepts_one hclosing
      have hbody' : body.isAbsent .openBrace = false := by
        cases body with
        | list measure nodes => rfl
        | token _ => cases hbody
        | node _ _ _ => cases hbody
        | separated _ _ => cases hbody
      have hclosing' : closing.isAbsent .openBrace = false := by
        cases closing with
        | token t =>
            have hkind : t.kind = .closeBrace := by
              simpa [Symbol.admits, isTokenIn] using hbrace
            simp [isAbsent, hkind]
        | node _ _ _ => cases hbrace
        | list _ _ => cases hbrace
        | separated _ _ => cases hbrace
      simp [lacksBrace, makeNode, Element.kind, children, hbody', hclosing']

/-- Behind whole pairs of a node and a comma the alternation starts again. -/
theorem alternates_append {kinds : List Kind} {xs : List Element}
    (h : alternates kinds xs = true) (heven : xs.length % 2 = 0) (ys : List Element) :
    alternates kinds (xs ++ ys) = alternates kinds ys := by
  fun_induction alternates kinds xs with
  | case1 => rfl
  | case2 e => cases heven
  | case3 e comma rest ih =>
      simp only [Bool.and_eq_true] at h
      obtain ⟨⟨he, hcomma⟩, hrest⟩ := h
      have hrest' : rest.length % 2 = 0 := by
        rw [List.length_cons, List.length_cons] at heven
        omega
      rw [List.cons_append, List.cons_append, alternates, he, hcomma, ih hrest hrest']
      rfl

/-- Alternating elements are nodes of the kinds, or commas. -/
theorem slot_of_alternates {kinds : List Kind} {es : List Element}
    (h : alternates kinds es = true) :
    ∀ e ∈ es, e.isNodeIn kinds = true ∨ e.isTokenIn [.comma] = true := by
  fun_induction alternates kinds es with
  | case1 => exact List.forall_mem_nil _
  | case2 e => exact List.forall_mem_singleton.mpr (.inl h)
  | case3 e comma rest ih =>
      simp only [Bool.and_eq_true] at h
      obtain ⟨⟨he, hcomma⟩, hrest⟩ := h
      simp only [List.forall_mem_cons]
      exact ⟨.inl he, .inr hcomma, ih hrest⟩

/-- Alternating elements hold nothing but nodes and tokens. -/
theorem isSlot_of_alternates {kinds : List Kind} {es : List Element}
    (h : alternates kinds es = true) : ∀ e ∈ es, (e.isNode || e.isToken) = true := by
  intro e he
  rcases slot_of_alternates h e he with hnode | hcomma
  · rw [isNode_of_isNodeIn hnode, Bool.true_or]
  · rw [(isToken_of_isTokenIn hcomma).2, Bool.or_true]

/-- Alternating elements are the slots of a separated list. -/
theorem checkSlots_of_alternates {kinds : List Kind} {es : List Element}
    (h : alternates kinds es = true) {slot : Nat} (hslot : slot % 2 = 0) :
    checkSlots slot es = .ok () := by
  fun_induction alternates kinds es generalizing slot with
  | case1 => rfl
  | case2 e => simp [checkSlots, SlotRole.ofIndex, hslot, isNode_of_isNodeIn h]
  | case3 e comma rest ih =>
      simp only [Bool.and_eq_true] at h
      obtain ⟨⟨he, hcomma⟩, hrest⟩ := h
      have hodd : (slot + 1) % 2 ≠ 0 := by omega
      have hlater : checkSlots (slot + 1 + 1) rest = .ok () := ih hrest (by omega)
      simp [checkSlots, SlotRole.ofIndex, hslot, hodd, isNode_of_isNodeIn he,
        (isToken_of_isTokenIn hcomma).1, hlater]

end Element

end Verbatim
