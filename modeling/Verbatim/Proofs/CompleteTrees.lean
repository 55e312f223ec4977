/-
  Trees that leave nothing out, and the tokens that their parts start with.

  The productions allow some parts to be left out that a parser asks for: bodies,
  semicolons, and the ends of properties.  A tree is sound if its nodes conform and are
  nested by precedence, if no such part is missing, and if no `else` would be taken by
  another branch than the one that it belongs to.  Which token comes next decides how
  a parser goes on, so for every part of a production the kinds are computed that it
  can start with, up to the kinds that can come behind the production.
-/
import Verbatim.Proofs.Precedence
import Verbatim.Proofs.Terminators

set_option autoImplicit false

namespace Verbatim

/-! ## Parts that should not be left out -/

namespace Grammar

/-- Kinds of nodes that have a statement as their body. -/
def bodied : List Kind :=
  [.ifStatement, .elseClause, .whileStatement]

end Grammar

namespace Element

/-- A branch, an `else` or a loop without its body. -/
def lacksBody (n : Element) : Bool :=
  n.isNodeIn Grammar.bodied && !n.children.any (isNodeIn Grammar.statements)

/-- A property without a semicolon or a comma that ends it. -/
def lacksEnd (n : Element) : Bool :=
  n.isNodeIn [.propertySignature] && !n.children.any (isTokenIn [.semicolon, .comma])

/-- A list in which a property that is not the last one has no end. -/
def joinsProperties : Element → Bool
  | .list _ properties => properties.dropLast.any lacksEnd
  | _ => false

mutual

/-- The statement ends, following the bodies of branches and loops, in a branch without
an `else`. -/
def endsOpen : Element → Bool
  | .node .ifStatement _ cs => !cs.any (isNodeIn [.elseClause]) || endsOpenLast cs
  | .node .elseClause _ cs => endsOpenLast cs
  | .node .whileStatement _ cs => endsOpenLast cs
  | _ => false

/-- The last one of neighbours ends in a branch without an `else`. -/
def endsOpenLast : List Element → Bool
  | [] => false
  | e :: rest => if rest.isEmpty then e.endsOpen else endsOpenLast rest

end

theorem endsOpenLast_of_getLast? {es : List Element} {e : Element} (h : es.getLast? = some e) :
    endsOpenLast es = e.endsOpen := by
  induction es with
  | nil => cases h
  | cons first rest ih =>
      cases rest with
      | nil =>
          cases h
          rfl
      | cons next more =>
          rw [List.getLast?_cons_cons] at h
          exact ih h

/-- A branch with an `else` whose body would take the `else` for its own. -/
def losesElse (n : Element) : Bool :=
  n.isNodeIn [.ifStatement] && n.children.any (isNodeIn [.elseClause]) &&
    n.children.any fun c => c.isNodeIn Grammar.statements && c.endsOpen

/-- Nothing is left out of the node that a parser asks for, and its `else` is its own. -/
structure Complete (n : Element) : Prop where
  body : n.lacksBody = false
  semicolon : n.lacksSemicolon = false
  properties : n.isNodeIn [.interfaceDeclaration] = true →
    n.children.any joinsProperties = false
  otherwise : n.losesElse = false

instance (n : Element) : Decidable n.Complete :=
  decidable_of_iff
    (n.lacksBody = false ∧ n.lacksSemicolon = false ∧
      (n.isNodeIn [.interfaceDeclaration] = true → n.children.any joinsProperties = false) ∧
      n.losesElse = false)
    ⟨fun ⟨hbody, hsemicolon, hproperties, hotherwise⟩ =>
        ⟨hbody, hsemicolon, hproperties, hotherwise⟩,
      fun h => ⟨h.body, h.semicolon, h.properties, h.otherwise⟩⟩

/-- An element as it is made of a text without problems. -/
structure Sound (e : Element) : Prop where
  made : e.Made
  conforms : ∀ n ∈ e.nodes, n.conforms = true
  nested : ∀ n ∈ e.nodes, n.nested = true
  complete : ∀ n ∈ e.nodes, n.Complete

theorem Made.children {e : Element} (h : e.Made) : ∀ c ∈ e.children, c.Made := by
  cases h with
  | token kind text leading trailing => exact List.forall_mem_nil _
  | node kind children hchildren => exact hchildren
  | list nodes hnodes => exact hnodes
  | separated slots hslots => exact hslots

/-- The nodes below a child are below the element. -/
theorem mem_nodes_of_child {e c n : Element} (hc : c ∈ e.children) (hn : n ∈ c.nodes) :
    n ∈ e.nodes := by
  have hall : n ∈ nodesAll e.children := by
    rw [nodesAll_eq_flatMap]
    exact List.mem_flatMap.mpr ⟨c, hc, hn⟩
  cases e with
  | token t => cases hc
  | node kind measure children => exact List.mem_cons_of_mem _ hall
  | list measure nodes => exact hall
  | separated measure slots => exact hall

theorem Sound.child {e : Element} (h : e.Sound) : ∀ c ∈ e.children, c.Sound := by
  intro c hc
  exact ⟨h.made.children c hc, fun n hn => h.conforms n (mem_nodes_of_child hc hn),
    fun n hn => h.nested n (mem_nodes_of_child hc hn),
    fun n hn => h.complete n (mem_nodes_of_child hc hn)⟩

/-- What is known about the children of a sound node of a kind. -/
structure Fills (kind : Kind) (cs : List Element) : Prop where
  sound : ∀ c ∈ cs, c.Sound
  accepts : ∃ parts, Grammar.production kind = some parts ∧ Part.accepts parts cs = true
  nested : (makeNode kind cs).nested = true
  complete : (makeNode kind cs).Complete

/-- A sound node is made of children that fill the production of its kind. -/
theorem Sound.exists_fills {e : Element} (h : e.Sound) {kinds : List Kind}
    (hkinds : e.isNodeIn kinds = true) :
    ∃ kind cs, e = makeNode kind cs ∧ kinds.contains kind = true ∧ Fills kind cs := by
  have hmade := h.made
  cases hmade with
  | node kind cs hcs =>
      have hself : makeNode kind cs ∈ (makeNode kind cs).nodes := List.mem_cons_self
      refine ⟨kind, cs, rfl, hkinds, h.child, ?_, h.nested _ hself, h.complete _ hself⟩
      have hconforms := h.conforms _ hself
      rw [Element.conforms] at hconforms
      split at hconforms
      · rename_i parts hparts
        exact ⟨parts, hparts, hconforms⟩
      · cases hconforms
  | token _ _ _ _ => cases hkinds
  | list _ _ => cases hkinds
  | separated _ _ => cases hkinds

/-- A sound node of one kind. -/
theorem Sound.exists_children {e : Element} (h : e.Sound) {kind : Kind}
    (hkind : e.isNodeIn [kind] = true) :
    ∃ cs, e = makeNode kind cs ∧ Fills kind cs := by
  obtain ⟨k, cs, rfl, hk, hfills⟩ := h.exists_fills hkind
  rw [List.contains_iff_mem, List.mem_singleton] at hk
  subst hk
  exact ⟨cs, rfl, hfills⟩

theorem Fills.accepts_of_production {kind : Kind} {cs : List Element} (h : Fills kind cs)
    {parts : List Part} (hparts : Grammar.production kind = some parts) :
    Part.accepts parts cs = true := by
  obtain ⟨parts', hparts', haccepts⟩ := h.accepts
  rw [hparts] at hparts'
  cases hparts'
  exact haccepts

end Element

/-! ## Required parts -/

/-- Nothing can stand at both places. -/
def Symbol.excludes : Symbol → Symbol → Bool
  | .token kinds, .token others => !kinds.any others.contains
  | .node kinds, .node others => !kinds.any others.contains
  | .token _, .node _ | .node _, .token _ => true
  | _, _ => false

theorem Symbol.not_admits_of_excludes {a b : Symbol} (h : a.excludes b = true) {e : Element}
    (ha : a.admits e = true) : b.admits e = false := by
  have hdisjoint {kinds others : List Kind} {kind : Kind}
      (h : (!kinds.any others.contains) = true) (hkind : kinds.contains kind = true) :
      others.contains kind = false := by
    simp only [Bool.not_eq_true', List.any_eq_false, Bool.not_eq_true] at h
    exact h kind (List.contains_iff_mem.mp hkind)
  cases e with
  | token t =>
      cases a with
      | token kinds =>
          cases b with
          | token others => exact hdisjoint h ha
          | node others => rfl
          | list _ | separated _ _ => cases h
      | node _ | list _ | separated _ _ => cases ha
  | node kind measure children =>
      cases a with
      | node kinds =>
          cases b with
          | node others => exact hdisjoint h ha
          | token others => rfl
          | list _ | separated _ _ => cases h
      | token _ | list _ | separated _ _ => cases ha
  | list _ _ => cases a <;> first | cases ha | cases h
  | separated _ _ => cases a <;> first | cases ha | cases h

/-- A part that may be left out and is there can as well be required, if what fills it
fills no other part. -/
theorem Part.accepts_required {front back : List Part} {symbol : Symbol} {es : List Element}
    (hothers : (front ++ back).all (fun part => part.symbol.excludes symbol) = true)
    (hany : es.any symbol.admits = true)
    (h : accepts (front ++ .maybe symbol :: back) es = true) :
    accepts (front ++ .one symbol :: back) es = true := by
  induction front generalizing es with
  | nil =>
      cases es with
      | nil => cases hany
      | cons e rest =>
          simp only [List.nil_append, accepts, Bool.or_eq_true, Bool.and_eq_true] at h ⊢
          refine h.resolve_right fun hback => ?_
          obtain ⟨x, hx, hadmits⟩ := List.any_eq_true.mp hany
          obtain ⟨part, hpart, hpartAdmits⟩ := exists_symbol_of_accepts hback x hx
          have hexcludes := List.all_eq_true.mp hothers part hpart
          rw [Symbol.not_admits_of_excludes hexcludes hpartAdmits] at hadmits
          cases hadmits
  | cons part front ih =>
      simp only [List.cons_append, List.all_cons, Bool.and_eq_true] at hothers
      cases es with
      | nil => cases hany
      | cons e rest =>
          -- What fills the first part does not fill the one that is looked for.
          have hrest (he : part.symbol.admits e = true) : rest.any symbol.admits = true := by
            rw [List.any_cons, Symbol.not_admits_of_excludes hothers.1 he, Bool.false_or] at hany
            exact hany
          cases part with
          | one first =>
              simp only [List.cons_append, accepts, Bool.and_eq_true] at h ⊢
              exact ⟨h.1, ih hothers.2 (hrest h.1) h.2⟩
          | maybe first =>
              simp only [List.cons_append, accepts, Bool.or_eq_true, Bool.and_eq_true] at h ⊢
              exact h.imp (fun hfirst => ⟨hfirst.1, ih hothers.2 (hrest hfirst.1) hfirst.2⟩)
                (ih hothers.2 hany)

/-- A part that may be left out and is not there can as well be no part. -/
theorem Part.accepts_left_out {front back : List Part} {symbol : Symbol} {es : List Element}
    (hnone : es.any symbol.admits = false)
    (h : accepts (front ++ .maybe symbol :: back) es = true) :
    accepts (front ++ back) es = true := by
  induction front generalizing es with
  | nil =>
      cases es with
      | nil => exact h
      | cons e rest =>
          simp only [List.any_cons, Bool.or_eq_false_iff] at hnone
          simpa only [List.nil_append, accepts, hnone.1, Bool.false_and, Bool.false_or] using h
  | cons part front ih =>
      cases es with
      | nil =>
          cases part with
          | one first => cases h
          | maybe first => exact ih hnone h
      | cons e rest =>
          have hrest : rest.any symbol.admits = false := by
            rw [List.any_cons, Bool.or_eq_false_iff] at hnone
            exact hnone.2
          cases part with
          | one first =>
              simp only [List.cons_append, accepts, Bool.and_eq_true] at h ⊢
              exact ⟨h.1, ih hrest h.2⟩
          | maybe first =>
              simp only [List.cons_append, accepts, Bool.or_eq_true, Bool.and_eq_true] at h ⊢
              exact h.imp (fun hfirst => ⟨hfirst.1, ih hrest hfirst.2⟩) (ih hnone)

/-! ## First tokens -/

/-- Kind of the first one of some leaves, or the end of the file. -/
def nextKind : List Token → Kind
  | [] => .eof
  | t :: _ => t.kind

/-- What comes next is one of the kinds that can come next, if nothing is known of it. -/
theorem contains_nextKind (leaves : List Token) :
    [nextKind leaves].contains (nextKind leaves) = true := by
  simp

/-- What holds of all kinds that can come next holds of the kind that does. -/
theorem holds_of_contains {kinds : List Kind} {kind : Kind} {p : Kind → Bool}
    (h : kinds.contains kind = true) (hall : kinds.all p = true) : p kind = true :=
  List.all_eq_true.mp hall kind (List.contains_iff_mem.mp h)

theorem eq_of_contains {kind next : Kind} (h : [kind].contains next = true) : next = kind := by
  simpa using h

namespace Grammar

/-- Kinds of tokens that start an expression which a call can follow. -/
def objectStarts : List Kind :=
  .identifier :: .openParen :: literals

/-- Kinds of tokens that start a node of a kind. -/
def first : Kind → List Kind
  | .variableStatement | .variableDeclaration => [.varKw, .letKw, .constKw]
  | .variableDeclarator | .parameter | .propertySignature | .typeReference | .nameExpression =>
      [.identifier]
  | .equalsValueClause => [.equals]
  | .typeAscription => [.colon]
  | .functionDeclaration => [.functionKw]
  | .interfaceDeclaration => [.interfaceKw]
  | .parameterList | .argumentList | .parenthesizedExpression => [.openParen]
  | .block => [.openBrace]
  | .emptyStatement => [.semicolon]
  | .ifStatement => [.ifKw]
  | .elseClause => [.elseKw]
  | .whileStatement => [.whileKw]
  | .returnStatement => [.returnKw]
  | .literalExpression => literals
  | .invocationExpression | .memberAccessExpression => objectStarts
  | .prefixUnaryExpression => signs
  | .expressionStatement | .binaryExpression | .assignmentExpression => objectStarts ++ signs
  | .sourceUnit =>
      [.varKw, .letKw, .constKw, .functionKw, .interfaceKw, .openBrace, .semicolon, .ifKw, .whileKw,
        .returnKw, .eof] ++ objectStarts ++ signs
  | _ => []

/-- The production of a kind, with objects where only objects are nested. -/
def nestedProduction : Kind → Option (List Part)
  | .invocationExpression => some [.one (.node objects), .node .argumentList]
  | .memberAccessExpression => some [.one (.node objects), .token .dot, .token .identifier]
  | kind => production kind

end Grammar

/-- Kinds of tokens that what stands at the place can start with, if what comes behind it
starts with one of the given kinds. -/
def Symbol.first (follow : List Kind) : Symbol → List Kind
  | .token kinds => kinds
  | .node kinds => kinds.flatMap Grammar.first
  | .list kinds => kinds.flatMap Grammar.first ++ follow
  | .separated kinds _ => kinds.flatMap Grammar.first ++ follow

/-- Kinds of tokens that what fills the parts can start with, if what comes behind it
starts with one of the given kinds. -/
def Part.first (follow : List Kind) : List Part → List Kind
  | [] => follow
  | .one symbol :: parts => symbol.first (first follow parts)
  | .maybe symbol :: parts => symbol.first (first follow parts) ++ first follow parts

namespace Element

/-- The element starts like the place at which it stands. -/
def StartsAs (e : Element) (symbol : Symbol) : Prop :=
  ∀ (follow : List Kind) (rest : List Token), follow.contains (nextKind rest) = true →
    (symbol.first follow).contains (nextKind (e.leaves ++ rest)) = true

theorem contains_append {a b : List Kind} {kind : Kind}
    (h : a.contains kind = true ∨ b.contains kind = true) : (a ++ b).contains kind = true := by
  simpa using h

/-- What fills parts starts like one of them, if it is so for each place. -/
theorem contains_first_of_startsAs {parts : List Part} {es : List Element}
    (haccepts : Part.accepts parts es = true)
    (hstarts : ∀ e ∈ es, ∀ symbol : Symbol, symbol.admits e = true → e.StartsAs symbol)
    {follow : List Kind} {rest : List Token} (hrest : follow.contains (nextKind rest) = true) :
    (Part.first follow parts).contains (nextKind (leavesAll es ++ rest)) = true := by
  induction parts generalizing es with
  | nil =>
      rw [Part.accepts, List.isEmpty_iff] at haccepts
      rwa [haccepts]
  | cons part parts ih =>
      -- What fills the first place starts like it, up to what the other parts start with.
      have hfilled {symbol : Symbol} {e : Element} {later : List Element} (he : e ∈ es)
          (hlater : ∀ e ∈ later, e ∈ es) (hadmits : symbol.admits e = true)
          (hparts : Part.accepts parts later = true) :
          (symbol.first (Part.first follow parts)).contains
            (nextKind (leavesAll (e :: later) ++ rest)) = true := by
        rw [leavesAll, List.append_assoc]
        exact hstarts e he symbol hadmits _ _ (ih hparts fun x hx => hstarts x (hlater x hx))
      cases part with
      | one symbol =>
          obtain ⟨e, later, rfl, hadmits, hparts⟩ := Part.exists_of_accepts_cons haccepts
          exact hfilled List.mem_cons_self (fun x hx => List.mem_cons_of_mem _ hx) hadmits hparts
      | maybe symbol =>
          cases es with
          | nil => exact contains_append (.inr (ih haccepts (List.forall_mem_nil _)))
          | cons e later =>
              simp only [Part.accepts, Bool.or_eq_true, Bool.and_eq_true] at haccepts
              refine contains_append ?_
              rcases haccepts with ⟨hadmits, hparts⟩ | hparts
              · exact .inl (hfilled List.mem_cons_self (fun x hx => List.mem_cons_of_mem _ hx)
                  hadmits hparts)
              · exact .inr (ih hparts hstarts)

/-- Where only objects are nested, the first child is one. -/
theorem Fills.accepts_nested {kind : Kind} {cs : List Element} (h : Fills kind cs) :
    ∃ parts, Grammar.nestedProduction kind = some parts ∧ Part.accepts parts cs = true := by
  -- An object in front of what fills the rest of a production.
  have hobject {parts : List Part}
      (hproduction : Grammar.production kind = some (Grammar.expression :: parts))
      (hnested : ∀ e es, (makeNode kind (e :: es)).nested = true → Grammar.object ≤ e.strength) :
      Part.accepts (.one (.node Grammar.objects) :: parts) cs = true := by
    obtain ⟨e, es, rfl, _, hes⟩ := Part.exists_of_accepts_cons (h.accepts_of_production hproduction)
    have he := isNodeIn_objects_of_strength (hnested e es h.nested)
    exact Bool.and_eq_true_iff.mpr ⟨he, hes⟩
  unfold Grammar.nestedProduction
  split
  · exact ⟨_, rfl, hobject rfl fun _ _ => of_decide_eq_true⟩
  · exact ⟨_, rfl, hobject rfl fun _ _ => of_decide_eq_true⟩
  · exact h.accepts

/-- A production starts like the nodes of its kind, whatever comes behind it. -/
theorem first_of_nestedProduction {kind : Kind} {parts : List Part}
    (h : Grammar.nestedProduction kind = some parts) (follow : List Kind) :
    (Part.first follow parts).all (Grammar.first kind).contains = true := by
  have hall : (Grammar.nestedProduction kind).all
      (fun parts => (Part.first follow parts).all (Grammar.first kind).contains) = true := by
    cases kind <;> rfl
  rw [h] at hall
  exact hall

/-- Nodes in front of which there is nothing start like one of their kinds. -/
theorem contains_first_of_nodes {kinds : List Kind} {es : List Element} {follow : List Kind}
    {rest : List Token}
    (hfirst : ∀ e ∈ es.head?, e.StartsAs (.node kinds))
    (hrest : follow.contains (nextKind rest) = true) :
    (kinds.flatMap Grammar.first ++ follow).contains (nextKind (leavesAll es ++ rest)) = true := by
  cases es with
  | nil => exact contains_append (.inr hrest)
  | cons e later =>
      rw [leavesAll, List.append_assoc]
      exact contains_append (.inl (hfirst e rfl _ _ (contains_nextKind _)))

/-- The first of alternating elements is a node. -/
theorem isNodeIn_head?_of_alternates {kinds : List Kind} {es : List Element}
    (h : alternates kinds es = true) : ∀ e ∈ es.head?, e.isNodeIn kinds = true := by
  intro e he
  fun_cases alternates kinds es with
  | case1 => cases he
  | case2 first =>
      cases he
      exact h
  | case3 first comma later =>
      cases he
      simp only [alternates, Bool.and_eq_true] at h
      exact h.1.1

/-- A sound element starts like the place at which it stands. -/
theorem Sound.startsAs {e : Element} (h : e.Sound) {symbol : Symbol}
    (hadmits : symbol.admits e = true) : e.StartsAs symbol := by
  induction e using Element.induction generalizing symbol with
  | token t =>
      intro follow rest _
      cases symbol with
      | token kinds => exact hadmits
      | node _ | list _ | separated _ _ => cases hadmits
  | node kind measure children ih =>
      intro follow rest hrest
      cases symbol with
      | node kinds =>
          obtain ⟨k, cs, heq, _, hfills⟩ := h.exists_fills hadmits
          cases heq
          obtain ⟨parts, hparts, haccepts⟩ := hfills.accepts_nested
          have hstarts (c : Element) (hc : c ∈ children) (symbol : Symbol)
              (hsymbol : symbol.admits c = true) : c.StartsAs symbol :=
            ih c hc (h.child c hc) hsymbol
          have hnext := contains_first_of_startsAs haccepts hstarts hrest
          have hkind := holds_of_contains hnext (first_of_nestedProduction hparts follow)
          exact List.contains_iff_mem.mpr (List.mem_flatMap.mpr
            ⟨kind, List.contains_iff_mem.mp hadmits, List.contains_iff_mem.mp hkind⟩)
      | token _ | list _ | separated _ _ => cases hadmits
  | list measure nodes ih =>
      intro follow rest hrest
      cases symbol with
      | list kinds =>
          refine contains_first_of_nodes (fun e he => ?_) hrest
          have hmem := List.mem_of_mem_head? he
          have hnode : Symbol.admits (.node kinds) e = true :=
            List.all_eq_true.mp hadmits e hmem
          exact ih e hmem (h.child e hmem) hnode
      | token _ | node _ | separated _ _ => cases hadmits
  | separated measure slots ih =>
      intro follow rest hrest
      cases symbol with
      | separated kinds required =>
          refine contains_first_of_nodes (fun e he => ?_) hrest
          have hmem := List.mem_of_mem_head? he
          have hnode : Symbol.admits (.node kinds) e = true := by
            simp only [Symbol.admits, Bool.and_eq_true] at hadmits
            exact isNodeIn_head?_of_alternates hadmits.1 e he
          exact ih e hmem (h.child e hmem) hnode
      | token _ | node _ | list _ => cases hadmits

/-- A sound node starts like the nodes of its kind, whatever comes behind it. -/
theorem Sound.starts {e : Element} (h : e.Sound) {kinds : List Kind}
    (hkinds : e.isNodeIn kinds = true) {p : Kind → Bool}
    (hall : (kinds.flatMap Grammar.first).all p = true) (rest : List Token) :
    p (nextKind (e.leaves ++ rest)) = true := by
  have hadmits : Symbol.admits (.node kinds) e = true := hkinds
  have hcontains := h.startsAs hadmits _ rest (contains_nextKind rest)
  exact holds_of_contains hcontains hall

/-- A sound node starts with one of the tokens that its kind starts with. -/
theorem Sound.contains_first {kind : Kind} {cs : List Element} (h : (makeNode kind cs).Sound)
    (rest : List Token) :
    (Grammar.first kind).contains (nextKind ((makeNode kind cs).leaves ++ rest)) = true := by
  have hkind : (makeNode kind cs).isNodeIn [kind] = true := by simp [makeNode, isNodeIn]
  exact h.starts hkind (by simp) rest

/-- A sound node that does not start like the end of the file has leaves. -/
theorem Sound.leaves_ne_nil {e : Element} (h : e.Sound) {kinds : List Kind}
    (hkinds : e.isNodeIn kinds = true)
    (hall : (kinds.flatMap Grammar.first).all (· != .eof) = true) : e.leaves ≠ [] := by
  intro hnil
  have hnext := h.starts hkinds hall []
  rw [hnil] at hnext
  cases hnext

/-- What fills parts, and is sound, starts like one of them. -/
theorem contains_first_of_accepts {parts : List Part} {es : List Element}
    (haccepts : Part.accepts parts es = true) (hsound : ∀ e ∈ es, e.Sound)
    {follow : List Kind} {rest : List Token} (hrest : follow.contains (nextKind rest) = true) :
    (Part.first follow parts).contains (nextKind (leavesAll es ++ rest)) = true :=
  contains_first_of_startsAs haccepts (fun e he _ hadmits => (hsound e he).startsAs hadmits) hrest

end Element

/-! ## The end of the file -/

/-- Neither the end of the file nor a whole text can stand at the place. -/
def Symbol.isInner : Symbol → Bool
  | .token kinds => !kinds.contains .eof
  | .node kinds => !kinds.contains .sourceUnit
  | .list kinds => !kinds.contains .sourceUnit
  | .separated kinds _ => !kinds.contains .sourceUnit

theorem Grammar.isInner_of_production {kind : Kind} (hkind : kind ≠ .sourceUnit)
    {parts : List Part} (h : production kind = some parts) :
    ∀ part ∈ parts, part.symbol.isInner = true := by
  have hall : (production kind).all (fun parts => parts.all fun part => part.symbol.isInner) =
      true := by
    revert hkind
    cases kind <;> first | exact fun _ => rfl | exact fun hkind => absurd rfl hkind
  rw [h] at hall
  exact List.all_eq_true.mp hall

namespace Element

theorem forall_mem_leavesAll {es : List Element} {p : Token → Prop} :
    (∀ t ∈ leavesAll es, p t) ↔ ∀ c ∈ es, ∀ t ∈ c.leaves, p t := by
  rw [leavesAll_eq_flatMap, List.forall_mem_flatMap]

/-- No leaf of a sound element inside of a text is the end of the file. -/
theorem Sound.kind_ne_eof {e : Element} (h : e.Sound) {symbol : Symbol}
    (hsymbol : symbol.isInner = true) (hadmits : symbol.admits e = true) :
    ∀ t ∈ e.leaves, t.kind ≠ .eof := by
  induction e using Element.induction generalizing symbol with
  | token t =>
      cases symbol with
      | token kinds =>
          refine List.forall_mem_singleton.mpr fun heof => ?_
          rw [Symbol.admits, isTokenIn, heof] at hadmits
          rw [Symbol.isInner, hadmits] at hsymbol
          cases hsymbol
      | node _ | list _ | separated _ _ => cases hadmits
  | node kind measure children ih =>
      cases symbol with
      | node kinds =>
          obtain ⟨k, cs, heq, hk, hfills⟩ := h.exists_fills hadmits
          cases heq
          have hkind : kind ≠ .sourceUnit := by
            rintro rfl
            rw [Symbol.isInner, hk] at hsymbol
            cases hsymbol
          obtain ⟨parts, hparts, haccepts⟩ := hfills.accepts
          refine forall_mem_leavesAll.mpr fun c hc => ?_
          obtain ⟨part, hpart, hpartAdmits⟩ := Part.exists_symbol_of_accepts haccepts c hc
          exact ih c hc (h.child c hc) (Grammar.isInner_of_production hkind hparts part hpart)
            hpartAdmits
      | token _ | list _ | separated _ _ => cases hadmits
  | list measure nodes ih =>
      cases symbol with
      | list kinds =>
          refine forall_mem_leavesAll.mpr fun c hc => ?_
          have hinner : Symbol.isInner (.node kinds) = true := hsymbol
          exact ih c hc (h.child c hc) hinner (List.all_eq_true.mp hadmits c hc)
      | token _ | node _ | separated _ _ => cases hadmits
  | separated measure slots ih =>
      cases symbol with
      | separated kinds required =>
          simp only [Symbol.admits, Bool.and_eq_true] at hadmits
          refine forall_mem_leavesAll.mpr fun c hc => ?_
          rcases slot_of_alternates hadmits.1 c hc with hnode | hcomma
          · have hinner : Symbol.isInner (.node kinds) = true := hsymbol
            exact ih c hc (h.child c hc) hinner hnode
          · have hinner : Symbol.isInner (.token [.comma]) = true := rfl
            exact ih c hc (h.child c hc) hinner hcomma
      | token _ | node _ | list _ => cases hadmits

end Element

end Verbatim
