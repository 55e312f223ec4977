/-
  Semicolons in a tree.

  Statements of three kinds end in a semicolon or lack it.  Such statements stand only
  where the grammar has statements: a node of a kind whose production leads to no
  statement has none below it.  That is so because kinds can be closed: their productions
  lead to nodes of these kinds and no others.  A tree without the semicolons that the source
  does not have is put together anew from its other leaves.  And every node of a tree has a
  place, which is told by the leaves in front of it.
-/
import Verbatim.Proofs.Productions

set_option autoImplicit false

namespace Verbatim

/-- A node of a tree, and the leaves in front of it. -/
structure NodePlace where
  front : List Token
  node : Element

/-! ## Statements that a semicolon ends -/

namespace Element

/-- A statement that a semicolon ends. -/
def isTerminated (e : Element) : Bool :=
  e.isNodeIn Grammar.terminated

/-- Number of semicolons among the children. -/
def semicolons (e : Element) : Nat :=
  e.children.countP (isTokenIn [.semicolon])

/-- A statement without the semicolon that ends it. -/
def lacksSemicolon (e : Element) : Bool :=
  e.isTerminated && e.semicolons == 0

end Element

/-! ## Nodes without statements below them -/

namespace Grammar

/-- Kinds of nodes that no statement ended by a semicolon can be, or stand in. -/
def inert : List Kind :=
  expressions ++
    [.argumentList, .variableDeclaration, .variableDeclarator, .equalsValueClause, .parameterList,
      .parameter, .typeAscription, .typeReference, .interfaceDeclaration, .propertySignature,
      .emptyStatement]

theorem not_inert_of_terminated {kind : Kind} (h : terminated.contains kind = true) :
    inert.contains kind = false := by
  revert h
  cases kind <;> first | exact fun _ => rfl | nofun

end Grammar

/-- Only nodes of the kinds can stand at the place. -/
def Symbol.isWithin (inner : List Kind) : Symbol → Bool
  | .token _ => true
  | .node kinds => kinds.all inner.contains
  | .list kinds => kinds.all inner.contains
  | .separated kinds _ => kinds.all inner.contains

/-- Only nodes of inert kinds can stand at the place. -/
def Symbol.isInert (symbol : Symbol) : Bool :=
  symbol.isWithin Grammar.inert

/-- A semicolon can stand at the place. -/
def Symbol.admitsSemicolon : Symbol → Bool
  | .token kinds => kinds.contains .semicolon
  | _ => false

theorem Symbol.isTokenIn_of_admits {symbol : Symbol} (hsymbol : symbol.admitsSemicolon = false)
    {e : Element} (h : symbol.admits e = true) : e.isTokenIn [.semicolon] = false := by
  cases e with
  | token t =>
      cases symbol with
      | token kinds =>
          have hne : t.kind ≠ .semicolon := by
            intro hkind
            rw [admits, Element.isTokenIn, hkind] at h
            exact absurd (hsymbol.symm.trans h) Bool.false_ne_true
          simpa [Element.isTokenIn] using hne
      | node _ => cases h
      | list _ => cases h
      | separated _ _ => cases h
  | node _ _ _ => rfl
  | list _ _ => rfl
  | separated _ _ => rfl

/-- The place of a part. -/
def Part.symbol : Part → Symbol
  | .one symbol => symbol
  | .maybe symbol => symbol

/-- The productions of the kinds have places for nodes of these kinds only. -/
def Grammar.isClosed (inner : List Kind) : Bool :=
  inner.all fun kind =>
    (production kind).all fun parts => parts.all fun part => part.symbol.isWithin inner

theorem Grammar.isClosed_inert : isClosed inert = true := by
  decide

/-- What fills the parts fills the place of one of them. -/
theorem Part.exists_symbol_of_accepts {parts : List Part} {es : List Element}
    (h : accepts parts es = true) : ∀ e ∈ es, ∃ part ∈ parts, part.symbol.admits e = true := by
  induction parts generalizing es with
  | nil =>
      rw [accepts, List.isEmpty_iff] at h
      rw [h]
      exact List.forall_mem_nil _
  | cons part parts ih =>
      -- An element behind the first place fills one of the other parts.
      have hlater {rest : List Element} (hrest : accepts parts rest = true) :
          ∀ e ∈ rest, ∃ p ∈ part :: parts, p.symbol.admits e = true := by
        intro e he
        obtain ⟨p, hp, hadmits⟩ := ih hrest e he
        exact ⟨p, List.mem_cons_of_mem _ hp, hadmits⟩
      have hfirst {e : Element} (he : part.symbol.admits e = true) :
          ∃ p ∈ part :: parts, p.symbol.admits e = true :=
        ⟨part, List.mem_cons_self, he⟩
      cases es with
      | nil => exact List.forall_mem_nil _
      | cons e rest =>
          cases part with
          | one symbol =>
              simp only [accepts, Bool.and_eq_true] at h
              exact List.forall_mem_cons.mpr ⟨hfirst h.1, hlater h.2⟩
          | maybe symbol =>
              simp only [accepts, Bool.or_eq_true, Bool.and_eq_true] at h
              rcases h with h | h
              · exact List.forall_mem_cons.mpr ⟨hfirst h.1, hlater h.2⟩
              · exact hlater h

namespace Element

/-- A token or a node of one of the kinds, or a list of such elements. -/
def isWithin (inner : List Kind) : Element → Bool
  | .token _ => true
  | .node kind _ _ => inner.contains kind
  | .list _ nodes => nodes.all fun e => e.isToken || e.isNodeIn inner
  | .separated _ slots => slots.all fun e => e.isToken || e.isNodeIn inner

theorem isNodeIn_mono {kinds larger : List Kind} (hkinds : kinds.all larger.contains = true)
    {e : Element} (h : e.isNodeIn kinds = true) : e.isNodeIn larger = true := by
  cases e with
  | node kind _ _ => exact List.all_eq_true.mp hkinds kind (List.contains_iff_mem.mp h)
  | token _ => cases h
  | list _ _ => cases h
  | separated _ _ => cases h

variable {inner : List Kind}

theorem isWithin_of_slot {e : Element} (h : (e.isToken || e.isNodeIn inner) = true) :
    e.isWithin inner = true := by
  cases e with
  | token t => rfl
  | node kind measure children =>
      have hinner : (node kind measure children).isNodeIn inner = true := by
        simpa [isToken, category] using h
      exact hinner
  | list _ _ => cases h
  | separated _ _ => cases h

/-- What can stand at a place within kinds is within them. -/
theorem isWithin_of_admits {symbol : Symbol} (hsymbol : symbol.isWithin inner = true)
    {e : Element} (h : symbol.admits e = true) : e.isWithin inner = true := by
  cases symbol with
  | token kinds =>
      cases e with
      | token t => rfl
      | node _ _ _ => cases h
      | list _ _ => cases h
      | separated _ _ => cases h
  | node kinds =>
      have he : e.isNodeIn inner = true := isNodeIn_mono hsymbol h
      exact isWithin_of_slot (by rw [he, Bool.or_true])
  | list kinds =>
      cases e with
      | list measure nodes =>
          refine List.all_eq_true.mpr fun c hc => ?_
          rw [isNodeIn_mono hsymbol (List.all_eq_true.mp h c hc), Bool.or_true]
      | token _ => cases h
      | node _ _ _ => cases h
      | separated _ _ => cases h
  | separated kinds required =>
      cases e with
      | separated measure slots =>
          simp only [Symbol.admits, Bool.and_eq_true] at h
          refine List.all_eq_true.mpr fun c hc => ?_
          rcases slot_of_alternates h.1 c hc with hnode | hcomma
          · rw [isNodeIn_mono hsymbol hnode, Bool.or_true]
          · rw [(isToken_of_isTokenIn hcomma).2, Bool.true_or]
      | token _ => cases h
      | node _ _ _ => cases h
      | list _ _ => cases h

/-- The production of a kind among closed kinds has places within them only. -/
theorem isWithin_of_production (hclosed : Grammar.isClosed inner = true) {kind : Kind}
    (h : inner.contains kind = true) {parts : List Part}
    (hparts : Grammar.production kind = some parts) :
    ∀ part ∈ parts, part.symbol.isWithin inner = true := by
  have hall := List.all_eq_true.mp hclosed kind (List.contains_iff_mem.mp h)
  rw [hparts] at hall
  exact List.all_eq_true.mp hall

theorem nodesAll_eq_flatMap (es : List Element) : nodesAll es = es.flatMap nodes := by
  induction es with
  | nil => rfl
  | cons e rest ih => rw [nodesAll, ih, List.flatMap_cons]

/-- A fact about the nodes below neighbours is a fact about the nodes below each one. -/
theorem forall_mem_nodesAll {es : List Element} {p : Element → Prop} :
    (∀ n ∈ nodesAll es, p n) ↔ ∀ c ∈ es, ∀ n ∈ c.nodes, p n := by
  rw [nodesAll_eq_flatMap, List.forall_mem_flatMap]

/-- What a conforming node of a kind is made of. -/
theorem accepts_of_conforms {kind : Kind} {measure : Measure} {children : List Element}
    {parts : List Part} (hparts : Grammar.production kind = some parts)
    (h : (node kind measure children).conforms = true) :
    Part.accepts parts children = true := by
  simpa [conforms, Element.kind, hparts, Element.children] using h

/-- Below an element within closed kinds there are nodes of these kinds only, since the
children of a node fill its production. -/
theorem isNodeIn_of_isWithin (hclosed : Grammar.isClosed inner = true) {e : Element}
    (h : e.isWithin inner = true) (hconforms : ∀ n ∈ e.nodes, n.conforms = true) :
    ∀ n ∈ e.nodes, n.isNodeIn inner = true := by
  induction e using Element.induction with
  | token t => exact List.forall_mem_nil _
  | node kind measure children ih =>
      rw [nodes] at hconforms ⊢
      obtain ⟨hnode, hbelow⟩ := List.forall_mem_cons.mp hconforms
      refine List.forall_mem_cons.mpr ⟨h, forall_mem_nodesAll.mpr fun c hc => ?_⟩
      cases hparts : Grammar.production kind with
      | none => simp [conforms, Element.kind, hparts] at hnode
      | some parts =>
          obtain ⟨part, hpart, hadmits⟩ :=
            Part.exists_symbol_of_accepts (accepts_of_conforms hparts hnode) c hc
          have hwithin := isWithin_of_admits (isWithin_of_production hclosed h hparts part hpart)
            hadmits
          exact ih c hc hwithin (forall_mem_nodesAll.mp hbelow c hc)
  | list measure nodes ih =>
      refine forall_mem_nodesAll.mpr fun c hc => ?_
      exact ih c hc (isWithin_of_slot (List.all_eq_true.mp h c hc))
        (forall_mem_nodesAll.mp hconforms c hc)
  | separated measure slots ih =>
      refine forall_mem_nodesAll.mpr fun c hc => ?_
      exact ih c hc (isWithin_of_slot (List.all_eq_true.mp h c hc))
        (forall_mem_nodesAll.mp hconforms c hc)

/-- What fills parts within closed kinds has nodes of these kinds only below it. -/
theorem isNodeIn_of_accepts (hclosed : Grammar.isClosed inner = true) {parts : List Part}
    {es : List Element} (hparts : parts.all (fun part => part.symbol.isWithin inner) = true)
    (haccepts : Part.accepts parts es = true)
    (hconforms : ∀ n ∈ nodesAll es, n.conforms = true) :
    ∀ n ∈ nodesAll es, n.isNodeIn inner = true := by
  refine forall_mem_nodesAll.mpr fun c hc => ?_
  obtain ⟨part, hpart, hadmits⟩ := Part.exists_symbol_of_accepts haccepts c hc
  have hwithin := isWithin_of_admits (List.all_eq_true.mp hparts part hpart) hadmits
  exact isNodeIn_of_isWithin hclosed hwithin (forall_mem_nodesAll.mp hconforms c hc)

/-- What fills inert parts has no statement below it that a semicolon ends. -/
theorem not_isTerminated_of_accepts {parts : List Part} {es : List Element}
    (hparts : parts.all (fun part => part.symbol.isInert) = true)
    (haccepts : Part.accepts parts es = true)
    (hconforms : ∀ n ∈ nodesAll es, n.conforms = true) :
    ∀ n ∈ nodesAll es, n.isTerminated = false := by
  intro n hn
  have hnode := isNodeIn_of_accepts Grammar.isClosed_inert hparts haccepts hconforms n hn
  refine isNodeIn_of_not_contains ?_
  cases hterminated : Grammar.terminated.contains n.kind with
  | false => rfl
  | true =>
      have hnot := Grammar.not_inert_of_terminated hterminated
      rw [contains_of_isNodeIn hnode] at hnot
      cases hnot

theorem isInert_of_unterminated (kind : Kind) :
    (Grammar.unterminated kind).all (fun part => part.symbol.isInert) = true := by
  cases kind <;> rfl

/-- Up to the end of a statement there is no semicolon among its children. -/
theorem countP_semicolon_of_unterminated {kind : Kind} {es : List Element}
    (h : Part.accepts (Grammar.unterminated kind) es = true) :
    es.countP (isTokenIn [.semicolon]) = 0 := by
  have hparts : (Grammar.unterminated kind).all
      (fun part => !part.symbol.admitsSemicolon) = true := by
    cases kind <;> rfl
  refine List.countP_eq_zero.mpr fun e he => ?_
  obtain ⟨part, hpart, hadmits⟩ := Part.exists_symbol_of_accepts h e he
  have hnone : part.symbol.admitsSemicolon = false := by
    simpa using List.all_eq_true.mp hparts part hpart
  rw [Symbol.isTokenIn_of_admits hnone hadmits]
  exact Bool.false_ne_true

/-! ## Leaving out what the source does not have -/

mutual

/-- The element, put together anew without the tokens of a kind that the source does not
have. -/
def dropAbsent (kind : Kind) : Element → Element
  | .token t => .token t
  | .node k _ cs => makeNode k (dropAbsentAll kind cs)
  | .list _ cs => makeList (dropAbsentAll kind cs)
  | .separated _ cs => .separated (measureAll (dropAbsentAll kind cs)) (dropAbsentAll kind cs)

/-- Neighbours without the tokens of a kind that the source does not have. -/
def dropAbsentAll (kind : Kind) : List Element → List Element
  | [] => []
  | e :: rest =>
      if e.isAbsent kind then dropAbsentAll kind rest
      else e.dropAbsent kind :: dropAbsentAll kind rest

end

theorem dropAbsentAll_append (kind : Kind) (a b : List Element) :
    dropAbsentAll kind (a ++ b) = dropAbsentAll kind a ++ dropAbsentAll kind b := by
  induction a with
  | nil => rfl
  | cons e rest ih =>
      simp only [List.cons_append, dropAbsentAll, ih]
      split <;> rfl

/-! ## Places -/

mutual

/-- The nodes of an element that stands behind the given leaves. -/
def placesFrom (front : List Token) : Element → List NodePlace
  | .token _ => []
  | .node k m cs => ⟨front, .node k m cs⟩ :: placesAllFrom front cs
  | .list _ cs => placesAllFrom front cs
  | .separated _ cs => placesAllFrom front cs

/-- The nodes of neighbours that stand behind the given leaves. -/
def placesAllFrom (front : List Token) : List Element → List NodePlace
  | [] => []
  | e :: rest => e.placesFrom front ++ placesAllFrom (front ++ e.leaves) rest

end

theorem placesAllFrom_append (front : List Token) (a b : List Element) :
    placesAllFrom front (a ++ b) =
      placesAllFrom front a ++ placesAllFrom (front ++ leavesAll a) b := by
  induction a generalizing front with
  | nil => simp [placesAllFrom, leavesAll]
  | cons e rest ih =>
      simp only [List.cons_append, placesAllFrom, leavesAll, ih, List.append_assoc]

theorem map_node_placesAllFrom {es : List Element}
    (h : ∀ e ∈ es, ∀ front, (e.placesFrom front).map NodePlace.node = e.nodes)
    (front : List Token) : (placesAllFrom front es).map NodePlace.node = nodesAll es := by
  induction es generalizing front with
  | nil => rfl
  | cons e rest ih =>
      obtain ⟨he, hrest⟩ := List.forall_mem_cons.mp h
      rw [placesAllFrom, List.map_append, he, ih hrest, nodesAll]

/-- Every node has its place. -/
theorem map_node_placesFrom (e : Element) (front : List Token) :
    (e.placesFrom front).map NodePlace.node = e.nodes := by
  induction e using Element.induction generalizing front with
  | token t => rfl
  | node kind measure children ih =>
      rw [placesFrom, List.map_cons, map_node_placesAllFrom ih, nodes]
  | list measure nodes ih => exact map_node_placesAllFrom ih front
  | separated measure slots ih => exact map_node_placesAllFrom ih front

theorem node_mem_of_place {es : List Element} {front : List Token} {place : NodePlace}
    (h : place ∈ placesAllFrom front es) : place.node ∈ nodesAll es := by
  rw [← map_node_placesAllFrom (fun e _ => e.map_node_placesFrom) front]
  exact List.mem_map_of_mem h

end Element

end Verbatim
