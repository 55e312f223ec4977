/-
  Trees are rebuilt from their own structure.

  However a tree comes about, its nodes are labelled with kinds of nodes and its tokens
  with kinds of tokens: the constructors see to it, an edit keeps the label of the node
  that it changes, and a parse is a run of calls to a builder, so that its tree is written
  down by them.  Since the summaries of such a tree are settled from its children, writing
  its structure down and giving the calls to a fresh builder yields the tree again.
-/
import Verbatim.Proofs.ReplayedCalls
import Verbatim.Proofs.Representation
import Verbatim.Proofs.Traversal

set_option autoImplicit false

namespace Verbatim

/-! ## Labels -/

namespace Element

/-- Nodes have kinds of nodes, and tokens have kinds of tokens. -/
structure Labelled (e : Element) : Prop where
  nodes : ∀ n ∈ e.nodes, n.kind.isNode = true
  leaves : ∀ t ∈ e.leaves, t.kind.isToken = true

theorem labelled_token {t : Token} (h : t.kind.isToken = true) : (Element.token t).Labelled :=
  ⟨List.forall_mem_nil _, List.forall_mem_singleton.mpr h⟩

/-- Children with labels, below a node or a list. -/
theorem labelled_of_children {e : Element} (htoken : e.isToken = false)
    (hkind : e.isNode = true → e.kind.isNode = true) (h : ∀ c ∈ e.children, c.Labelled) :
    e.Labelled where
  nodes := by
    intro n hn
    rcases mem_nodes_iff.mp hn with ⟨hnode, rfl⟩ | ⟨c, hc, hn⟩
    · exact hkind hnode
    · exact (h c hc).nodes n hn
  leaves := by
    intro t ht
    rw [leaves_eq_children htoken, leavesAll_eq_flatMap] at ht
    obtain ⟨c, hc, ht⟩ := List.mem_flatMap.mp ht
    exact (h c hc).leaves t ht

theorem Labelled.child {e c : Element} (h : e.Labelled) (hc : c ∈ e.children) : c.Labelled where
  nodes := fun n hn => h.nodes n (mem_nodes_of_child hc hn)
  leaves := by
    intro t ht
    cases e with
    | token t => cases hc
    | node _ _ _ | list _ _ | separated _ _ =>
        refine h.leaves t ?_
        rw [leaves_eq_children rfl, leavesAll_eq_flatMap]
        exact List.mem_flatMap.mpr ⟨c, hc, ht⟩

theorem Labelled.kind_isNode {e : Element} (h : e.Labelled) (hnode : e.isNode = true) :
    e.kind.isNode = true :=
  h.nodes e (mem_nodes_iff.mpr (.inl ⟨hnode, rfl⟩))

theorem labelled_of_new {kind : Kind} {text : Text} {leading trailing : TriviaList} {t : Token}
    (h : Token.new kind text leading trailing = .ok t) : (Element.token t).Labelled := by
  obtain ⟨hkind, rfl⟩ := Token.eq_of_new h
  exact labelled_token hkind

end Element

open Element in
/-- What is written with labels has labels. -/
theorem Builder.Writes.labelled {calls : List Call} {es : List Element} (h : Writes calls es)
    (hpushed : ∀ e, .pushNode e ∈ calls → e.Labelled) : ∀ e ∈ es, e.Labelled := by
  induction h with
  | nil => exact List.forall_mem_nil _
  | token hkind _ ih =>
      exact List.forall_mem_cons.mpr
        ⟨labelled_token hkind, ih fun e he => hpushed e (List.mem_cons_of_mem _ he)⟩
  | pushToken hkind _ ih =>
      exact List.forall_mem_cons.mpr
        ⟨labelled_token hkind, ih fun e he => hpushed e (List.mem_cons_of_mem _ he)⟩
  | pushNode _ _ ih =>
      exact List.forall_mem_cons.mpr
        ⟨hpushed _ List.mem_cons_self, ih fun e he => hpushed e (List.mem_cons_of_mem _ he)⟩
  | @node kind inner calls _ _ hkind _ _ ihinner ih =>
      refine List.forall_mem_cons.mpr ⟨?_, ih fun e he => hpushed e ?_⟩
      · refine labelled_of_children rfl (fun _ => hkind) (ihinner fun e he => hpushed e ?_)
        exact List.mem_cons_of_mem _ (List.mem_append_left _ he)
      · exact List.mem_cons_of_mem _ (List.mem_append_right _ (List.mem_cons_of_mem _ he))
  | list _ _ _ ihinner ih | separated _ _ _ ihinner ih =>
      refine List.forall_mem_cons.mpr ⟨?_, ih fun e he => hpushed e ?_⟩
      · refine labelled_of_children rfl nofun (ihinner fun e he => hpushed e ?_)
        exact List.mem_cons_of_mem _ (List.mem_append_left _ he)
      · exact List.mem_cons_of_mem _ (List.mem_append_right _ (List.mem_cons_of_mem _ he))

/-! ## A parse is a run of calls -/

/-- The tree of a parse is built by calls that are given nothing that is there already. -/
theorem exists_calls_of_parse {source : Text} {options : ParseOptions} {p : Parse}
    (h : parse source options = .ok p) :
    ∃ calls : List Builder.Call, (∀ c ∈ calls, c.isFresh = true) ∧
      ∃ b, Builder.empty.callAll calls = .ok b ∧ b.finish = .ok p.root := by
  obtain ⟨scanned, _, h⟩ := exists_of_bind h
  obtain ⟨⟨events, reported⟩, _, h⟩ := exists_of_bind h
  obtain ⟨root, hreplay, h⟩ := exists_of_bind h
  cases h
  obtain ⟨b, hb, hroot⟩ := exists_of_bind hreplay
  obtain ⟨calls, hcalls, hof⟩ := Segment.exists_calls_of_replayFrom (Nat.le_refl _) hb
  exact ⟨calls, hof.isFresh, b, hcalls, hroot⟩

/-- A tree that calls build has labels, if what they are given has. -/
theorem Builder.labelled_of_builds {calls : List Call} {b : Builder} {root : Element}
    (htyped : ∀ c ∈ calls, c.Typed) (hpushed : ∀ e, .pushNode e ∈ calls → e.Labelled)
    (hb : empty.callAll calls = .ok b) (hroot : b.finish = .ok root) : root.Labelled :=
  (serializes_of_builds htyped hb hroot).writes.labelled hpushed root (List.mem_singleton_self _)

namespace Element

/-- Whatever can be obtained has labels. -/
theorem Constructed.labelled {e : Element} (h : e.Constructed) : e.Labelled := by
  induction h with
  | token _ _ hnew => exact labelled_of_new hnew
  | missing hmissing => exact labelled_of_new hmissing
  | @withLeading t _ _ _ ih | @withTrailing t _ _ _ ih =>
      have hkind := ih.leaves t (List.mem_singleton_self _)
      exact labelled_token hkind
  | node _ hnew ih =>
      obtain ⟨hkind, rfl⟩ := eq_of_newNode hnew
      exact labelled_of_children rfl (fun _ => hkind) ih
  | replaceChild _ hnode _ hedited ihe ihnew =>
      unfold Element.replaceChild at hedited
      split at hedited
      · cases hedited
        refine labelled_of_children rfl (fun _ => ihe.kind_isNode hnode) fun c hc => ?_
        rcases List.mem_or_eq_of_mem_set hc with hold | rfl
        · exact ihe.child hold
        · exact ihnew
      · cases hedited
  | list _ _ ih => exact labelled_of_children rfl nofun ih
  | separated _ _ hnew ih =>
      obtain ⟨_, _, hnew⟩ := exists_of_bind hnew
      cases hnew
      exact labelled_of_children rfl nofun ih
  | @built calls b root _ _ _ hnodes hcalls hfinish ihtoken ihnode =>
      refine Builder.labelled_of_builds (fun c hc => ?_) ihnode hcalls hfinish
      cases c with
      | pushToken t => exact (ihtoken t hc).leaves t (List.mem_singleton_self _)
      | pushNode e => exact hnodes e hc
      | startNode _ | finishNode | startList | finishList | startSeparated | finishSeparated
        | token _ _ _ _ => trivial
  | parsed hparse =>
      obtain ⟨calls, hfresh, b, hcalls, hfinish⟩ := exists_calls_of_parse hparse
      refine Builder.labelled_of_builds (fun c hc => ?_) (fun e he => ?_) hcalls hfinish
      · have hc := hfresh c hc
        cases c with
        | pushToken _ | pushNode _ => cases hc
        | startNode _ | finishNode | startList | finishList | startSeparated | finishSeparated
          | token _ _ _ _ => trivial
      · cases hfresh _ he
  | child _ hc ih => exact ih.child hc

/-! ## The structure of a tree -/

mutual

/-- The calls that write the element down. -/
def calls : Element → List Builder.Call
  | .token t => [.token t.kind t.text t.leading t.trailing]
  | .node kind _ children => .startNode kind :: (callsAll children ++ [.finishNode])
  | .list _ nodes => .startList :: (callsAll nodes ++ [.finishList])
  | .separated _ slots => .startSeparated :: (callsAll slots ++ [.finishSeparated])

/-- The calls that write neighbours down. -/
def callsAll : List Element → List Builder.Call
  | [] => []
  | e :: rest => e.calls ++ callsAll rest

end

theorem writes_callsAll {es : List Element} (h : ∀ e ∈ es, Builder.Writes e.calls [e]) :
    Builder.Writes (callsAll es) es := by
  induction es with
  | nil => exact .nil
  | cons e rest ih =>
      obtain ⟨he, hrest⟩ := List.forall_mem_cons.mp h
      exact he.append (ih hrest)

/-- The calls of an element write it down. -/
theorem Regular.writes_calls {e : Element} (h : e.Regular) (hlabelled : e.Labelled) :
    Builder.Writes e.calls [e] := by
  induction h with
  | token kind text _ _ =>
      exact .token (hlabelled.leaves _ (List.mem_singleton_self _)) .nil
  | node kind _ ih =>
      have hinner := writes_callsAll fun c hc => ih c hc (hlabelled.child hc)
      exact .node (hlabelled.kind_isNode rfl) hinner .nil
  | list _ hnodes ih =>
      have hinner := writes_callsAll fun c hc => ih c hc (hlabelled.child hc)
      exact .list hnodes hinner .nil
  | separated _ hroles hcheck ih =>
      have hinner := writes_callsAll fun c hc => ih c hc (hlabelled.child hc)
      exact .separated (alternating_of_slots (Nat.zero_mod 2) hroles hcheck) hinner .nil

theorem Regular.serializes_calls {root : Element} (h : root.Regular) (hlabelled : root.Labelled)
    (hnode : root.isNode = true) : Builder.Serializes root.calls root := by
  cases h with
  | node kind hchildren =>
      have hinner := writes_callsAll fun c hc =>
        (hchildren c hc).writes_calls (hlabelled.child (e := makeNode kind _) hc)
      exact ⟨kind, _, _, hlabelled.kind_isNode rfl, hinner, rfl, rfl⟩
  | token _ _ _ _ | list _ _ | separated _ _ _ => cases hnode

end Element

/-! ## What a builder accepts -/

/-- Calls build a tree, none of them refused, exactly if they are the tree written down.
Whatever tree can be obtained, the calls that its structure gives build it again. -/
theorem Builder.builds_iff_serializes :
    (∀ (calls : List Call) (root : Element), (∀ c ∈ calls, c.Typed) →
      ((∃ b, empty.callAll calls = .ok b ∧ b.finish = .ok root) ↔ Serializes calls root)) ∧
    ∀ root : Element, root.Constructed → root.isNode = true →
      ∃ b, empty.callAll root.calls = .ok b ∧ b.finish = .ok root := by
  refine ⟨fun calls root htyped => ⟨?_, Serializes.builds⟩, fun root hroot hnode => ?_⟩
  · rintro ⟨b, hb, hfinish⟩
    exact serializes_of_builds htyped hb hfinish
  · exact (hroot.regular.serializes_calls hroot.labelled hnode).builds

namespace Builder

/-- A parameter without a type. -/
def plainParameter (name : Text) : Element :=
  .makeNode .parameter [.token (.make .identifier name .empty .empty)]

/-- A parameter list with a parameter that is there already, a comma that is there
already, and a parameter that is written down. -/
def parameterCalls : List Call :=
  [.startNode .parameterList, .token .openParen "(".toList .empty .empty, .startSeparated,
    .pushNode (plainParameter "a".toList), .pushToken (.make .comma ",".toList .empty .empty),
    .startNode .parameter, .token .identifier "b".toList .empty .empty, .finishNode,
    .finishSeparated, .token .closeParen ")".toList .empty .empty, .finishNode]

/-- A block with a token where a statement has to stand. -/
def strayTokenCalls : List Call :=
  [.startNode .block, .startList, .token .semicolon ";".toList .empty .empty, .finishList,
    .finishNode]

/-- The parameter list `(a,b)`. -/
def plainParameters : Element :=
  .makeNode .parameterList
    [.token (.make .openParen "(".toList .empty .empty),
      .separated
        (Element.measureAll [plainParameter "a".toList,
          .token (.make .comma ",".toList .empty .empty), plainParameter "b".toList])
        [plainParameter "a".toList, .token (.make .comma ",".toList .empty .empty),
          plainParameter "b".toList],
      .token (.make .closeParen ")".toList .empty .empty)]

theorem typed_parameterCalls : ∀ c ∈ parameterCalls, c.Typed := by
  simp only [parameterCalls, List.forall_mem_cons]
  exact ⟨trivial, trivial, trivial, rfl, rfl, trivial, trivial, trivial, trivial, trivial, trivial,
    List.forall_mem_nil _⟩

theorem typed_strayTokenCalls : ∀ c ∈ strayTokenCalls, c.Typed := by
  simp only [strayTokenCalls, List.forall_mem_cons]
  exact ⟨trivial, trivial, trivial, trivial, trivial, List.forall_mem_nil _⟩

theorem constructed_plainParameters : plainParameters.Constructed := by
  have htoken (kind : Kind) (text : Text) (hkind : kind.isToken = true) :
      (Element.token (.make kind text .empty .empty)).Constructed :=
    .of_make kind hkind text .empty .empty
  have hparameter (name : Text) : (plainParameter name).Constructed :=
    .of_makeNode .parameter rfl (List.forall_mem_singleton.mpr (htoken .identifier name rfl))
  have hslots : ∀ c ∈ [plainParameter "a".toList, .token (.make .comma ",".toList .empty .empty),
      plainParameter "b".toList], c.Constructed := by
    simp only [List.forall_mem_cons]
    exact ⟨hparameter _, htoken _ _ rfl, hparameter _, List.forall_mem_nil _⟩
  refine .of_makeNode .parameterList rfl ?_
  simp only [List.forall_mem_cons]
  refine ⟨htoken _ _ rfl, .separated hslots ?_ rfl, htoken _ _ rfl, List.forall_mem_nil _⟩
  simp only [List.forall_mem_cons]
  exact ⟨rfl, rfl, rfl, List.forall_mem_nil _⟩

/-- The calls of the parameter list are accepted and hence write it down, its own
structure builds it again, and the stray token is refused because it writes no tree. -/
theorem builds_iff_serializes_plainParameters :
    ((∀ c ∈ parameterCalls, c.Typed) ∧ Serializes parameterCalls plainParameters) ∧
      ((∀ c ∈ strayTokenCalls, c.Typed) ∧
        ∀ root : Element, ¬ Serializes strayTokenCalls root) ∧
      plainParameters.Constructed ∧ plainParameters.isNode = true ∧
        ∃ b, empty.callAll plainParameters.calls = .ok b ∧ b.finish = .ok plainParameters := by
  obtain ⟨hiff, hrebuilt⟩ := builds_iff_serializes
  refine ⟨⟨typed_parameterCalls, ?_⟩, ⟨typed_strayTokenCalls, fun root hroot => ?_⟩,
    constructed_plainParameters, rfl, hrebuilt _ constructed_plainParameters rfl⟩
  · exact (hiff _ _ typed_parameterCalls).mp ⟨⟨[], [plainParameters]⟩, rfl, rfl⟩
  · obtain ⟨b, hb, _⟩ := (hiff _ root typed_strayTokenCalls).mpr hroot
    cases hb

end Builder

end Verbatim
