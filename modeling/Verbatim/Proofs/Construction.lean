/-
  Trees that the operations of the library give.

  A tree comes from tokens, nodes, lists and separated lists that are put together or
  edited, from a builder, or from a parse, and parts of it can be taken out and used
  again.  However it comes about, its tokens keep the facts of regular runs of trivia,
  its summaries are settled from the children, its lists hold nodes, and its separated
  lists alternate.  One operation keeps this; for a builder it is kept call by call.
-/
import Verbatim.Proofs.CompleteTrees
import Verbatim.Proofs.Conformance

set_option autoImplicit false

namespace Verbatim

/-! ## Runs of trivia -/

/-- Runs of trivia that the operations on trivia give. -/
inductive TriviaList.Constructed : TriviaList → Prop where
  | empty : Constructed .empty
  | ofList (items : List Trivia) : Constructed (.ofList items)
  | ofPieces {text : Text} {pieces : List TriviaPiece} {l : TriviaList} :
      TriviaList.ofPieces text pieces = .ok l → Constructed l
  | concat {a b : TriviaList} : Constructed a → Constructed b → Constructed (a.concat b)

theorem TriviaList.Constructed.regular {l : TriviaList} (h : l.Constructed) : l.Regular := by
  induction h with
  | empty => exact regular_empty
  | ofList items => exact regular_ofList items
  | ofPieces hpieces =>
      obtain ⟨items, _, _, rfl⟩ := exists_of_ofPieces hpieces
      exact regular_ofList items
  | concat _ _ iha ihb => exact iha.concat ihb

/-! ## Calls to a builder -/

namespace Builder

/-- A call that adds to a tree under construction. -/
inductive Call where
  | startNode (kind : Kind)
  | finishNode
  | startList
  | finishList
  | startSeparated
  | finishSeparated
  | token (kind : Kind) (text : Text) (leading trailing : TriviaList)
  | pushToken (token : Token)
  | pushNode (node : Element)

/-- Makes one call. -/
def call (b : Builder) : Call → Except Fault Builder
  | .startNode kind => .ok (b.startNode kind)
  | .finishNode => b.finishNode
  | .startList => b.startList
  | .finishList => b.finishList
  | .startSeparated => b.startSeparated
  | .finishSeparated => b.finishSeparated
  | .token kind text leading trailing => b.token kind text leading trailing
  | .pushToken t => b.pushToken t
  | .pushNode e => b.pushNode e

/-- Makes calls one after the other, up to the first one that is refused. -/
def callAll (b : Builder) : List Call → Except Fault Builder
  | [] => .ok b
  | c :: rest =>
      match b.call c with
      | .error fault => .error fault
      | .ok next => callAll next rest

end Builder

/-! ## Elements -/

namespace Element

/-- Elements that can be obtained through the operations of the library. -/
inductive Constructed : Element → Prop where
  | token {kind : Kind} {text : Text} {leading trailing : TriviaList} {t : Token} :
      leading.Constructed → trailing.Constructed →
        Token.new kind text leading trailing = .ok t → Constructed (.token t)
  | missing {kind : Kind} {t : Token} : Token.missing kind = .ok t → Constructed (.token t)
  | withLeading {t : Token} {leading : TriviaList} :
      Constructed (.token t) → leading.Constructed → Constructed (.token (t.withLeading leading))
  | withTrailing {t : Token} {trailing : TriviaList} :
      Constructed (.token t) → trailing.Constructed →
        Constructed (.token (t.withTrailing trailing))
  | node {kind : Kind} {children : List Element} {e : Element} :
      (∀ c ∈ children, Constructed c) → newNode kind children = .ok e → Constructed e
  | replaceChild {e new edited : Element} {index : Nat} :
      Constructed e → e.isNode = true → Constructed new →
        e.replaceChild index new = .ok edited → Constructed edited
  | list {nodes : List Element} :
      (∀ c ∈ nodes, Constructed c) → (∀ c ∈ nodes, c.isNode = true) → Constructed (makeList nodes)
  | separated {slots : List Element} {e : Element} :
      (∀ c ∈ slots, Constructed c) → (∀ c ∈ slots, (c.isNode || c.isToken) = true) →
        newSeparated slots = .ok e → Constructed e
  /-- A builder is given runs, tokens and nodes that are obtained in the same way. -/
  | built {calls : List Builder.Call} {b : Builder} {root : Element} :
      (∀ kind text leading trailing, .token kind text leading trailing ∈ calls →
        leading.Constructed ∧ trailing.Constructed) →
      (∀ t, .pushToken t ∈ calls → Constructed (.token t)) →
      (∀ e, .pushNode e ∈ calls → Constructed e) →
      (∀ e, .pushNode e ∈ calls → e.isNode = true) →
        Builder.empty.callAll calls = .ok b → b.finish = .ok root → Constructed root
  | parsed {source : Text} {options : ParseOptions} {p : Parse} :
      parse source options = .ok p → Constructed p.root
  | child {e c : Element} : Constructed e → c ∈ e.children → Constructed c

/-- A token of a kind that labels tokens, put together from its parts. -/
theorem Constructed.of_make (kind : Kind) (h : kind.isToken = true) (text : Text)
    {leading trailing : TriviaList} (hleading : leading.Constructed)
    (htrailing : trailing.Constructed) :
    Constructed (.token (.make kind text leading trailing)) :=
  .token hleading htrailing (if_pos h : Token.new kind text leading trailing = .ok _)

/-- A node of a kind that labels nodes, put together from its children. -/
theorem Constructed.of_makeNode (kind : Kind) (h : kind.isNode = true) {children : List Element}
    (hchildren : ∀ c ∈ children, c.Constructed) : (makeNode kind children).Constructed :=
  .node hchildren (if_pos h : newNode kind children = .ok _)

theorem constructed_makeList_nil : (makeList []).Constructed :=
  .list (List.forall_mem_nil _) (List.forall_mem_nil _)

end Element

theorem Token.eq_of_new {kind : Kind} {text : Text} {leading trailing : TriviaList} {t : Token}
    (h : Token.new kind text leading trailing = .ok t) :
    kind.isToken = true ∧ t = .make kind text leading trailing := by
  unfold Token.new at h
  split at h
  · rename_i hkind
    cases h
    exact ⟨hkind, rfl⟩
  · cases h

theorem Element.eq_of_newNode {kind : Kind} {children : List Element} {e : Element}
    (h : newNode kind children = .ok e) : kind.isNode = true ∧ e = makeNode kind children := by
  unfold newNode at h
  split at h
  · rename_i hkind
    cases h
    exact ⟨hkind, rfl⟩
  · cases h

/-- The trivia on both sides of the token is regular. -/
structure Token.Regular (t : Token) : Prop where
  leading : t.leading.Regular
  trailing : t.trailing.Regular

namespace Element

/-- Elements with regular trivia, settled summaries, lists of nodes, and separated lists
that alternate. -/
inductive Regular : Element → Prop where
  | token (kind : Kind) (text : Text) {leading trailing : TriviaList} :
      leading.Regular → trailing.Regular → Regular (.token (.make kind text leading trailing))
  | node (kind : Kind) {children : List Element} :
      (∀ c ∈ children, Regular c) → Regular (makeNode kind children)
  | list {nodes : List Element} :
      (∀ c ∈ nodes, Regular c) → (∀ c ∈ nodes, c.isNode = true) → Regular (makeList nodes)
  | separated {slots : List Element} :
      (∀ c ∈ slots, Regular c) → (∀ c ∈ slots, (c.isNode || c.isToken) = true) →
        checkSlots 0 slots = .ok () → Regular (.separated (measureAll slots) slots)

namespace Regular

theorem made {e : Element} (h : e.Regular) : e.Made := by
  induction h with
  | token kind text _ _ => exact .token kind text _ _
  | node kind _ ih => exact .node kind _ ih
  | list _ _ ih => exact .list _ ih
  | separated _ _ _ ih => exact .separated _ ih

theorem children {e : Element} (h : e.Regular) : ∀ c ∈ e.children, c.Regular := by
  cases h with
  | token _ _ _ _ => exact List.forall_mem_nil _
  | node _ hchildren => exact hchildren
  | list hnodes _ => exact hnodes
  | separated hslots _ _ => exact hslots

/-- The trivia of a regular token is regular. -/
theorem of_token {t : Token} (h : (Element.token t).Regular) : t.Regular := by
  cases h with
  | token _ _ hleading htrailing => exact ⟨hleading, htrailing⟩

theorem of_new {kind : Kind} {text : Text} {leading trailing : TriviaList} {t : Token}
    (hleading : leading.Regular) (htrailing : trailing.Regular)
    (h : Token.new kind text leading trailing = .ok t) : (Element.token t).Regular := by
  obtain ⟨_, rfl⟩ := Token.eq_of_new h
  exact .token kind text hleading htrailing

theorem of_newNode {kind : Kind} {children : List Element} {e : Element}
    (hchildren : ∀ c ∈ children, c.Regular) (h : newNode kind children = .ok e) : e.Regular := by
  obtain ⟨_, rfl⟩ := eq_of_newNode h
  exact .node kind hchildren

theorem of_newSeparated {slots : List Element} {e : Element} (hslots : ∀ c ∈ slots, c.Regular)
    (hroles : ∀ c ∈ slots, (c.isNode || c.isToken) = true) (h : newSeparated slots = .ok e) :
    e.Regular := by
  obtain ⟨_, hcheck, h⟩ := exists_of_bind h
  cases h
  exact .separated hslots hroles hcheck

/-- Replacing a child keeps the other ones. -/
theorem of_replaceChild {e new edited : Element} {index : Nat} (he : e.Regular)
    (hnew : new.Regular) (h : e.replaceChild index new = .ok edited) : edited.Regular := by
  unfold replaceChild at h
  split at h
  · cases h
    refine .node _ fun c hc => ?_
    rcases List.mem_or_eq_of_mem_set hc with hold | rfl
    · exact he.children c hold
    · exact hnew
  · cases h

end Regular

end Element

/-! ## One call to a builder -/

namespace Builder

/-- Everything that is finished is regular. -/
def Regular (b : Builder) : Prop :=
  ∀ e ∈ b.finished, e.Regular

/-- What is given to a call is regular. -/
def Call.Regular : Call → Prop
  | .token _ _ leading trailing => leading.Regular ∧ trailing.Regular
  | .pushToken t => (Element.token t).Regular
  | .pushNode e => e.Regular
  | _ => True

theorem isNode_of_requireNodes {es : List Element} (h : requireNodes es = .ok ()) :
    ∀ e ∈ es, e.isNode = true := by
  induction es with
  | nil => exact List.forall_mem_nil _
  | cons e rest ih =>
      rw [requireNodes] at h
      split at h
      · rename_i he
        exact List.forall_mem_cons.mpr ⟨he, ih h⟩
      · cases h

theorem isSlot_of_requireSlots {es : List Element} (h : requireSlots es = .ok ()) :
    ∀ e ∈ es, (e.isNode || e.isToken) = true := by
  induction es with
  | nil => exact List.forall_mem_nil _
  | cons e rest ih =>
      rw [requireSlots] at h
      split at h
      · rename_i he
        exact List.forall_mem_cons.mpr ⟨he, ih h⟩
      · cases h

variable {b next : Builder}

theorem Regular.push (hb : b.Regular) {e : Element} (he : e.Regular) : (b.push e).Regular :=
  List.forall_mem_append.mpr ⟨hb, List.forall_mem_singleton.mpr he⟩

theorem Regular.close (hb : b.Regular) (mark : Nat) {e : Element} (he : e.Regular) :
    (b.close mark e).Regular :=
  List.forall_mem_append.mpr
    ⟨fun c hc => hb c (List.mem_of_mem_take hc), List.forall_mem_singleton.mpr he⟩

theorem Regular.drop (hb : b.Regular) (mark : Nat) :
    ∀ e ∈ b.finished.drop mark, e.Regular :=
  fun e he => hb e (List.mem_of_mem_drop he)

theorem Regular.finishNode (hb : b.Regular) (h : b.finishNode = .ok next) : next.Regular := by
  obtain ⟨frame, _, h⟩ := exists_of_bind h
  cases frame with
  | node kind mark =>
      obtain ⟨e, he, h⟩ := exists_of_bind h
      cases h
      exact hb.close mark (.of_newNode (hb.drop mark) he)
  | list _ | separated _ => cases h

theorem Regular.finishList (hb : b.Regular) (h : b.finishList = .ok next) : next.Regular := by
  obtain ⟨frame, _, h⟩ := exists_of_bind h
  cases frame with
  | list mark =>
      obtain ⟨_, hnodes, h⟩ := exists_of_bind h
      cases h
      exact hb.close mark (.list (hb.drop mark) (isNode_of_requireNodes hnodes))
  | node _ _ | separated _ => cases h

theorem Regular.finishSeparated (hb : b.Regular) (h : b.finishSeparated = .ok next) :
    next.Regular := by
  obtain ⟨frame, _, h⟩ := exists_of_bind h
  cases frame with
  | separated mark =>
      obtain ⟨_, hslots, h⟩ := exists_of_bind h
      split at h
      · rename_i e he
        cases h
        exact hb.close mark (.of_newSeparated (hb.drop mark) (isSlot_of_requireSlots hslots) he)
      · cases h
  | node _ _ | list _ => cases h

theorem Regular.pushToken (hb : b.Regular) {t : Token} (ht : (Element.token t).Regular)
    (h : b.pushToken t = .ok next) : next.Regular := by
  obtain ⟨frame, _, h⟩ := exists_of_bind h
  cases frame with
  | list _ => cases h
  | node _ _ | separated _ =>
      cases h
      exact hb.push ht

theorem Regular.pushNode (hb : b.Regular) {e : Element} (he : e.Regular)
    (h : b.pushNode e = .ok next) : next.Regular := by
  obtain ⟨_, _, h⟩ := exists_of_bind h
  cases h
  exact hb.push he

theorem Regular.token (hb : b.Regular) {kind : Kind} {text : Text}
    {leading trailing : TriviaList} (hleading : leading.Regular) (htrailing : trailing.Regular)
    (h : b.token kind text leading trailing = .ok next) : next.Regular := by
  obtain ⟨t, ht, h⟩ := exists_of_bind h
  exact hb.pushToken (.of_new hleading htrailing ht) h

/-- Opening a list leaves what is finished alone. -/
theorem finished_of_startList (h : b.startList = .ok next) : next.finished = b.finished := by
  obtain ⟨_, _, h⟩ := exists_of_bind h
  cases h
  rfl

theorem finished_of_startSeparated (h : b.startSeparated = .ok next) :
    next.finished = b.finished := by
  obtain ⟨_, _, h⟩ := exists_of_bind h
  cases h
  rfl

/-- One call with regular parts keeps what is finished regular. -/
theorem Regular.call (hb : b.Regular) {c : Call} (hc : c.Regular) (h : b.call c = .ok next) :
    next.Regular := by
  cases c with
  | startNode kind =>
      cases h
      exact hb
  | finishNode => exact hb.finishNode h
  | startList =>
      unfold Builder.Regular
      rw [finished_of_startList h]
      exact hb
  | finishList => exact hb.finishList h
  | startSeparated =>
      unfold Builder.Regular
      rw [finished_of_startSeparated h]
      exact hb
  | finishSeparated => exact hb.finishSeparated h
  | token kind text leading trailing => exact hb.token hc.1 hc.2 h
  | pushToken t => exact hb.pushToken hc h
  | pushNode e => exact hb.pushNode hc h

/-- Calls with regular parts keep what is finished regular. -/
theorem Regular.callAll {calls : List Call} (hb : b.Regular) (hcalls : ∀ c ∈ calls, c.Regular)
    (h : b.callAll calls = .ok next) : next.Regular := by
  induction calls generalizing b with
  | nil =>
      cases h
      exact hb
  | cons c rest ih =>
      obtain ⟨hc, hrest⟩ := List.forall_mem_cons.mp hcalls
      rw [Builder.callAll] at h
      split at h
      · cases h
      · rename_i mid hmid
        exact ih (hb.call hc hmid) hrest h

/-- The root that a builder ends with is one of its finished elements. -/
theorem mem_of_finish {root : Element} (h : b.finish = .ok root) : root ∈ b.finished := by
  unfold finish at h
  split at h
  · split at h
    · rename_i hfinished
      cases h
      rw [hfinished]
      exact List.mem_singleton_self _
    · cases h
  · cases h

theorem regular_empty : empty.Regular :=
  List.forall_mem_nil _

end Builder

/-! ## Parsed trees -/

namespace ParseState

/-- An action puts tokens with regular trivia into the tree. -/
theorem Allows.regular_leavesOf {s : ParseState} {a : Action} (h : s.Allows a) (hs : s.Regular) :
    ∀ t ∈ s.leavesOf a, t.Regular := by
  have hstandIn (kind : Kind) : (Token.standIn kind).Regular :=
    ⟨TriviaList.regular_empty, TriviaList.regular_empty⟩
  cases a with
  | read =>
      have hpeek := peek_mem_of_peekKind_ne h
      exact List.forall_mem_singleton.mpr
        ⟨hs.regular_nextLeaf_leading hpeek, (hs.tokens _ hpeek).trailing⟩
  | supply kind _ => exact List.forall_mem_singleton.mpr (hstandIn kind)
  | fill kind => exact List.forall_mem_singleton.mpr (hstandIn kind)
  | skip _ => exact List.forall_mem_nil _
  | complain _ => exact List.forall_mem_nil _

end ParseState

theorem Steps.regular_leaves {s t : ParseState} {actions : List Action} {leaves : List Token}
    (h : Steps s actions leaves t) (hs : s.Regular) : ∀ leaf ∈ leaves, leaf.Regular := by
  induction h with
  | refl s => exact List.forall_mem_nil _
  | cons ha _ ih =>
      exact List.forall_mem_append.mpr ⟨ha.regular_leavesOf hs, ih (ha.regular_act hs)⟩

/-- Where all nodes conform to the grammar, lists hold nodes and separated lists
alternate. -/
theorem Element.Made.regular {e : Element} (h : e.Made)
    (hconforms : ∀ n ∈ e.nodes, n.conforms = true) (hleaves : ∀ t ∈ e.leaves, t.Regular)
    {symbol : Symbol} (hadmits : symbol.admits e = true) : e.Regular := by
  induction h generalizing symbol with
  | token kind text leading trailing =>
      obtain ⟨hleading, htrailing⟩ := hleaves _ (List.mem_singleton_self _)
      exact .token kind text hleading htrailing
  | node kind children _ ih =>
      have hself := hconforms _ List.mem_cons_self
      rw [Element.conforms] at hself
      split at hself
      · refine .node kind fun c hc => ?_
        obtain ⟨part, _, hpart⟩ := Part.exists_symbol_of_accepts hself c hc
        exact ih c hc (fun n hn => hconforms n (mem_nodes_of_child hc hn))
          (forall_mem_leavesAll.mp hleaves c hc) hpart
      · cases hself
  | list nodes _ ih =>
      cases symbol with
      | list kinds =>
          have hkinds := List.all_eq_true.mp hadmits
          refine .list (fun c hc => ?_) fun c hc => isNode_of_isNodeIn (hkinds c hc)
          have hnode : Symbol.admits (.node kinds) c = true := hkinds c hc
          exact ih c hc (fun n hn => hconforms n (mem_nodes_of_child hc hn))
            (forall_mem_leavesAll.mp hleaves c hc) hnode
      | token _ | node _ | separated _ _ => cases hadmits
  | separated slots _ ih =>
      cases symbol with
      | separated kinds required =>
          simp only [Symbol.admits, Bool.and_eq_true] at hadmits
          refine .separated (fun c hc => ?_) (isSlot_of_alternates hadmits.1)
            (checkSlots_of_alternates hadmits.1 rfl)
          have hbelow : ∀ n ∈ c.nodes, n.conforms = true :=
            fun n hn => hconforms n (mem_nodes_of_child hc hn)
          have hregular := forall_mem_leavesAll.mp hleaves c hc
          rcases slot_of_alternates hadmits.1 c hc with hnode | hcomma
          · have hkind : Symbol.admits (.node kinds) c = true := hnode
            exact ih c hc hbelow hregular hkind
          · have hkind : Symbol.admits (.token [.comma]) c = true := hcomma
            exact ih c hc hbelow hregular hkind
      | token _ | node _ | list _ => cases hadmits

/-- The tree of a parse is regular. -/
theorem ParseRun.regular_root {source : Text} {options : ParseOptions}
    (run : ParseRun source options) : run.root.Regular := by
  have hleaves : ∀ t ∈ run.root.leaves, t.Regular := by
    rw [run.leaves_root]
    refine List.forall_mem_append.mpr ⟨?_, List.forall_mem_singleton.mpr ⟨?_, ?_⟩⟩
    · exact run.reads.reading.steps.regular_leaves run.regular
    · exact run.regular_last.regular_nextLeaf_leading run.peek_mem_last
    · exact (run.regular_last.tokens _ run.peek_mem_last).trailing
  have hadmits : Symbol.admits (.node [.sourceUnit]) run.root = true := rfl
  exact run.made_root.regular run.nodes_conform hleaves hadmits

/-! ## All trees -/

/-- Whatever can be obtained is regular. -/
theorem Element.Constructed.regular {e : Element} (h : e.Constructed) : e.Regular := by
  induction h with
  | token hleading htrailing hnew =>
      exact .of_new hleading.regular htrailing.regular hnew
  | missing hmissing => exact .of_new TriviaList.regular_empty TriviaList.regular_empty hmissing
  | withLeading _ hleading ih => exact .token _ _ hleading.regular ih.of_token.trailing
  | withTrailing _ htrailing ih => exact .token _ _ ih.of_token.leading htrailing.regular
  | node _ hnew ih => exact .of_newNode ih hnew
  | replaceChild _ _ _ hedited ihe ihnew => exact .of_replaceChild ihe ihnew hedited
  | list _ hnodes ih => exact .list ih hnodes
  | separated _ hroles hnew ih => exact .of_newSeparated ih hroles hnew
  | @built calls b root htokens _ _ _ hcalls hfinish ihtoken ihnode =>
      have hregular : ∀ c ∈ calls, c.Regular := by
        intro c hc
        cases c with
        | token kind text leading trailing =>
            obtain ⟨hleading, htrailing⟩ := htokens kind text leading trailing hc
            exact ⟨hleading.regular, htrailing.regular⟩
        | pushToken t => exact ihtoken t hc
        | pushNode e => exact ihnode e hc
        | startNode _ | finishNode | startList | finishList | startSeparated | finishSeparated =>
            trivial
      have hbuilder := Builder.regular_empty.callAll hregular hcalls
      exact hbuilder root (Builder.mem_of_finish hfinish)
  | parsed hparse =>
      obtain ⟨run, rfl⟩ := exists_parseRun_of_parse hparse
      exact run.regular_root
  | child _ hc ih => exact ih.children _ hc

end Verbatim
