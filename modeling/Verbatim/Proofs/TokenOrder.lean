/-
  All traversals meet the tokens of a tree in one order.

  The leaves of a tree from left to right are the measure of every traversal: the machine
  of the preorder traversal, the calls of all hooks, a walk with a hook for tokens, and a
  tracking walk that goes into every node.  A tracking walk is described by its calls, the
  nodes and tokens with their absolute starts; whatever the hook does, the walk hands these
  to it one after the other.  The searches for the first and the last token that the source
  has find the two ends of the leaves that the source has.
-/
import Verbatim.Tree.Visit
import Verbatim.Proofs.Representation
import Verbatim.Proofs.Traversal

set_option autoImplicit false

namespace Verbatim

/-! ## Calls of all hooks -/

@[simp] theorem Token.visits_tokens (t : Token) : t.visits.filterMap Visit.token? = [t] := by
  have htrivia (l : TriviaList) : l.visits.filterMap Visit.token? = [] := by
    simp [TriviaList.visits, Visit.token?]
  rw [Token.visits, List.filterMap_cons, List.filterMap_append, htrivia, htrivia]
  rfl

namespace Element

theorem visitsAll_tokens {es : List Element}
    (h : ∀ e ∈ es, e.visits.filterMap Visit.token? = e.leaves) :
    (visitsAll es).filterMap Visit.token? = leavesAll es := by
  induction es with
  | nil => rfl
  | cons e rest ih =>
      obtain ⟨he, hrest⟩ := List.forall_mem_cons.mp h
      rw [visitsAll, leavesAll, List.filterMap_append, he, ih hrest]

theorem visitsChildren_tokens {es : List Element}
    (h : ∀ e ∈ es, e.visits.filterMap Visit.token? = e.leaves) :
    (visitsChildren es).filterMap Visit.token? = leavesAll es := by
  induction es with
  | nil => rfl
  | cons e rest ih =>
      obtain ⟨he, hrest⟩ := List.forall_mem_cons.mp h
      rw [visitsChildren, leavesAll, List.filterMap_cons_none rfl, List.filterMap_append, he,
        ih hrest]

/-- The hooks for tokens are called for the leaves. -/
theorem visits_tokens (e : Element) : e.visits.filterMap Visit.token? = e.leaves := by
  induction e using Element.induction with
  | token t => exact t.visits_tokens
  | node kind measure children ih =>
      rw [visits, List.filterMap_cons_none rfl]
      exact visitsChildren_tokens ih
  | list measure nodes ih | separated measure slots ih =>
      rw [visits, List.filterMap_cons_none rfl]
      exact visitsAll_tokens ih

/-! ## Walks with a hook for tokens -/

variable {σ : Type}

theorem walkTokensAll_eq_foldl {hook : σ → Token → σ} {es : List Element}
    (h : ∀ e ∈ es, ∀ state, e.walkTokens hook state = e.leaves.foldl hook state) (state : σ) :
    walkTokensAll hook es state = (leavesAll es).foldl hook state := by
  induction es generalizing state with
  | nil => rfl
  | cons e rest ih =>
      obtain ⟨he, hrest⟩ := List.forall_mem_cons.mp h
      rw [walkTokensAll, leavesAll, List.foldl_append, he, ih hrest]

/-- A walk with a hook for tokens folds over the leaves. -/
theorem walkTokens_eq_foldl (hook : σ → Token → σ) (e : Element) (state : σ) :
    e.walkTokens hook state = e.leaves.foldl hook state := by
  induction e using Element.induction generalizing state with
  | token t => rfl
  | node kind measure children ih => exact walkTokensAll_eq_foldl ih state
  | list measure nodes ih => exact walkTokensAll_eq_foldl ih state
  | separated measure slots ih => exact walkTokensAll_eq_foldl ih state

end Element

/-- The trivia in front piece by piece, the text, and the trivia behind piece by piece. -/
def Token.printed (t : Token) : Text :=
  t.leading.toList.flatMap Trivia.text ++ t.text ++ t.trailing.toList.flatMap Trivia.text

theorem Token.Regular.printed_eq {t : Token} (h : t.Regular) : t.printed = t.fullText := by
  rw [Token.printed, Token.fullText, h.leading.flatMap_text_toList, h.trailing.flatMap_text_toList]

/-- Printing tokens one behind the other gives their texts one behind the other. -/
theorem Token.foldl_printed {ts : List Token} (h : ∀ t ∈ ts, t.Regular) (out : Text) :
    ts.foldl (fun out t => out ++ t.printed) out = out ++ ts.flatMap Token.fullText := by
  induction ts generalizing out with
  | nil => exact (List.append_nil out).symm
  | cons t rest ih =>
      obtain ⟨ht, hrest⟩ := List.forall_mem_cons.mp h
      rw [List.foldl_cons, ih hrest, ht.printed_eq, List.flatMap_cons, List.append_assoc]

namespace Element

/-! ## Tracking walks -/

mutual

/-- The calls of a tracking walk that goes into every node: the nodes, each before what is
below it, and the tokens, with their absolute starts. -/
def trackCalls : Element → Nat → List (Element × Nat)
  | .token t, start => [(.token t, start)]
  | .node k m cs, start => (.node k m cs, start) :: trackCallsAll cs start
  | .list _ cs, start => trackCallsAll cs start
  | .separated _ cs, start => trackCallsAll cs start

/-- The calls for neighbours. -/
def trackCallsAll : List Element → Nat → List (Element × Nat)
  | [], _ => []
  | e :: rest, start => e.trackCalls start ++ trackCallsAll rest (start + e.fullText.width)

end

theorem trackCallsAll_tokens {es : List Element}
    (h : ∀ e ∈ es, ∀ start, (e.trackCalls start).filterMap (fun c => c.1.token?) = e.leaves)
    (start : Nat) : (trackCallsAll es start).filterMap (fun c => c.1.token?) = leavesAll es := by
  induction es generalizing start with
  | nil => rfl
  | cons e rest ih =>
      obtain ⟨he, hrest⟩ := List.forall_mem_cons.mp h
      rw [trackCallsAll, leavesAll, List.filterMap_append, he, ih hrest]

/-- The calls for tokens are those for the leaves. -/
theorem trackCalls_tokens (e : Element) (start : Nat) :
    (e.trackCalls start).filterMap (fun c => c.1.token?) = e.leaves := by
  induction e using Element.induction generalizing start with
  | token t => rfl
  | node kind measure children ih =>
      rw [trackCalls, List.filterMap_cons_none rfl]
      exact trackCallsAll_tokens ih start
  | list measure nodes ih => exact trackCallsAll_tokens ih start
  | separated measure slots ih => exact trackCallsAll_tokens ih start

section Tracking

variable {σ : Type}

/-- The hook goes into every node. -/
def Enters (hook : σ → Element → Nat → Descend × σ) : Prop :=
  ∀ state e position, e.isNode = true → (hook state e position).1 = .into

/-- The state of a hook behind calls. -/
def answered (hook : σ → Element → Nat → Descend × σ) (calls : List (Element × Nat)) (state : σ) :
    σ :=
  calls.foldl (fun state c => (hook state c.1 c.2).2) state

variable {hook : σ → Element → Nat → Descend × σ}

theorem answered_append (first second : List (Element × Nat)) (state : σ) :
    answered hook (first ++ second) state = answered hook second (answered hook first state) :=
  List.foldl_append

theorem trackAll_of_enters {es : List Element}
    (h : ∀ e ∈ es, ∀ state start, start + e.fullText.width < Offset.limit →
      e.track hook state start =
        .ok (answered hook (e.trackCalls start) state, start + e.fullText.width))
    (state : σ) (start : Nat) (hlimit : start + (fullTextAll es).width < Offset.limit) :
    trackAll hook es state start =
      .ok (answered hook (trackCallsAll es start) state, start + (fullTextAll es).width) := by
  induction es generalizing state start with
  | nil => rfl
  | cons e rest ih =>
      obtain ⟨he, hrest⟩ := List.forall_mem_cons.mp h
      rw [fullTextAll, Text.width_append] at hlimit
      have hfirst := he state start (by omega)
      have hsecond := ih hrest (answered hook (e.trackCalls start) state) (start + e.fullText.width)
        (by omega)
      rw [trackAll, hfirst]
      show trackAll hook rest _ _ = _
      rw [hsecond, trackCallsAll, answered_append, fullTextAll, Text.width_append, Nat.add_assoc]

/-- A walk that goes into every node makes all calls and ends behind the text. -/
theorem track_of_enters (h : Enters hook) (e : Element) (state : σ) (start : Nat)
    (hlimit : start + e.fullText.width < Offset.limit) :
    e.track hook state start =
      .ok (answered hook (e.trackCalls start) state, start + e.fullText.width) := by
  induction e using Element.induction generalizing state start with
  | token t =>
      rw [fullText, Token.width_fullText] at hlimit ⊢
      have hadd : Offset.add start t.fullWidth = .ok (start + t.fullWidth) := if_pos hlimit
      rw [track, hadd]
      rfl
  | node kind measure children ih =>
      have hinto := h state (.node kind measure children) start rfl
      rw [track]
      split
      · rename_i next heq
        have hnext : next = (hook state (.node kind measure children) start).2 := by rw [heq]
        rw [hnext]
        exact trackAll_of_enters ih _ start hlimit
      · rename_i heq
        rw [heq] at hinto
        cases hinto
  | list measure nodes ih => exact trackAll_of_enters ih state start hlimit
  | separated measure slots ih => exact trackAll_of_enters ih state start hlimit

end Tracking

/-! ## The first and the last token -/

/-- The leaves that the source has. -/
def presentLeaves (e : Element) : List Token :=
  e.leaves.filter fun t => !t.isZeroWidth

theorem firstTokenAll?_eq {es : List Element}
    (h : ∀ e ∈ es, e.firstToken? = (e.leaves.filter fun t => !t.isZeroWidth).head?) :
    firstTokenAll? es = ((leavesAll es).filter fun t => !t.isZeroWidth).head? := by
  induction es with
  | nil => rfl
  | cons e rest ih =>
      obtain ⟨he, hrest⟩ := List.forall_mem_cons.mp h
      rw [firstTokenAll?, leavesAll, List.filter_append, List.head?_append, ← he, ih hrest]
      cases e.firstToken? <;> rfl

/-- The search from the left finds the first leaf that the source has. -/
theorem firstToken?_eq (e : Element) : e.firstToken? = e.presentLeaves.head? := by
  unfold presentLeaves
  induction e using Element.induction with
  | token t => cases h : t.isZeroWidth <;> simp [firstToken?, leaves, Token.present?, h]
  | node kind measure children ih => exact firstTokenAll?_eq ih
  | list measure nodes ih => exact firstTokenAll?_eq ih
  | separated measure slots ih => exact firstTokenAll?_eq ih

theorem lastTokenAll?_eq {es : List Element}
    (h : ∀ e ∈ es, e.lastToken? = (e.leaves.filter fun t => !t.isZeroWidth).getLast?) :
    lastTokenAll? es = ((leavesAll es).filter fun t => !t.isZeroWidth).getLast? := by
  induction es with
  | nil => rfl
  | cons e rest ih =>
      obtain ⟨he, hrest⟩ := List.forall_mem_cons.mp h
      rw [lastTokenAll?, leavesAll, List.filter_append, List.getLast?_append, ← he, ih hrest]
      cases ((leavesAll rest).filter fun t => !t.isZeroWidth).getLast? <;> rfl

/-- The search from the right finds the last leaf that the source has. -/
theorem lastToken?_eq (e : Element) : e.lastToken? = e.presentLeaves.getLast? := by
  unfold presentLeaves
  induction e using Element.induction with
  | token t => cases h : t.isZeroWidth <;> simp [lastToken?, leaves, Token.present?, h]
  | node kind measure children ih => exact lastTokenAll?_eq ih
  | list measure nodes ih => exact lastTokenAll?_eq ih
  | separated measure slots ih => exact lastTokenAll?_eq ih

/-! ## All traversals -/

/-- Every traversal of a node meets its leaves, in order. -/
structure TraversalsAgree (root : Element) : Prop where
  preorder : root.tokens = root.leaves
  hooks : root.visits.filterMap Visit.token? = root.leaves
  walker {σ : Type} (hook : σ → Token → σ) (state : σ) :
    root.walkTokens hook state = root.leaves.foldl hook state
  /-- As far as positions go, a tracking walk hands the same calls to every hook that goes
  into all nodes, and their tokens are the leaves. -/
  tracking {σ : Type} (hook : σ → Element → Nat → Descend × σ) (state : σ) (start : Nat) :
    Enters hook → start + root.width < Offset.limit →
      root.track hook state start =
          .ok (answered hook (root.trackCalls start) state, start + root.width) ∧
        (root.trackCalls start).filterMap (fun c => c.1.token?) = root.leaves
  text : root.tokens.flatMap Token.fullText = root.fullText
  printing : root.walkTokens (fun out t => out ++ t.printed) [] = root.fullText

/-- The searches from both ends find the ends of the leaves that the source has. -/
structure EndsInPresentLeaves (e : Element) : Prop where
  first : e.firstToken? = e.presentLeaves.head?
  last : e.lastToken? = e.presentLeaves.getLast?

theorem Regular.traversalsAgree {root : Element} (h : root.Regular) (hnode : root.isNode = true) :
    root.TraversalsAgree where
  preorder := tokens_eq_leaves (isToken_of_isNode hnode)
  hooks := root.visits_tokens
  walker := fun hook state => root.walkTokens_eq_foldl hook state
  tracking := by
    intro σ hook state start henters hlimit
    rw [h.made.width_eq] at hlimit ⊢
    exact ⟨track_of_enters henters root state start hlimit, root.trackCalls_tokens start⟩
  text := by rw [tokens_eq_leaves (isToken_of_isNode hnode), fullText_eq_leaves]
  printing := by
    have hregular : ∀ t ∈ root.leaves, t.Regular := fun t ht => (h.leaves t ht).of_token
    rw [walkTokens_eq_foldl, Token.foldl_printed hregular, fullText_eq_leaves]
    rfl

/-- Whatever the operations of the library put together, all traversals of a node meet its
leaves from left to right, and the first and the last token of an element are the ends of
those of its leaves that the source has. -/
theorem traversals_agree {e : Element} (h : e.Constructed) :
    (e.isNode = true → e.TraversalsAgree) ∧ e.EndsInPresentLeaves :=
  ⟨h.regular.traversalsAgree, ⟨e.firstToken?_eq, e.lastToken?_eq⟩⟩

/-- A name behind a comment, and a comma that the source does not have. -/
def unevenSlots : List Element :=
  [makeNode .nameExpression
      [.token (.make .identifier "x".toList (.ofList [⟨.multiLineComment, "/**/".toList⟩]) .empty)],
    .token (.make .comma [] .empty .empty)]

/-- A block without an opening brace, over an empty list and a separated list. -/
def unevenBlock : Element :=
  makeNode .block
    [.token (.make .openBrace [] .empty .empty), makeList [],
      .separated (measureAll unevenSlots) unevenSlots,
      .token (.make .closeBrace "\x7d".toList .empty (.ofList [⟨.newline, "\n".toList⟩]))]

theorem constructed_unevenBlock : unevenBlock.Constructed := by
  have hname := Constructed.of_makeNode .nameExpression rfl <|
    List.forall_mem_singleton.mpr <|
      Constructed.of_make .identifier rfl "x".toList
        (.ofList [⟨.multiLineComment, "/**/".toList⟩]) .empty
  have hcomma := Constructed.of_make .comma rfl [] .empty .empty
  have hslots : Constructed (.separated (measureAll unevenSlots) unevenSlots) :=
    .separated (List.forall_mem_cons.mpr ⟨hname, List.forall_mem_singleton.mpr hcomma⟩)
      (by decide) rfl
  have hopen := Constructed.of_make .openBrace rfl [] .empty .empty
  have hclose := Constructed.of_make .closeBrace rfl "\x7d".toList .empty
    (.ofList [⟨.newline, "\n".toList⟩])
  refine .of_makeNode .block rfl ?_
  simp only [List.forall_mem_cons]
  exact ⟨hopen, constructed_makeList_nil, hslots, hclose, List.forall_mem_nil _⟩

/-- Four leaves are met, and the ends are the name and the closing brace. -/
theorem traversals_agree_unevenBlock :
    unevenBlock.Constructed ∧ unevenBlock.isNode = true ∧
      unevenBlock.leaves.map Token.text = [[], "x".toList, [], "\x7d".toList] ∧
      unevenBlock.presentLeaves.map Token.text = ["x".toList, "\x7d".toList] ∧
      unevenBlock.TraversalsAgree ∧ unevenBlock.EndsInPresentLeaves := by
  have hagree := traversals_agree constructed_unevenBlock
  exact ⟨constructed_unevenBlock, rfl, by decide, by decide, hagree.1 rfl, hagree.2⟩

end Element

end Verbatim
