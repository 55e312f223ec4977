/-
  Reading back the leaves of a tree.

  A state faces leaves if its tokens are these leaves, without anything around them that
  would matter to a parser, and nothing has been reported.  From a state that faces the
  children of a sound node, the production of the node reads them one by one: what has
  been read stands for the first children, and the state faces the others.  Whether a
  part that may be left out is there shows at the next token, because the kinds that it
  starts with are not among those that can come next without it.
-/
import Verbatim.Proofs.CompleteTrees
import Verbatim.Proofs.Spacing
import Verbatim.Proofs.StateReading

set_option autoImplicit false

namespace Verbatim

/-! ## States that face leaves -/

/-- A leaf with nothing in front of it, and no line break behind it. -/
structure Token.Plain (t : Token) : Prop where
  isToken : t.kind.isToken = true
  leading : t.leading = .empty
  newline : t.trailing.flags.newline = false

namespace ParseState

/-- The tokens to come are the given leaves, and nothing has been skipped or reported. -/
structure Faces (s : ParseState) (leaves : List Token) : Prop where
  tokens : s.tokens.map ScannedToken.leaf = leaves
  plain : ∀ t ∈ leaves, t.Plain
  skipped : s.skipped = .empty
  afterLineBreak : s.afterLineBreak = false
  diagnostics : s.diagnostics = []

namespace Faces

variable {s t : ParseState} {leaves rest : List Token}

theorem length_eq (h : s.Faces leaves) : s.tokens.length = leaves.length := by
  rw [← h.tokens, List.length_map]

/-- What is left to face is no more than there was. -/
theorem length_le (h : s.Faces (leaves ++ rest)) (h' : t.Faces rest) :
    t.tokens.length ≤ s.tokens.length := by
  rw [h.length_eq, h'.length_eq, List.length_append]
  exact Nat.le_add_left _ _

theorem length_lt (h : s.Faces (leaves ++ rest)) (h' : t.Faces rest) (hleaves : leaves ≠ []) :
    t.tokens.length < s.tokens.length := by
  have hpos := List.length_pos_iff.mpr hleaves
  rw [h.length_eq, h'.length_eq, List.length_append]
  omega

theorem peekKind (h : s.Faces leaves) : s.peekKind = nextKind leaves := by
  rw [ParseState.peekKind, peek, ← h.tokens]
  cases s.tokens with
  | nil => rfl
  | cons token tokens => rfl

theorem isAt (h : s.Faces leaves) (kind : Kind) : s.isAt kind = (nextKind leaves == kind) := by
  rw [ParseState.isAt, h.peekKind]

theorem atLineBreak (h : s.Faces leaves) : s.atLineBreak = false := by
  have hleading : s.peek.leading = .empty := by
    rw [peek]
    have hplain := h.plain
    rw [← h.tokens] at hplain
    cases htokens : s.tokens with
    | nil => rfl
    | cons token tokens =>
        rw [htokens] at hplain
        exact (hplain token.leaf List.mem_cons_self).leading
  rw [ParseState.atLineBreak, h.afterLineBreak, hleading]
  rfl

/-- The first leaf is read as it is. -/
theorem advance {leaf : Token} (h : s.Faces (leaf :: rest)) :
    Parser.Succeeds Parser.advance s fun events t =>
      events.Stands [.token leaf] ∧ t.Faces rest ∧ t.tokens.length < s.tokens.length := by
  have hplain := h.plain leaf List.mem_cons_self
  obtain ⟨token, tokens, htokens, rfl, hrest⟩ := List.map_eq_cons_iff.mp h.tokens
  have hpeek : s.peek = token := by rw [peek, htokens]
  have hleading : token.leading = .empty := hplain.leading
  have htoken : s.nextToken = token := by
    have hconcat : TriviaList.empty.concat .empty = .empty := rfl
    rw [nextToken, hpeek, h.skipped, hleading, hconcat, ← hleading]
  refine (Parser.advance_reads_next s).mono ?_
  rintro _ _ ⟨rfl, rfl⟩
  refine ⟨?_, ?_, ?_⟩
  · rw [htoken]
    exact Segment.stands_token hplain.isToken
  · have hnewline : s.peek.trailing.flags.newline = false := by
      rw [hpeek]
      exact hplain.newline
    exact ⟨by simpa [act, consume, htokens] using hrest,
      fun t ht => h.plain t (List.mem_cons_of_mem _ ht), rfl, hnewline, h.diagnostics⟩
  · simp [act, consume, htokens]

end Faces

end ParseState

/-- The parser yields output that stands for the elements, and faces what is left. -/
def Recognizes (p : Parser Segment) (s : ParseState) (es : List Element) (rest : List Token) :
    Prop :=
  Parser.Succeeds p s fun events t => events.Stands es ∧ t.Faces rest

/-! ## Children that are read one by one -/

/-- Some of the elements have been read.  The others fill the parts and come next, with
the given leaves behind them. -/
def Partway (es : List Element) (rest : List Token) (parts : List Part) (events : Segment)
    (s : ParseState) : Prop :=
  ∃ done left, es = done ++ left ∧ events.Stands done ∧ Part.accepts parts left = true ∧
    (∀ e ∈ left, e.Sound) ∧ s.Faces (Element.leavesAll left ++ rest)

namespace Partway

open Verbatim.Parser

variable {es : List Element} {rest : List Token} {parts : List Part} {events : Segment}
  {s : ParseState} {kinds follow : List Kind}

/-- Nothing has been read yet. -/
theorem start (haccepts : Part.accepts parts es = true) (hsound : ∀ e ∈ es, e.Sound)
    (hs : s.Faces (Element.leavesAll es ++ rest)) : Partway es rest parts [] s :=
  ⟨[], es, rfl, Segment.stands_nil, haccepts, hsound, hs⟩

/-- Everything has been read. -/
theorem finish (h : Partway es rest [] events s) : events.Stands es ∧ s.Faces rest := by
  obtain ⟨done, left, rfl, hevents, haccepts, _, hs⟩ := h
  rw [Part.accepts, List.isEmpty_iff] at haccepts
  subst haccepts
  rw [List.append_nil]
  exact ⟨hevents, hs⟩

/-- The next token is one that the parts can start with. -/
theorem contains_first (h : Partway es rest parts events s)
    (hrest : follow.contains (nextKind rest) = true) :
    (Part.first follow parts).contains s.peekKind = true := by
  obtain ⟨_, left, _, _, haccepts, hsound, hs⟩ := h
  rw [hs.peekKind]
  exact Element.contains_first_of_accepts haccepts hsound hrest

/-- The next token is as all tokens are that the parts can start with. -/
theorem starts (h : Partway es rest parts events s)
    (hrest : follow.contains (nextKind rest) = true) {p : Kind → Bool}
    (hall : (Part.first follow parts).all p = true) : p s.peekKind = true :=
  holds_of_contains (h.contains_first hrest) hall

/-- The next token is the only one that the parts can start with. -/
theorem peekKind_eq (h : Partway es rest parts events s)
    (hrest : follow.contains (nextKind rest) = true) {kind : Kind}
    (hfirst : Part.first follow parts = [kind]) : s.peekKind = kind := by
  have hnext := h.contains_first hrest
  rw [hfirst] at hnext
  exact eq_of_contains hnext

/-- The next token is of no kind that the parts cannot start with. -/
theorem isAt_eq_false (h : Partway es rest parts events s)
    (hrest : follow.contains (nextKind rest) = true) {kind : Kind}
    (hkind : (Part.first follow parts).contains kind = false) : s.isAt kind = false := by
  refine beq_eq_false_iff_ne.mpr fun hat => ?_
  have hfirst := h.contains_first hrest
  rw [hat, hkind] at hfirst
  cases hfirst

/-- A part that may be left out is there, or it is not. -/
theorem maybe {symbol : Symbol} (h : Partway es rest (.maybe symbol :: parts) events s) :
    Partway es rest (.one symbol :: parts) events s ∨ Partway es rest parts events s := by
  obtain ⟨done, left, hes, hevents, haccepts, hsound, hs⟩ := h
  cases left with
  | nil => exact .inr ⟨done, [], hes, hevents, haccepts, hsound, hs⟩
  | cons e left =>
      simp only [Part.accepts, Bool.or_eq_true] at haccepts
      exact haccepts.imp (fun h => ⟨done, e :: left, hes, hevents, h, hsound, hs⟩)
        fun h => ⟨done, e :: left, hes, hevents, h, hsound, hs⟩

/-- The element that fills the first part, what comes behind it, and how to go on once
it has been read. -/
theorem exists_next {symbol : Symbol} (h : Partway es rest (.one symbol :: parts) events s)
    (hrest : follow.contains (nextKind rest) = true) :
    ∃ e ∈ es, ∃ rest', symbol.admits e = true ∧ e.Sound ∧
      (Part.first follow parts).contains (nextKind rest') = true ∧ s.Faces (e.leaves ++ rest') ∧
      ∀ here t, Segment.Stands here [e] → t.Faces rest' →
        Partway es rest parts (events ++ here) t := by
  obtain ⟨done, left, rfl, hevents, haccepts, hsound, hs⟩ := h
  obtain ⟨e, left, rfl, hadmits, haccepts⟩ := Part.exists_of_accepts_cons haccepts
  obtain ⟨he, hleft⟩ := List.forall_mem_cons.mp hsound
  rw [Element.leavesAll, List.append_assoc] at hs
  refine ⟨e, by simp, Element.leavesAll left ++ rest, hadmits, he,
    Element.contains_first_of_accepts haccepts hleft hrest, hs, fun here t hhere ht => ?_⟩
  exact ⟨done ++ [e], left, by rw [List.append_assoc]; rfl, hevents.append hhere, haccepts, hleft,
    ht⟩

/-- The element that fills the last part, and how to finish once it has been read. -/
theorem exists_last {symbol : Symbol} (h : Partway es rest [.one symbol] events s) :
    ∃ e, es.getLast? = some e ∧ symbol.admits e = true ∧ e.Sound ∧ s.Faces (e.leaves ++ rest) ∧
      ∀ (here : Segment) (t : ParseState), here.Stands [e] → t.Faces rest →
        Segment.Stands (events ++ here) es ∧ t.Faces rest := by
  obtain ⟨done, left, rfl, hevents, haccepts, hsound, hs⟩ := h
  obtain ⟨e, rfl, hadmits⟩ := Part.exists_of_accepts_one haccepts
  rw [Element.leavesAll_singleton] at hs
  exact ⟨e, List.getLast?_concat, hadmits, hsound e (by simp), hs,
    fun here t hhere ht => ⟨hevents.append hhere, ht⟩⟩

theorem atLineBreak (h : Partway es rest parts events s) : s.atLineBreak = false := by
  obtain ⟨_, _, _, _, _, _, hs⟩ := h
  exact hs.atLineBreak

/-- The token of the first part is read. -/
theorem advance (h : Partway es rest (.one (.token kinds) :: parts) events s) :
    Succeeds Parser.advance s fun here t =>
      Partway es rest parts (events ++ here) t ∧ t.tokens.length < s.tokens.length := by
  obtain ⟨e, _, rest', hadmits, _, _, hs, hnext⟩ := h.exists_next (contains_nextKind rest)
  cases e with
  | token leaf =>
      refine hs.advance.mono ?_
      rintro here t ⟨hhere, ht, hlength⟩
      exact ⟨hnext here t hhere ht, hlength⟩
  | node _ _ _ => cases hadmits
  | list _ _ => cases hadmits
  | separated _ _ => cases hadmits

/-- A token that has to be there is there. -/
theorem expect {kind : Kind} (h : Partway es rest (.token kind :: parts) events s) :
    Succeeds (Parser.expect kind) s fun here t =>
      Partway es rest parts (events ++ here) t ∧ t.tokens.length < s.tokens.length := by
  have hat : s.isAt kind = true := beq_iff_eq.mpr (h.peekKind_eq (contains_nextKind rest) rfl)
  unfold Parser.expect
  apply Succeeds.get
  rw [if_pos hat]
  exact h.advance

/-- A token that may be left out is read if it is there. -/
theorem eat {kind : Kind} (h : Partway es rest (.maybe (.token [kind]) :: parts) events s)
    (hrest : follow.contains (nextKind rest) = true)
    (hkind : (Part.first follow parts).contains kind = false) :
    Succeeds (Parser.eat kind) s fun here t =>
      Partway es rest parts (events ++ here) t ∧ t.tokens.length ≤ s.tokens.length := by
  unfold Parser.eat
  apply Succeeds.get
  rcases h.maybe with h | h
  · have hat : s.isAt kind = true := beq_iff_eq.mpr (h.peekKind_eq (contains_nextKind rest) rfl)
    rw [if_pos hat]
    exact h.advance.mono fun _ _ ⟨h, hlength⟩ => ⟨h, Nat.le_of_lt hlength⟩
  · rw [h.isAt_eq_false hrest hkind, if_neg Bool.false_ne_true]
    exact .pure ⟨by rwa [List.append_nil], Nat.le_refl _⟩

/-- The node of the first part is read by a parser of such nodes. -/
theorem node {p : Parser Segment} (h : Partway es rest (.one (.node kinds) :: parts) events s)
    (hrest : follow.contains (nextKind rest) = true)
    (hp : ∀ e rest', e.Sound → e.isNodeIn kinds = true →
      (Part.first follow parts).contains (nextKind rest') = true → s.Faces (e.leaves ++ rest') →
      Recognizes p s [e] rest') :
    Succeeds p s fun here t =>
      Partway es rest parts (events ++ here) t ∧ t.tokens.length ≤ s.tokens.length := by
  obtain ⟨e, _, rest', hadmits, he, hfirst, hs, hnext⟩ := h.exists_next hrest
  refine (hp e rest' he hadmits hfirst hs).mono ?_
  rintro here t ⟨hhere, ht⟩
  exact ⟨hnext here t hhere ht, hs.length_le ht⟩

/-- A node that may be left out is read if the token comes next that it starts with. -/
theorem optional {p : Parser Segment} {kind : Kind}
    (h : Partway es rest (.maybe (.node kinds) :: parts) events s)
    (hrest : follow.contains (nextKind rest) = true)
    (hfirst : kinds.flatMap Grammar.first = [kind])
    (hkind : (Part.first follow parts).contains kind = false)
    (hp : ∀ e rest', e.Sound → e.isNodeIn kinds = true →
      (Part.first follow parts).contains (nextKind rest') = true → s.Faces (e.leaves ++ rest') →
      Recognizes p s [e] rest') :
    Succeeds (do if (← get).isAt kind then p else return []) s fun here t =>
      Partway es rest parts (events ++ here) t ∧ t.tokens.length ≤ s.tokens.length := by
  apply Succeeds.get
  rcases h.maybe with h | h
  · have hat : s.isAt kind = true := beq_iff_eq.mpr (h.peekKind_eq hrest hfirst)
    rw [if_pos hat]
    exact h.node hrest hp
  · rw [h.isAt_eq_false hrest hkind, if_neg Bool.false_ne_true]
    exact .pure ⟨by rwa [List.append_nil], Nat.le_refl _⟩

end Partway

/-! ## Lists -/

namespace Parser

/-- Skipping stops at once at a token that ends it. -/
theorem skipUntil_stops {s : ParseState} {stop : Kind → Bool} (message : String) {budget : Nat}
    (hstop : stop s.peekKind = true) (hbudget : 0 < budget) :
    Succeeds (skipUntil stop message budget) s fun _ t => t = s := by
  cases budget with
  | zero => cases hbudget
  | succ budget =>
      unfold skipUntil
      apply Succeeds.get
      rw [hstop, Bool.or_true, Bool.true_or, if_pos rfl]
      exact .pure rfl

/-- The items of a separated list are read, up to what starts no item. -/
theorem separatedItems_recognizes {kinds : List Kind} {first : Kind → Bool} {item : Parser Segment}
    {slots : List Element} {rest : List Token} (halternates : Element.alternates kinds slots = true)
    (hsome : slots ≠ []) (hsound : ∀ e ∈ slots, e.Sound)
    (hfirst : (kinds.flatMap Grammar.first).all first = true)
    (hcomma : nextKind rest ≠ .comma) (hstop : first (nextKind rest) = false)
    {s : ParseState} (hs : s.Faces (Element.leavesAll slots ++ rest))
    (hitem : ∀ e rest' t, e.Sound → e.isNodeIn kinds = true →
      [.comma, nextKind rest].contains (nextKind rest') = true → t.Faces (e.leaves ++ rest') →
      t.tokens.length ≤ s.tokens.length → Recognizes item t [e] rest')
    {budget : Nat} (hbudget : s.tokens.length < budget) :
    Recognizes (separatedItems .comma first item budget) s slots rest := by
  induction budget generalizing s slots with
  | zero => cases hbudget
  | succ budget ih =>
      unfold separatedItems
      fun_cases Element.alternates kinds slots with
      | case1 => exact absurd rfl hsome
      | case2 e =>
          rw [Element.leavesAll_singleton] at hs
          have he := hsound e List.mem_cons_self
          refine (hitem e rest s he halternates (by simp) hs (Nat.le_refl _)).bind ?_
          rintro here t ⟨hhere, ht⟩
          apply Succeeds.get
          rw [ht.isAt, beq_eq_false_iff_ne.mpr hcomma, if_neg Bool.false_ne_true, ht.peekKind,
            hstop, Bool.false_and, if_neg Bool.false_ne_true]
          exact .pure ⟨hhere, ht⟩
      | case3 e comma later =>
          simp only [Element.alternates, Bool.and_eq_true] at halternates
          obtain ⟨⟨he, hcommaKind⟩, hlater⟩ := halternates
          obtain ⟨leaf, rfl, hleaf⟩ := Element.exists_of_isTokenIn hcommaKind
          simp only [List.forall_mem_cons] at hsound
          simp only [Element.leavesAll, Element.leaves, List.append_assoc, List.singleton_append]
            at hs
          have hnext : [.comma, nextKind rest].contains
              (nextKind (leaf :: (Element.leavesAll later ++ rest))) = true := by
            simp [nextKind, hleaf]
          refine (hitem e _ s hsound.1 he hnext hs (Nat.le_refl _)).bind ?_
          rintro here t ⟨hhere, ht⟩
          have hle := hs.length_le ht
          apply Succeeds.get
          rw [ht.isAt, if_pos (by simp [nextKind, hleaf])]
          refine ht.advance.bind ?_
          rintro comma u ⟨hcommaStands, hu, hlength⟩
          apply Succeeds.get
          have hpair := hhere.append hcommaStands
          cases later with
          | nil =>
              rw [hu.peekKind, Element.leavesAll, List.nil_append, hstop,
                if_neg Bool.false_ne_true]
              exact .pure ⟨hpair, hu⟩
          | cons next more =>
              have hnode := Element.isNodeIn_head?_of_alternates hlater next rfl
              have hstarts : first u.peekKind = true := by
                rw [hu.peekKind, Element.leavesAll, List.append_assoc]
                exact (hsound.2.2 next List.mem_cons_self).starts hnode hfirst _
              rw [hstarts, if_pos rfl]
              refine (ih hlater (List.cons_ne_nil _ _) hsound.2.2 hu ?_ (by omega)).bind ?_
              · intro e rest' v hsound he hnext hv hlength'
                exact hitem e rest' v hsound he hnext hv (by omega)
              · rintro later v ⟨hmore, hv⟩
                exact .pure ⟨hpair.append hmore, hv⟩

/-- A separated list is read, whether it has items or not. -/
theorem separated_recognizes {kinds : List Kind} {first : Kind → Bool} {required : Bool}
    {item : Parser Segment} {e : Element} {rest : List Token}
    (hadmits : Symbol.admits (.separated kinds required) e = true) (he : e.Sound)
    (hfirst : (kinds.flatMap Grammar.first).all first = true)
    (hcomma : nextKind rest ≠ .comma) (hstop : first (nextKind rest) = false)
    {s : ParseState} (hs : s.Faces (e.leaves ++ rest))
    (hitem : ∀ e rest' t, e.Sound → e.isNodeIn kinds = true →
      [.comma, nextKind rest].contains (nextKind rest') = true → t.Faces (e.leaves ++ rest') →
      t.tokens.length ≤ s.tokens.length → Recognizes item t [e] rest')
    {budget : Nat} (hbudget : s.tokens.length < budget) :
    Recognizes (separated .comma first required item budget) s [e] rest := by
  have hmade := he.made
  cases hmade with
  | separated slots hslots =>
      simp only [Symbol.admits, Bool.and_eq_true] at hadmits
      obtain ⟨halternates, hrequired⟩ := hadmits
      have hstands {events : Segment} (h : events.Stands slots) :=
        h.separated (Element.isSlot_of_alternates halternates)
          (Element.checkSlots_of_alternates halternates rfl)
      unfold separated
      apply Succeeds.get
      cases slots with
      | nil =>
          have hoptional : required = false := by simpa using hrequired
          rw [hoptional, hs.peekKind, Element.leaves, Element.leavesAll, List.nil_append, hstop,
            Bool.false_or, if_neg Bool.false_ne_true]
          exact .pure ⟨hstands Segment.stands_nil, hs⟩
      | cons head later =>
          have hnode := Element.isNodeIn_head?_of_alternates halternates head rfl
          have hstarts : first s.peekKind = true := by
            rw [hs.peekKind, Element.leaves, Element.leavesAll, List.append_assoc]
            exact (he.child head List.mem_cons_self).starts hnode hfirst _
          rw [hstarts, Bool.or_true, if_pos rfl]
          refine (separatedItems_recognizes halternates (List.cons_ne_nil _ _) he.child hfirst
            hcomma hstop hs hitem hbudget).bind ?_
          rintro events t ⟨hevents, ht⟩
          exact .pure ⟨hstands hevents, ht⟩
  | token _ _ _ _ => cases hadmits
  | node _ _ _ => cases hadmits
  | list _ _ => cases hadmits

end Parser

/-- The separated list of the first part is read by a parser of its items. -/
theorem Partway.separated {es : List Element} {rest : List Token} {parts : List Part}
    {events : Segment} {s : ParseState} {kinds follow : List Kind} {required : Bool}
    {first : Kind → Bool} {item : Parser Segment} {budget : Nat}
    (h : Partway es rest (.one (.separated kinds required) :: parts) events s)
    (hrest : follow.contains (nextKind rest) = true)
    (hfirst : (kinds.flatMap Grammar.first).all first = true)
    (hstop : (Part.first follow parts).all (fun kind => kind != .comma && !first kind) = true)
    (hitem : ∀ e rest' t, e.Sound → e.isNodeIn kinds = true →
      (.comma :: Part.first follow parts).contains (nextKind rest') = true →
      t.Faces (e.leaves ++ rest') → t.tokens.length ≤ s.tokens.length → Recognizes item t [e] rest')
    (hbudget : s.tokens.length < budget) :
    Parser.Succeeds (Parser.separated .comma first required item budget) s fun here t =>
      Partway es rest parts (events ++ here) t ∧ t.tokens.length ≤ s.tokens.length := by
  obtain ⟨e, _, rest', hadmits, he, hnext, hs, hdone⟩ := h.exists_next hrest
  have hstops := holds_of_contains hnext hstop
  simp only [Bool.and_eq_true, bne_iff_ne, Bool.not_eq_true'] at hstops
  refine (Parser.separated_recognizes hadmits he hfirst hstops.1 hstops.2 hs ?_ hbudget).mono ?_
  · intro e rest'' t he hkind hcontains ht hlength
    refine hitem e rest'' t he hkind ?_ ht hlength
    simp only [List.contains_cons, Bool.or_eq_true, beq_iff_eq, List.contains_nil,
      Bool.false_eq_true, or_false] at hcontains ⊢
    rcases hcontains with hcomma | hsame
    · exact .inl hcomma
    · exact .inr (by rwa [hsame])
  · rintro here t ⟨hhere, ht⟩
    exact ⟨hdone here t hhere ht, hs.length_le ht⟩

/-- The list of the first part is read by a parser of its nodes. -/
theorem Partway.list {es : List Element} {rest : List Token} {parts : List Part}
    {events : Segment} {s : ParseState} {kinds follow : List Kind} {p : Parser Segment}
    (h : Partway es rest (.one (.list kinds) :: parts) events s)
    (hrest : follow.contains (nextKind rest) = true)
    (hp : ∀ nodes rest', .makeList nodes ∈ es → (∀ e ∈ nodes, e.Sound) →
      (∀ e ∈ nodes, e.isNodeIn kinds = true) →
      (Part.first follow parts).contains (nextKind rest') = true →
      s.Faces (Element.leavesAll nodes ++ rest') → Recognizes p s nodes rest') :
    Parser.Succeeds p s fun here t =>
      Partway es rest parts (events ++ Segment.list here) t ∧
        t.tokens.length ≤ s.tokens.length := by
  obtain ⟨e, hmem, rest', hadmits, he, hnext, hs, hdone⟩ := h.exists_next hrest
  have hmade := he.made
  cases hmade with
  | list nodes hnodes =>
      have hkinds : ∀ e ∈ nodes, e.isNodeIn kinds = true := List.all_eq_true.mp hadmits
      refine (hp nodes rest' hmem he.child hkinds hnext hs).mono ?_
      rintro here t ⟨hhere, ht⟩
      have hlist := hhere.list fun e he => Element.isNode_of_isNodeIn (hkinds e he)
      exact ⟨hdone _ t hlist ht, hs.length_le ht⟩
  | token _ _ _ _ => cases hadmits
  | node _ _ _ => cases hadmits
  | separated _ _ => cases hadmits

end Verbatim
