/-
  No scanned token is lost, repeated or moved past another one.

  A scanned token is either kept, and then it is a leaf of the tree, or omitted, and
  then it waits as trivia for the next token that is kept.  The scanned tokens thus
  fall into groups, each of which ends with a kept token, and a group is one leaf.
  An action keeps the next token together with those that wait for it, lets the next
  token wait, too, or leaves the tokens alone; the groups of a run are those of its
  actions.
-/
import Verbatim.Proofs.SourceReading

set_option autoImplicit false

namespace Verbatim

/-! ## Regular runs by their pieces -/

namespace TriviaList

/-- A regular run behind a run of given pieces. -/
theorem Regular.ofList_concat {l : TriviaList} (h : l.Regular) (items : List Trivia) :
    (ofList items).concat l = ofList (items ++ l.toList) := by
  rw [← concat_ofList, h.ofList_toList]

end TriviaList

/-! ## Groups of tokens -/

/-- The trivia that a token turns into when it is omitted: its significant text
between the trivia on its two sides. -/
def ScannedToken.asTrivia (t : ScannedToken) : List Trivia :=
  t.leading.toList ++ [⟨.skippedText, t.text⟩] ++ t.trailing.toList

/-- A token that is kept, and the tokens omitted between it and the one kept before it. -/
structure KeptToken where
  omitted : List ScannedToken
  token : ScannedToken

namespace KeptToken

/-- The tokens of the group in source order. -/
def tokens (k : KeptToken) : List ScannedToken :=
  k.omitted ++ [k.token]

/-- The leaf that the group makes: the token that is kept, as it was scanned, with the
omitted tokens in front of its own leading trivia. -/
def leaf (k : KeptToken) : Token :=
  .make k.token.kind k.token.text
    (.ofList (k.omitted.flatMap ScannedToken.asTrivia ++ k.token.leading.toList)) k.token.trailing

end KeptToken

/-- A token that the source does not have has no trivia either. -/
def Token.BareIfAbsent (t : Token) : Prop :=
  t.isZeroWidth = true → t.leading = .empty ∧ t.trailing = .empty

theorem Token.bareIfAbsent_of_present {t : Token} (h : t.isZeroWidth = false) :
    t.BareIfAbsent := by
  intro hzero
  rw [h] at hzero
  cases hzero

theorem filter_singleton_of_present {t : Token} (h : t.isZeroWidth = false) :
    [t].filter (fun t => !t.isZeroWidth) = [t] := by
  simp [h]

namespace ParseState

/-- The omitted tokens wait in the state as trivia. -/
structure Holds (s : ParseState) (omitted : List ScannedToken) : Prop where
  regular : s.Regular
  skipped : s.skipped = .ofList (omitted.flatMap ScannedToken.asTrivia)

theorem holds_start {tokens : List ScannedToken} (h : (start tokens).Regular) :
    (start tokens).Holds [] :=
  ⟨h, rfl⟩

variable {s : ParseState} {omitted : List ScannedToken}

/-- The next leaf is that of the next token, kept behind those that wait. -/
theorem Holds.nextLeaf_eq (h : s.Holds omitted) (hpeek : s.peek ∈ s.tokens) :
    s.nextLeaf = KeptToken.leaf ⟨omitted, s.peek⟩ := by
  rw [nextLeaf, h.skipped, (h.regular.tokens _ hpeek).leading.ofList_concat]
  rfl

/-- A token that is skipped waits behind the others. -/
theorem Holds.skippedWithNext_eq (h : s.Holds omitted) (hpeek : s.peek ∈ s.tokens) :
    s.skippedWithNext = .ofList ((omitted ++ [s.peek]).flatMap ScannedToken.asTrivia) := by
  have hformed := h.regular.tokens _ hpeek
  rw [skippedWithNext, h.skipped, hformed.leading.ofList_concat, TriviaList.concat_ofList,
    hformed.trailing.ofList_concat, List.flatMap_append, List.flatMap_singleton]
  simp only [ScannedToken.asTrivia, List.append_assoc]

theorem Regular.isZeroWidth_nextLeaf (h : s.Regular) (hpeek : s.peekKind ≠ .eof) :
    s.nextLeaf.isZeroWidth = false :=
  Textual.isZeroWidth_nextLeaf (fun t ht => (h.tokens t ht).text_eq_nil_iff.mp) hpeek

end ParseState

/-! ## Actions and runs -/

/-- What becomes of the tokens on the way from one state to another: the groups that
were kept, and the tokens that wait at the end. -/
structure Conserves (s t : ParseState) (leaves : List Token) (omitted : List ScannedToken)
    (kept : List KeptToken) (waiting : List ScannedToken) : Prop where
  holds : t.Holds waiting
  tokens_eq : omitted ++ s.tokens = kept.flatMap KeptToken.tokens ++ (waiting ++ t.tokens)
  leaves_eq : leaves.filter (fun t => !t.isZeroWidth) = kept.map KeptToken.leaf
  bare : ∀ t ∈ leaves, t.BareIfAbsent

/-- A token that is supplied is none of the scanned tokens. -/
theorem conserves_standIn {s t : ParseState} {omitted : List ScannedToken} (kind : Kind)
    (hkind : kind ≠ .eof) (h : t.Holds omitted) (htokens : t.tokens = s.tokens) :
    Conserves s t [.standIn kind] omitted [] omitted where
  holds := h
  tokens_eq := by rw [htokens]; rfl
  leaves_eq := by simp [Token.isZeroWidth, Token.standIn, Token.make, hkind]
  bare := List.forall_mem_singleton.mpr fun _ => ⟨rfl, rfl⟩

/-- One action keeps one group, lets one more token wait, or does neither. -/
theorem ParseState.Allows.exists_conserves {s : ParseState} {a : Action} (ha : s.Allows a)
    {omitted : List ScannedToken} (h : s.Holds omitted) :
    ∃ kept waiting, Conserves s (s.act a) (s.leavesOf a) omitted kept waiting := by
  have hregular := ha.regular_act h.regular
  cases a with
  | read =>
      have hpeek := peek_mem_of_peekKind_ne ha
      have hwidth := h.regular.isZeroWidth_nextLeaf ha
      refine ⟨[⟨omitted, s.peek⟩], [], ⟨hregular, rfl⟩, ?_, ?_, ?_⟩
      · rw [tokens_of_peekKind_ne ha]
        simp [KeptToken.tokens, tokens_act, Action.consumes]
      · rw [leavesOf, filter_singleton_of_present hwidth, h.nextLeaf_eq hpeek]
        rfl
      · exact List.forall_mem_singleton.mpr (Token.bareIfAbsent_of_present hwidth)
  | skip message =>
      have hpeek := peek_mem_of_peekKind_ne ha
      refine ⟨[], omitted ++ [s.peek], ⟨hregular, h.skippedWithNext_eq hpeek⟩, ?_, rfl,
        List.forall_mem_nil _⟩
      rw [tokens_of_peekKind_ne ha]
      simp [tokens_act, Action.consumes]
  | supply kind _ => exact ⟨[], omitted, conserves_standIn kind ha.1 ⟨hregular, h.skipped⟩ rfl⟩
  | fill kind => exact ⟨[], omitted, conserves_standIn kind ha h rfl⟩
  | complain _ =>
      exact ⟨[], omitted, ⟨hregular, h.skipped⟩, rfl, rfl, List.forall_mem_nil _⟩

theorem Conserves.trans {s t u : ParseState} {xs ys : List Token}
    {omitted waiting last : List ScannedToken} {kept more : List KeptToken}
    (h : Conserves s t xs omitted kept waiting) (h' : Conserves t u ys waiting more last) :
    Conserves s u (xs ++ ys) omitted (kept ++ more) last where
  holds := h'.holds
  tokens_eq := by rw [h.tokens_eq, h'.tokens_eq, List.flatMap_append, List.append_assoc]
  leaves_eq := by rw [List.filter_append, h.leaves_eq, h'.leaves_eq, List.map_append]
  bare := List.forall_mem_append.mpr ⟨h.bare, h'.bare⟩

/-- The groups of a run are those of its actions. -/
theorem Steps.exists_conserves {s t : ParseState} {actions : List Action} {leaves : List Token}
    (h : Steps s actions leaves t) {omitted : List ScannedToken} (hs : s.Holds omitted) :
    ∃ kept waiting, Conserves s t leaves omitted kept waiting := by
  induction h generalizing omitted with
  | refl s => exact ⟨[], omitted, hs, rfl, rfl, List.forall_mem_nil _⟩
  | cons ha _ ih =>
      obtain ⟨kept, waiting, hstep⟩ := ha.exists_conserves hs
      obtain ⟨more, last, hrest⟩ := ih hstep.holds
      exact ⟨kept ++ more, last, hstep.trans hrest⟩

/-! ## Whole texts -/

/-- A leaf that the source has is a scanned token that was kept. -/
theorem ParseRun.exists_scanned_of_mem_leaves {source : Text} {options : ParseOptions}
    (run : ParseRun source options) {t : Token} (ht : t ∈ run.root.leaves)
    (hpresent : t.isZeroWidth = false) :
    ∃ u ∈ run.scanned.tokens, u.kind = t.kind ∧ u.text = t.text := by
  obtain ⟨kept, waiting, hconserves⟩ :=
    run.reads.reading.steps.exists_conserves (ParseState.holds_start run.regular)
  have hscanned : run.scanned.tokens =
      kept.flatMap KeptToken.tokens ++ (waiting ++ run.last.tokens) := hconserves.tokens_eq
  rw [run.leaves_root] at ht
  rw [hscanned]
  rcases List.mem_append.mp ht with ht | ht
  · have hleaf : t ∈ kept.map KeptToken.leaf := by
      rw [← hconserves.leaves_eq]
      exact List.mem_filter.mpr ⟨ht, by simp [hpresent]⟩
    obtain ⟨k, hk, rfl⟩ := List.mem_map.mp hleaf
    have hmem : k.token ∈ k.tokens := List.mem_append_right _ (List.mem_singleton_self _)
    exact ⟨k.token, List.mem_append_left _ (List.mem_flatMap.mpr ⟨k, hk, hmem⟩), rfl, rfl⟩
  · obtain rfl := List.mem_singleton.mp ht
    exact ⟨run.last.peek, List.mem_append_right _ (List.mem_append_right _ run.peek_mem_last),
      rfl, rfl⟩

/-- Every text that offsets can count is parsed into a tree whose leaves, without those
that the source does not have, are the scanned tokens, less the omitted ones.  Each leaf
has the omitted tokens in front of it as leading trivia, and is otherwise as it was
scanned; the end of the file is the last token that is kept.  A leaf that the source
does not have is bare. -/
theorem parse_conserves_tokens (source : Text) (options : ParseOptions)
    (h : source.width < Offset.limit) :
    ∃ p scanned front last,
      parse source options = .ok p ∧ scan source = .ok scanned ∧
      scanned.tokens = (front ++ [last]).flatMap KeptToken.tokens ∧
      last.token.kind = .eof ∧ (∀ k ∈ front, ∀ t ∈ k.tokens, t.kind ≠ .eof) ∧
      p.root.leaves.filter (fun t => !t.isZeroWidth) = (front ++ [last]).map KeptToken.leaf ∧
      ∀ t ∈ p.root.leaves, t.BareIfAbsent := by
  obtain ⟨run⟩ := exists_parseRun source options h
  obtain ⟨kept, waiting, hconserves⟩ :=
    run.reads.reading.steps.exists_conserves (ParseState.holds_start run.regular)
  have hlast := hconserves.holds.nextLeaf_eq run.peek_mem_last
  have hwidth : run.last.nextLeaf.isZeroWidth = false := by
    simp [Token.isZeroWidth, ParseState.nextLeaf, Token.make, show run.last.peek.kind = .eof from
      run.reads.peekKind]
  have htokens : run.scanned.tokens =
      (kept ++ [KeptToken.mk waiting run.last.peek]).flatMap KeptToken.tokens := by
    have htokens := hconserves.tokens_eq
    rw [run.tokens_last] at htokens
    rw [List.flatMap_append, List.flatMap_singleton]
    exact htokens
  refine ⟨run.result, run.scanned, kept, ⟨waiting, run.last.peek⟩, run.parse_eq, run.scan_eq,
    htokens, run.reads.peekKind, ?_, ?_, ?_⟩
  · -- The end of the file comes last among the scanned tokens, and only there.
    obtain ⟨front, eof, heq, _, hfront⟩ := run.covers.ends
    intro k hk t ht
    rw [htokens, List.flatMap_append, List.flatMap_singleton, KeptToken.tokens,
      ← List.append_assoc] at heq
    have hinit := (List.append_inj' heq rfl).1
    refine hfront t ?_
    rw [← hinit]
    exact List.mem_append_left _ (List.mem_flatMap.mpr ⟨k, hk, ht⟩)
  · change run.root.leaves.filter _ = _
    rw [run.leaves_root, List.filter_append, hconserves.leaves_eq, List.map_append,
      filter_singleton_of_present hwidth, hlast]
    rfl
  · change ∀ t ∈ run.root.leaves, t.BareIfAbsent
    rw [run.leaves_root]
    exact List.forall_mem_append.mpr ⟨hconserves.bare,
      List.forall_mem_singleton.mpr (Token.bareIfAbsent_of_present hwidth)⟩

theorem parse_brokenSource_conserves :
    brokenSource.width < Offset.limit ∧
      ∃ p scanned front last,
        parse brokenSource ⟨true⟩ = .ok p ∧ scan brokenSource = .ok scanned ∧
        scanned.tokens = (front ++ [last]).flatMap KeptToken.tokens ∧
        last.token.kind = .eof ∧ (∀ k ∈ front, ∀ t ∈ k.tokens, t.kind ≠ .eof) ∧
        p.root.leaves.filter (fun t => !t.isZeroWidth) = (front ++ [last]).map KeptToken.leaf ∧
        ∀ t ∈ p.root.leaves, t.BareIfAbsent :=
  ⟨width_brokenSource, parse_conserves_tokens brokenSource ⟨true⟩ width_brokenSource⟩

end Verbatim
