/-
  What a run reports, and where skipped text comes to lie.

  Skipped text moves: the scanner puts it around tokens, a parser adds the tokens
  that it skips, and all of it travels to the next leaf.  What does not move is its
  place in the source.  The ranges of the pieces in the tree and of those that
  still wait are, up to their order, the ranges that the scanner left behind and
  one for each token skipped, and every skip reports exactly its range.
-/
import Verbatim.Proofs.RoundTrip

set_option autoImplicit false

namespace Verbatim

/-! ## Ranges of skipped text -/

/-- Byte ranges of the skipped pieces around a leaf that starts at an offset. -/
def Token.skippedRanges (offset : Nat) (t : Token) : List (Nat × Nat) :=
  Verbatim.skippedRanges offset t.leading.pieces ++
    Verbatim.skippedRanges (offset + t.leading.width + t.width) t.trailing.pieces

/-- Byte ranges of the skipped pieces around leaves that start at an offset. -/
def leafRanges : Nat → List Token → List (Nat × Nat)
  | _, [] => []
  | offset, t :: rest => t.skippedRanges offset ++ leafRanges (offset + t.fullWidth) rest

theorem leafRanges_append (offset : Nat) (a b : List Token) :
    leafRanges offset (a ++ b) =
      leafRanges offset a ++
        leafRanges (offset + Text.width (a.flatMap Token.fullText)) b := by
  induction a generalizing offset with
  | nil => rfl
  | cons t rest ih =>
      simp only [List.cons_append, leafRanges, ih, List.flatMap_cons, Text.width_append,
        Token.width_fullText, List.append_assoc, Nat.add_assoc]

theorem leafRanges_singleton (offset : Nat) (t : Token) :
    leafRanges offset [t] = t.skippedRanges offset := by
  simp [leafRanges]

/-- A token without text and trivia has no skipped pieces. -/
theorem leafRanges_standIn (offset : Nat) (kind : Kind) :
    leafRanges offset [.standIn kind] = [] :=
  rfl

/-! ## Reports -/

/-- The bytes that a report is about. -/
def Diagnostic.range (d : Diagnostic) : Nat × Nat :=
  (d.start, d.stop)

/-- The reports of a run by their cause: tokens that are skipped, tokens that are
supplied, and the end of the file. -/
structure Ledger where
  skips : List Diagnostic
  supplies : List Diagnostic
  complaints : List Diagnostic

namespace Ledger

def empty : Ledger := ⟨[], [], []⟩

def add (a b : Ledger) : Ledger :=
  ⟨a.skips ++ b.skips, a.supplies ++ b.supplies, a.complaints ++ b.complaints⟩

def all (l : Ledger) : List Diagnostic :=
  l.skips ++ l.supplies ++ l.complaints

end Ledger

namespace ParseState

/-- Ranges of the skipped pieces that are not in the tree yet, where the tree ends at
an offset. -/
def pendingRanges (offset : Nat) (s : ParseState) : List (Nat × Nat) :=
  skippedRanges offset s.skipped.pieces ++ scannedRanges (offset + s.skipped.width) s.tokens

/-- The tree ends at an offset, and what is pending tiles the source from there on. -/
structure StandsAt (offset total : Nat) (s : ParseState) : Prop where
  regular : s.Regular
  ended : s.Ended
  tiles : Tiles (offset + s.skipped.width) s.tokens
  total_eq : offset + s.pendingText.width = total

/-! ## One action -/

variable {s : ParseState} {offset total : Nat}

theorem StandsAt.tiles_peek (h : s.StandsAt offset total) (hpeek : s.peekKind ≠ .eof) :
    s.peek.start = offset + s.skipped.width + s.peek.leading.width ∧
      Tiles (offset + s.skipped.width + s.peek.fullText.width) s.tokens.tail := by
  have htiles := h.tiles
  rw [tokens_of_peekKind_ne hpeek] at htiles
  exact ⟨htiles.2.1, htiles.2.2⟩

/-- In front of the end of the file everything else has been read. -/
theorem StandsAt.range_eof (h : s.StandsAt offset total) (hpeek : s.peekKind = .eof) :
    s.peek.start = total ∧ s.peek.stop = total := by
  have htokens := h.ended.tokens_eq hpeek
  have htiles := h.tiles
  rw [htokens] at htiles
  obtain ⟨hformed, hstart, _⟩ := htiles
  have htext : s.peek.text = [] := hformed.text_eq_nil_iff.mpr hpeek
  have htrailing : s.peek.trailing.width = 0 := by
    rw [TriviaList.width, hformed.trailing_text_eof hpeek]
    rfl
  have hskipped : s.skipped.width = Text.width s.skipped.text := rfl
  have htotal := h.total_eq
  rw [pendingText, htokens, List.flatMap_singleton, Text.width_append, ← hskipped,
    ScannedToken.width_fullText, htext, htrailing] at htotal
  have hstop := hformed.stop_eq
  rw [htext] at hstop
  have hwidth : Text.width [] = 0 := rfl
  omega

/-- Reading a token moves the end of the tree behind it. -/
theorem Regular.width_nextLeaf (h : s.Regular) (hpeek : s.peek ∈ s.tokens) :
    s.nextLeaf.fullText.width = s.skipped.width + s.peek.fullText.width := by
  rw [h.fullText_nextLeaf hpeek, Text.width_append]
  rfl

theorem Regular.width_skippedWithNext (h : s.Regular) (hpeek : s.peek ∈ s.tokens) :
    s.skippedWithNext.width = s.skipped.width + s.peek.fullText.width := by
  rw [TriviaList.width, h.text_skippedWithNext hpeek, Text.width_append]
  rfl

theorem StandsAt.act {a : Action} (h : s.StandsAt offset total) (ha : s.Allows a) :
    (s.act a).StandsAt (offset + Text.width ((s.leavesOf a).flatMap Token.fullText)) total where
  regular := ha.regular_act h.regular
  ended := ha.ended_act h.ended
  tiles := by
    cases a with
    | read =>
        have hnext := (h.tiles_peek ha).2
        have hwidth := h.regular.width_nextLeaf (peek_mem_of_peekKind_ne ha)
        rw [leavesOf, List.flatMap_singleton, hwidth, ← Nat.add_assoc]
        exact hnext
    | skip message =>
        have hnext := (h.tiles_peek ha).2
        have hwidth := h.regular.width_skippedWithNext (peek_mem_of_peekKind_ne ha)
        have hskipped : (s.act (.skip message)).skipped.width =
            s.skipped.width + s.peek.fullText.width := hwidth
        rw [hskipped, ← Nat.add_assoc]
        exact hnext
    | supply _ _ => exact h.tiles
    | fill _ => exact h.tiles
    | complain _ => exact h.tiles
  total_eq := by
    rw [Nat.add_assoc, ← Text.width_append, ha.pendingText_act h.regular]
    exact h.total_eq

/-- What an action reports. -/
def ledgerOf (s : ParseState) : Action → Ledger
  | .read => .empty
  | .supply _ d => ⟨[], [d], []⟩
  | .fill _ => .empty
  | .skip message => ⟨[⟨s.peek.start, s.peek.stop, message⟩], [], []⟩
  | .complain message => ⟨[], [], [⟨s.peek.start, s.peek.stop, message⟩]⟩

theorem diagnostics_act (s : ParseState) (a : Action) :
    (s.act a).diagnostics = s.diagnostics ++ (s.ledgerOf a).all := by
  cases a with
  | read => exact (List.append_nil _).symm
  | supply _ _ => rfl
  | fill _ => exact (List.append_nil _).symm
  | skip _ => rfl
  | complain _ => rfl

/-- Ranges of the skipped pieces of the next leaf. -/
theorem Regular.skippedRanges_nextLeaf (h : s.Regular) (hpeek : s.peek ∈ s.tokens) :
    s.nextLeaf.skippedRanges offset =
      skippedRanges offset s.skipped.pieces ++ s.peek.skippedRanges (offset + s.skipped.width) := by
  have hleading := h.skipped.skippedRanges_concat (h.tokens _ hpeek).leading offset
  have hwidth := h.skipped.concat_width (h.tokens _ hpeek).leading
  simp only [Token.skippedRanges, nextLeaf, Token.make, Token.width, hleading, hwidth,
    ScannedToken.skippedRanges, List.append_assoc, Nat.add_assoc]

/-- Ranges of the skipped pieces once the next token is one of them. -/
theorem Regular.skippedRanges_skippedWithNext (h : s.Regular) (hpeek : s.peek ∈ s.tokens) :
    skippedRanges offset s.skippedWithNext.pieces =
      skippedRanges offset s.skipped.pieces ++
        (skippedRanges (offset + s.skipped.width) s.peek.leading.pieces ++
          ((offset + s.skipped.width + s.peek.leading.width,
              offset + s.skipped.width + s.peek.leading.width + s.peek.text.width) ::
            skippedRanges (offset + s.skipped.width + s.peek.leading.width + s.peek.text.width)
              s.peek.trailing.pieces)) := by
  have hformed := h.tokens _ hpeek
  have hleading := h.skipped.concat hformed.leading
  have htext := TriviaList.regular_ofList [⟨.skippedText, s.peek.text⟩]
  have hwidth : (TriviaList.ofList [⟨.skippedText, s.peek.text⟩]).width = s.peek.text.width := by
    rw [TriviaList.width, TriviaList.ofList_text, List.flatMap_singleton]
  rw [skippedWithNext, (hleading.concat htext).skippedRanges_concat hformed.trailing,
    hleading.skippedRanges_concat htext, h.skipped.skippedRanges_concat hformed.leading,
    hleading.concat_width htext, h.skipped.concat_width hformed.leading, hwidth,
    TriviaList.ofList_pieces]
  simp [skippedRanges, Trivia.piece, Trivia.width, Nat.add_assoc]

theorem pendingRanges_of_peek (hpeek : s.peekKind ≠ .eof) :
    s.pendingRanges offset =
      skippedRanges offset s.skipped.pieces ++
        (s.peek.skippedRanges (offset + s.skipped.width) ++
          scannedRanges (offset + s.skipped.width + s.peek.fullText.width) s.tokens.tail) := by
  rw [pendingRanges, tokens_of_peekKind_ne hpeek]
  rfl

/-- An action moves skipped pieces without changing where they lie, and adds the
token that it skips. -/
theorem StandsAt.pendingRanges_act {a : Action} (h : s.StandsAt offset total) (ha : s.Allows a) :
    (leafRanges offset (s.leavesOf a) ++
        (s.act a).pendingRanges
          (offset + Text.width ((s.leavesOf a).flatMap Token.fullText))).Perm
      (s.pendingRanges offset ++ (s.ledgerOf a).skips.map Diagnostic.range) := by
  cases a with
  | read =>
      have hpeek := peek_mem_of_peekKind_ne ha
      have hwidth := h.regular.width_nextLeaf hpeek
      have hafter : (s.act .read).pendingRanges (offset + s.nextLeaf.fullText.width) =
          scannedRanges (offset + s.skipped.width + s.peek.fullText.width) s.tokens.tail := by
        rw [hwidth, ← Nat.add_assoc]
        rfl
      rw [leavesOf, leafRanges_singleton, List.flatMap_singleton, hafter,
        h.regular.skippedRanges_nextLeaf hpeek, pendingRanges_of_peek ha, List.append_assoc,
        ledgerOf]
      simp [Ledger.empty]
  | skip message =>
      have hpeek := peek_mem_of_peekKind_ne ha
      obtain ⟨hstart, _⟩ := h.tiles_peek ha
      have hstop := (h.regular.tokens _ hpeek).stop_eq
      have hwidth := h.regular.width_skippedWithNext hpeek
      have hafter : (s.act (.skip message)).pendingRanges offset =
          skippedRanges offset s.skippedWithNext.pieces ++
            scannedRanges (offset + s.skipped.width + s.peek.fullText.width) s.tokens.tail := by
        rw [Nat.add_assoc, ← hwidth]
        rfl
      -- The range of the token comes between those of the trivia on its two sides.
      rw [pendingRanges_of_peek ha, ScannedToken.skippedRanges]
      change (leafRanges offset [] ++ (s.act (.skip message)).pendingRanges (offset + 0)).Perm _
      rw [Nat.add_zero, hafter, h.regular.skippedRanges_skippedWithNext hpeek, ← hstart, ← hstop]
      simp only [leafRanges, ledgerOf, List.map_singleton, Diagnostic.range, List.nil_append,
        List.append_assoc, List.cons_append]
      refine List.Perm.append_left _ (List.Perm.append_left _ ?_)
      rw [← List.append_assoc]
      exact (List.perm_append_singleton _ _).symm
  | supply kind _ =>
      rw [leavesOf, leafRanges_standIn, ledgerOf, List.map_nil, List.append_nil]
      exact .refl _
  | fill kind =>
      rw [leavesOf, leafRanges_standIn, ledgerOf, Ledger.empty, List.map_nil, List.append_nil]
      exact .refl _
  | complain _ =>
      rw [ledgerOf, List.map_nil, List.append_nil]
      exact .refl _

end ParseState

/-! ## Runs -/

/-- The ledger is true to a run that starts where the tree ends at an offset. -/
structure Ledger.Records (l : Ledger) (offset total : Nat) (s : ParseState)
    (actions : List Action) (leaves : List Token) (t : ParseState) : Prop where
  reported : t.diagnostics.Perm (s.diagnostics ++ l.all)
  ranges :
    (leafRanges offset leaves ++
        t.pendingRanges (offset + Text.width (leaves.flatMap Token.fullText))).Perm
      (s.pendingRanges offset ++ l.skips.map Diagnostic.range)
  skips : ∀ d ∈ l.skips, d.start < d.stop
  supplies : ∀ d ∈ l.supplies, d.message ≠ statementExpected
  complaints : ∀ d ∈ l.complaints, d = ⟨total, total, statementExpected⟩
  length_supplies : l.supplies.length = actions.countP Action.isSupply
  length_complaints : l.complaints.length = actions.countP Action.isComplaint

namespace Ledger

theorem records_refl (offset total : Nat) (s : ParseState) :
    empty.Records offset total s [] [] s where
  reported := by simp [all, empty]
  ranges := by simp [leafRanges, empty]
  skips := List.forall_mem_nil _
  supplies := List.forall_mem_nil _
  complaints := List.forall_mem_nil _
  length_supplies := rfl
  length_complaints := rfl

theorem Records.trans {l m : Ledger} {offset total : Nat} {s t u : ParseState}
    {as bs : List Action} {xs ys : List Token} (h : l.Records offset total s as xs t)
    (h' : m.Records (offset + Text.width (xs.flatMap Token.fullText)) total t bs ys u) :
    (l.add m).Records offset total s (as ++ bs) (xs ++ ys) u where
  reported := by
    rw [List.perm_iff_count]
    intro d
    have hd := h.reported.count_eq d
    have hd' := h'.reported.count_eq d
    simp only [all, add, List.count_append] at hd hd' ⊢
    omega
  ranges := by
    rw [leafRanges_append, List.flatMap_append, Text.width_append, ← Nat.add_assoc,
      List.append_assoc,
      add, List.map_append, ← List.append_assoc (s.pendingRanges offset)]
    refine (List.Perm.append_left _ h'.ranges).trans ?_
    rw [← List.append_assoc]
    exact List.Perm.append_right _ h.ranges
  skips := List.forall_mem_append.mpr ⟨h.skips, h'.skips⟩
  supplies := List.forall_mem_append.mpr ⟨h.supplies, h'.supplies⟩
  complaints := List.forall_mem_append.mpr ⟨h.complaints, h'.complaints⟩
  length_supplies := by
    rw [add, List.length_append, h.length_supplies, h'.length_supplies, List.countP_append]
  length_complaints := by
    rw [add, List.length_append, h.length_complaints, h'.length_complaints, List.countP_append]

end Ledger

/-- Every action reports what its entry in the ledger says. -/
theorem ParseState.StandsAt.records {s : ParseState} {offset total : Nat} {a : Action}
    (h : s.StandsAt offset total) (ha : s.Allows a) :
    (s.ledgerOf a).Records offset total s [a] (s.leavesOf a) (s.act a) where
  reported := .of_eq (s.diagnostics_act a)
  ranges := h.pendingRanges_act ha
  skips := by
    cases a with
    | skip message =>
        -- Only the end of the file lacks text.
        have hformed := h.regular.tokens _ (peek_mem_of_peekKind_ne ha)
        have htext : s.peek.text ≠ [] := fun htext => ha (hformed.text_eq_nil_iff.mp htext)
        have hwidth : s.peek.text.width ≠ 0 := fun hzero => htext (Text.width_eq_zero_iff.mp hzero)
        have hstop := hformed.stop_eq
        exact List.forall_mem_singleton.mpr (show s.peek.start < s.peek.stop by omega)
    | _ => exact List.forall_mem_nil _
  supplies := by
    cases a with
    | supply _ d => exact List.forall_mem_singleton.mpr ha.2.1
    | _ => exact List.forall_mem_nil _
  complaints := by
    cases a with
    | complain message =>
        obtain ⟨hstart, hstop⟩ := h.range_eof ha.1
        refine List.forall_mem_singleton.mpr ?_
        rw [hstart, hstop, ha.2]
    | _ => exact List.forall_mem_nil _
  length_supplies := by
    cases a <;> rfl
  length_complaints := by
    cases a <;> rfl

/-- Every run has a ledger. -/
theorem Steps.exists_ledger {s t : ParseState} {actions : List Action} {leaves : List Token}
    (h : Steps s actions leaves t) {offset total : Nat} (hs : s.StandsAt offset total) :
    ∃ l : Ledger, l.Records offset total s actions leaves t := by
  induction h generalizing offset with
  | refl s => exact ⟨.empty, Ledger.records_refl offset total s⟩
  | cons ha _ ih =>
      obtain ⟨l, hl⟩ := ih (hs.act ha)
      exact ⟨_, (hs.records ha).trans hl⟩

end Verbatim
