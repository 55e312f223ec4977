/-
  The tree of a source text spells the text.

  What has been put into the tree, what waits in front of the next token and what
  is still to come spell the same text before and after every action: a token that
  is read moves into the tree together with what waited for it, a token that is
  skipped moves into what waits, and a token that is supplied has no text.
-/
import Verbatim.Proofs.SourceReading

set_option autoImplicit false

namespace Verbatim

namespace ParseState

/-- The text that is not in the tree yet. -/
def pendingText (s : ParseState) : Text :=
  s.skipped.text ++ s.tokens.flatMap ScannedToken.fullText

/-- The next token takes the text that waits for it into the tree. -/
theorem Regular.fullText_nextLeaf {s : ParseState} (h : s.Regular) (hpeek : s.peek ∈ s.tokens) :
    s.nextLeaf.fullText = s.skipped.text ++ s.peek.fullText := by
  have hleading : s.nextLeaf.leading.text = s.skipped.text ++ s.peek.leading.text :=
    h.skipped.concat_text (h.tokens _ hpeek).leading
  unfold Token.fullText ScannedToken.fullText
  rw [hleading]
  simp only [List.append_assoc]
  rfl

/-- A skipped token waits with all its text. -/
theorem Regular.text_skippedWithNext {s : ParseState} (h : s.Regular)
    (hpeek : s.peek ∈ s.tokens) :
    s.skippedWithNext.text = s.skipped.text ++ s.peek.fullText := by
  have hformed := h.tokens _ hpeek
  have hleading := h.skipped.concat hformed.leading
  have htext := TriviaList.regular_ofList [⟨.skippedText, s.peek.text⟩]
  unfold skippedWithNext ScannedToken.fullText
  rw [(hleading.concat htext).concat_text hformed.trailing, hleading.concat_text htext,
    h.skipped.concat_text hformed.leading, TriviaList.ofList_text]
  simp only [List.flatMap_singleton, List.append_assoc]

/-- An action moves text, and neither loses nor repeats any. -/
theorem Allows.pendingText_act {s : ParseState} {a : Action} (h : s.Allows a) (hs : s.Regular) :
    (s.leavesOf a).flatMap Token.fullText ++ (s.act a).pendingText = s.pendingText := by
  cases a with
  | read =>
      have hpeek := peek_mem_of_peekKind_ne h
      rw [leavesOf, List.flatMap_singleton, hs.fullText_nextLeaf hpeek, pendingText, pendingText,
        tokens_of_peekKind_ne h, List.flatMap_cons, List.append_assoc]
      rfl
  | skip message =>
      have hpeek := peek_mem_of_peekKind_ne h
      have hskipped : (s.act (.skip message)).skipped = s.skippedWithNext := rfl
      rw [pendingText, hskipped, hs.text_skippedWithNext hpeek, pendingText,
        tokens_of_peekKind_ne h, List.flatMap_cons, List.append_assoc]
      rfl
  | supply _ _ => rfl
  | fill _ => rfl
  | complain _ => rfl

end ParseState

/-- A run moves text into the tree, and neither loses nor repeats any. -/
theorem Steps.pendingText_eq {s t : ParseState} {actions : List Action} {leaves : List Token}
    (h : Steps s actions leaves t) (hs : s.Regular) :
    leaves.flatMap Token.fullText ++ t.pendingText = s.pendingText := by
  induction h with
  | refl s => rfl
  | cons ha _ ih =>
      rw [List.flatMap_append, List.append_assoc, ih (ha.regular_act hs), ha.pendingText_act hs]

namespace ParseRun

variable {source : Text} {options : ParseOptions} (run : ParseRun source options)

theorem fullText_root : run.root.fullText = source := by
  -- What is pending in front of the end of the file goes into its leaf.
  have hpending : run.last.nextLeaf.fullText = run.last.pendingText := by
    rw [run.regular_last.fullText_nextLeaf run.peek_mem_last, ParseState.pendingText,
      run.tokens_last, List.flatMap_singleton]
  calc run.root.fullText
      = (Element.leavesAll run.statements).flatMap Token.fullText ++ run.last.pendingText := by
        rw [Element.fullText_eq_leaves, run.leaves_root, List.flatMap_append,
          List.flatMap_singleton, hpending]
    _ = (ParseState.start run.scanned.tokens).pendingText :=
        run.reads.reading.steps.pendingText_eq run.regular
    _ = source := run.covers.spells

end ParseRun

/-- Every text that offsets can count is parsed into a tree that spells the text and
knows its width, whether the text is well-formed or not. -/
theorem parse_spells_source (source : Text) (options : ParseOptions)
    (h : source.width < Offset.limit) :
    ∃ p, parse source options = .ok p ∧ p.root.fullText = source ∧
      p.root.width = source.width := by
  obtain ⟨run⟩ := exists_parseRun source options h
  have hwidth : run.root.width = source.width := by
    rw [run.made_root.width_eq, run.fullText_root]
  exact ⟨run.result, run.parse_eq, run.fullText_root, hwidth⟩

theorem parse_spells_brokenSource :
    brokenSource.width < Offset.limit ∧
      ∃ p, parse brokenSource ⟨false⟩ = .ok p ∧ p.root.fullText = brokenSource ∧
        p.root.width = brokenSource.width :=
  ⟨width_brokenSource, parse_spells_source brokenSource ⟨false⟩ width_brokenSource⟩

end Verbatim
