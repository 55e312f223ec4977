/-
  Line breaks between tokens.

  Whether a line break stands between two tokens is read off the facts about the two runs
  of trivia between them.  These facts know a line feed and a carriage return wherever they
  stand, but the two other line breaks only as pieces of their own: inside of a comment
  they go unnoticed.  So the facts never claim a line break that is not there, and they
  miss one exactly if all line breaks between the tokens are such.
-/
import Verbatim.Parse.State
import Verbatim.Proofs.Seams

set_option autoImplicit false

namespace Verbatim

open Text

/-- The facts about the trivia between two tokens tell of a line break. -/
def breaksBetween (t u : ScannedToken) : Bool :=
  t.trailing.flags.newline || u.leading.flags.newline

/-- Behind a token and in front of the next one, this is what the parser goes by. -/
theorem ParseState.atLineBreak_consume {s : ParseState} {t u : ScannedToken}
    {rest : List ScannedToken} (h : s.tokens = t :: u :: rest) :
    s.consume.atLineBreak = breaksBetween t u := by
  simp only [atLineBreak, consume, peek, h, List.tail_cons, breaksBetween]

/-! ## Single pieces -/

theorem isLineBreak_iff {c : Char} :
    isLineBreak c = true ↔ c = '\n' ∨ c = '\r' ∨ c = '\u2028' ∨ c = '\u2029' := by
  simp only [isLineBreak, Bool.or_eq_true, beq_iff_eq, or_assoc]

/-- A piece tells of a line break if it is one, or if it holds a line feed or a carriage
return.  Blanks and line comments hold neither. -/
theorem TriviaForm.hasNewline_iff {kind : TriviaKind} {text after : Text}
    (h : TriviaForm kind text after) :
    (Trivia.mk kind text).hasNewline = true ↔
      kind = .newline ∨ ∃ c ∈ text, c = '\n' ∨ c = '\r' := by
  have hnone (hall : ∀ c ∈ text, isLineBreak c = false) : ¬∃ c ∈ text, c = '\n' ∨ c = '\r' := by
    rintro ⟨c, hc, rfl | rfl⟩
    · exact absurd (hall _ hc) (by decide)
    · exact absurd (hall _ hc) (by decide)
  cases h with
  | whitespace _ hblank _ =>
      have hall : ∀ c ∈ text, isLineBreak c = false := by
        intro c hc
        simpa using (Bool.and_eq_true_iff.mp (hblank c hc)).2
      exact ⟨nofun, fun hor => hor.elim nofun fun hbreak => absurd hbreak (hnone hall)⟩
  | newline => exact ⟨fun _ => .inl rfl, fun _ => rfl⟩
  | @lineComment body _ hbody _ =>
      have hall : ∀ c ∈ '/' :: '/' :: body, isLineBreak c = false :=
        List.forall_mem_cons.mpr ⟨by decide, List.forall_mem_cons.mpr ⟨by decide, hbody⟩⟩
      exact ⟨nofun, fun hor => hor.elim nofun fun hbreak => absurd hbreak (hnone hall)⟩
  | blockComment | openComment =>
      simp only [Trivia.hasNewline, List.any_eq_true, Bool.or_eq_true, beq_iff_eq, reduceCtorEq,
        false_or]

/-- A line break as a piece of its own holds one. -/
theorem TriviaForm.exists_isLineBreak {text after : Text} (h : TriviaForm .newline text after) :
    ∃ c ∈ text, isLineBreak c = true := by
  obtain ⟨c, rest, heq⟩ := List.exists_cons_of_ne_nil h.text_ne_nil
  cases h with
  | newline hmem _ =>
      have hfirst : c ∈ text := heq ▸ List.mem_cons_self
      exact ⟨c, hfirst, isLineBreak_of_mem_lineBreaks hmem c hfirst⟩

/-! ## Runs of pieces -/

namespace Scan

variable {t rest : Text} {items : List Trivia}

theorem Peels.exists_form (h : Peels t items rest) :
    ∀ p ∈ items, ∃ after, TriviaForm p.kind p.text after := by
  induction h with
  | nil => exact List.forall_mem_nil _
  | cons htrivia _ ih =>
      exact List.forall_mem_cons.mpr ⟨⟨_, triviaForm_of_trivia? htrivia⟩, ih⟩

/-- What a run tells of: a line break as a piece of its own, a line feed or a carriage
return. -/
theorem Peels.newline_iff (h : Peels t items rest) :
    (TriviaFlags.gather items).newline = true ↔
      (∃ p ∈ items, p.kind = .newline) ∨ ∃ c ∈ items.flatMap Trivia.text, c = '\n' ∨ c = '\r' := by
  rw [TriviaFlags.gather_newline, List.any_eq_true]
  constructor
  · rintro ⟨p, hp, hnewline⟩
    obtain ⟨after, hform⟩ := h.exists_form p hp
    rcases hform.hasNewline_iff.mp hnewline with hkind | ⟨c, hc, hbreak⟩
    · exact .inl ⟨p, hp, hkind⟩
    · exact .inr ⟨c, List.mem_flatMap.mpr ⟨p, hp, hc⟩, hbreak⟩
  · rintro (⟨p, hp, hkind⟩ | ⟨c, hc, hbreak⟩)
    · obtain ⟨after, hform⟩ := h.exists_form p hp
      exact ⟨p, hp, hform.hasNewline_iff.mpr (.inl hkind)⟩
    · obtain ⟨p, hp, hc⟩ := List.mem_flatMap.mp hc
      obtain ⟨after, hform⟩ := h.exists_form p hp
      exact ⟨p, hp, hform.hasNewline_iff.mpr (.inr ⟨c, hc, hbreak⟩)⟩

/-- A run never tells of a line break that it does not hold. -/
theorem Peels.exists_isLineBreak (h : Peels t items rest)
    (hnewline : (TriviaFlags.gather items).newline = true) :
    ∃ c ∈ items.flatMap Trivia.text, isLineBreak c = true := by
  rcases h.newline_iff.mp hnewline with ⟨p, hp, hkind⟩ | ⟨c, hc, hbreak⟩
  · obtain ⟨after, hform⟩ := h.exists_form p hp
    rw [hkind] at hform
    obtain ⟨c, hc, hbreak⟩ := hform.exists_isLineBreak
    exact ⟨c, List.mem_flatMap.mpr ⟨p, hp, hc⟩, hbreak⟩
  · refine ⟨c, hc, isLineBreak_iff.mpr ?_⟩
    exact hbreak.elim .inl fun hreturn => .inr (.inl hreturn)

/-- A run whose comments hold no line break of the two other forms tells of every line
break that it holds. -/
theorem Peels.newline_of_isLineBreak (h : Peels t items rest)
    (hplain : ∀ p ∈ items, p.kind ≠ .newline → '\u2028' ∉ p.text ∧ '\u2029' ∉ p.text)
    (hbreak : ∃ c ∈ items.flatMap Trivia.text, isLineBreak c = true) :
    (TriviaFlags.gather items).newline = true := by
  obtain ⟨c, hc, hbreak⟩ := hbreak
  obtain ⟨p, hp, hmem⟩ := List.mem_flatMap.mp hc
  refine h.newline_iff.mpr ?_
  by_cases hkind : p.kind = .newline
  · exact .inl ⟨p, hp, hkind⟩
  · obtain ⟨hline, hparagraph⟩ := hplain p hp hkind
    refine .inr ⟨c, hc, ?_⟩
    rcases isLineBreak_iff.mp hbreak with rfl | rfl | rfl | rfl
    · exact .inl rfl
    · exact .inr rfl
    · exact absurd hmem hline
    · exact absurd hmem hparagraph

end Scan

/-! ## Neighbouring tokens -/

namespace Scanner

variable {s : Scanner} {step next : ScanStep} {source before : Text}

/-- The source has the trivia on both sides between two tokens that are scanned one behind
the other. -/
theorem At.slice?_between (h : At source before s) (hstep : s.next = .ok step)
    (hnext : step.after.next = .ok next) :
    source.slice? step.token.stop next.token.start =
      some (step.token.trailing.text ++ next.token.leading.text) := by
  obtain ⟨hsource, _, hstop⟩ := h.token (parts_of_next hstep)
  obtain ⟨hsource', hstart, _⟩ := (h.next hstep).token (parts_of_next hnext)
  have hslice := slice?_append (before ++ step.token.leading.text ++ step.token.text)
    (step.token.trailing.text ++ next.token.leading.text) (next.token.text ++ next.behind)
  rw [hsource', hstop, hstart]
  simp only [ScannedToken.fullText, List.append_assoc, Text.width_append, ← Nat.add_assoc]
    at hslice ⊢
  exact hslice

theorem Parts.breaksBetween_eq (h : s.Parts step) (h' : step.after.Parts next) :
    breaksBetween step.token next.token = (TriviaFlags.gather
      (step.token.trailing.toList ++ next.token.leading.toList)).newline := by
  rw [TriviaFlags.gather_append, ← TriviaList.ofList_flags, ← TriviaList.ofList_flags,
    h.takes.formed.trailing.ofList_toList, h'.takes.formed.leading.ofList_toList]
  rfl

end Scanner

/-- Between two neighbouring tokens of a source, the parser goes by a line break exactly if
one of the pieces between them is a line break, or if the text between them holds a line
feed or a carriage return.  The text then holds a line break; and if no comment between the
tokens holds a line break of one of the two other forms, the parser goes by a line break
whenever the text holds one. -/
theorem scan_breaksBetween_iff (source : Text) (h : source.width < Offset.limit) :
    ∃ scanned, scan source = .ok scanned ∧
      ∀ front t u rest, scanned.tokens = front ++ t :: u :: rest →
        (∀ s : ParseState, s.tokens = t :: u :: rest →
          s.consume.atLineBreak = breaksBetween t u) ∧
        ∃ between, source.slice? t.stop u.start = some between ∧
          (breaksBetween t u = true ↔
            (∃ p ∈ t.trailing.toList ++ u.leading.toList, p.kind = .newline) ∨
              ∃ c ∈ between, c = '\n' ∨ c = '\r') ∧
          (breaksBetween t u = true → ∃ c ∈ between, isLineBreak c = true) ∧
          ((∀ p ∈ t.trailing.toList ++ u.leading.toList, p.kind ≠ .newline →
              '\u2028' ∉ p.text ∧ '\u2029' ∉ p.text) →
            (breaksBetween t u = true ↔ ∃ c ∈ between, isLineBreak c = true)) := by
  obtain ⟨scanned, steps, hscan, hscans, htokens, _⟩ := exists_scans source h
  refine ⟨scanned, hscan, fun front t u rest heq => ?_⟩
  obtain ⟨before, place, step, next, hplace, hstep, rfl, _, hnext, rfl⟩ :=
    hscans.of_neighbours (fun _ _ _ => Scanner.At.next) (Scanner.at_start source)
      (htokens.symm.trans heq)
  have hparts := Scanner.parts_of_next hstep
  have hparts' := Scanner.parts_of_next hnext
  have hpeels := hparts.trailing.append hparts'.leading
  refine ⟨fun _ => ParseState.atLineBreak_consume, _, hplace.slice?_between hstep hnext, ?_⟩
  rw [hparts.breaksBetween_eq hparts', ← hparts.takes.formed.trailing.flatMap_text_toList,
    ← hparts'.takes.formed.leading.flatMap_text_toList, ← List.flatMap_append]
  exact ⟨hpeels.newline_iff, hpeels.exists_isLineBreak, fun hplain =>
    ⟨hpeels.exists_isLineBreak, hpeels.newline_of_isLineBreak hplain⟩⟩

/-- Two names with a comment between them that holds a line break of another form than a
line feed or a carriage return. -/
def hiddenBreakSource : Text :=
  "a/*\u2028*/b".toList

theorem width_hiddenBreakSource : hiddenBreakSource.width < Offset.limit := by
  decide

theorem scan_breaksBetween_hiddenBreakSource :
    hiddenBreakSource.width < Offset.limit ∧
      ∃ scanned, scan hiddenBreakSource = .ok scanned ∧
        ∀ front t u rest, scanned.tokens = front ++ t :: u :: rest →
          (∀ s : ParseState, s.tokens = t :: u :: rest →
            s.consume.atLineBreak = breaksBetween t u) ∧
          ∃ between, hiddenBreakSource.slice? t.stop u.start = some between ∧
            (breaksBetween t u = true ↔
              (∃ p ∈ t.trailing.toList ++ u.leading.toList, p.kind = .newline) ∨
                ∃ c ∈ between, c = '\n' ∨ c = '\r') ∧
            (breaksBetween t u = true → ∃ c ∈ between, isLineBreak c = true) ∧
            ((∀ p ∈ t.trailing.toList ++ u.leading.toList, p.kind ≠ .newline →
                '\u2028' ∉ p.text ∧ '\u2029' ∉ p.text) →
              (breaksBetween t u = true ↔ ∃ c ∈ between, isLineBreak c = true)) :=
  ⟨width_hiddenBreakSource, scan_breaksBetween_iff hiddenBreakSource width_hiddenBreakSource⟩

/-- The comment holds a line break, and the parser does not go by it. -/
theorem breaksBetween_misses_hiddenBreak :
    ∃ scanned t u rest between, scan hiddenBreakSource = .ok scanned ∧
      scanned.tokens = t :: u :: rest ∧
      hiddenBreakSource.slice? t.stop u.start = some between ∧
      (∃ c ∈ between, isLineBreak c = true) ∧ breaksBetween t u = false :=
  ⟨_, _, _, _, _, rfl, rfl, rfl, ⟨'\u2028', by decide, by decide⟩, rfl⟩

end Verbatim
