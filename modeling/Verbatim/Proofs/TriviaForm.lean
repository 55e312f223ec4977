/-
  What a piece of trivia looks like, and where a text may be cut.

  A piece of trivia is a stretch of blanks that ends no line, one line break, or a comment
  of one of three forms.  A seam is a place where a text may be cut: it lies neither inside
  a stretch of such blanks nor between a carriage return and its line feed.  Every piece of
  trivia and every token ends at a seam.  A token holds no blanks, with one exception: a
  string literal, which ends with its quote or in front of a line break.
-/
import Verbatim.Proofs.LexicalForm

set_option autoImplicit false

namespace Verbatim

open Text

/-! ## Forms -/

/-- White space that ends no line. -/
def isInnerBlank (c : Char) : Bool :=
  isBlank c && !isLineBreak c

/-- The texts that end a line. -/
def lineBreaks : List Text :=
  [['\n'], ['\r'], ['\r', '\n'], ['\u2028'], ['\u2029']]

/-- The forms of a piece of trivia of a kind, in front of some text. -/
inductive TriviaForm : TriviaKind → Text → Text → Prop where
  | whitespace {text after : Text} : text ≠ [] → (∀ c ∈ text, isInnerBlank c = true) →
      (∀ c ∈ after.head?, isInnerBlank c = false) → TriviaForm .whitespace text after
  | newline {text after : Text} : text ∈ lineBreaks →
      (text = ['\r'] → after.head? ≠ some '\n') → TriviaForm .newline text after
  /-- The comment goes on to the end of its line. -/
  | lineComment {body after : Text} : (∀ c ∈ body, isLineBreak c = false) → AtLineEnd after →
      TriviaForm .singleLineComment ('/' :: '/' :: body) after
  /-- The comment is closed where it can be closed first. -/
  | blockComment {body after : Text} :
      (∀ x y, body ++ ['*', '/'] = x ++ '*' :: '/' :: y → y = []) →
      TriviaForm .multiLineComment ('/' :: '*' :: (body ++ ['*', '/'])) after
  /-- The comment is closed nowhere in the text. -/
  | openComment {body : Text} : (∀ x y, body ≠ x ++ '*' :: '/' :: y) →
      TriviaForm .skippedText ('/' :: '*' :: body) []

/-- A place between two texts that is neither inside a stretch of blanks that end no line
nor between a carriage return and its line feed. -/
structure Seam (before after : Text) : Prop where
  blanks : ∀ c ∈ before.getLast?, isInnerBlank c = true →
    ∀ d ∈ after.head?, isInnerBlank d = false
  lineEnd : before.getLast? = some '\r' → after.head? ≠ some '\n'

/-! ## Seams -/

variable {before text after : Text}

theorem Seam.of_nil (before : Text) : Seam before [] :=
  ⟨fun _ _ _ => nofun, fun _ => nofun⟩

/-- Only the last character in front of a seam matters. -/
theorem Seam.of_text (hne : text ≠ []) (h : Seam text after) (before : Text) :
    Seam (before ++ text) after := by
  have hlast : (before ++ text).getLast? = text.getLast? := by
    rw [List.getLast?_append, Option.or_of_isSome (by simpa using hne)]
  exact ⟨by rw [hlast]; exact h.blanks, by rw [hlast]; exact h.lineEnd⟩

/-- Behind a text whose last character is no blank, there is a seam. -/
theorem Seam.of_not_blank (h : ∀ c ∈ text.getLast?, isBlank c = false) (after : Text) :
    Seam text after := by
  constructor
  · intro c hc hinner
    rw [isInnerBlank, h c hc] at hinner
    cases hinner
  · intro hreturn
    have hblank := h '\r' hreturn
    exact absurd hblank (by decide)

theorem isInnerBlank_of_isLineBreak {c : Char} (h : isLineBreak c = true) :
    isInnerBlank c = false := by
  rw [isInnerBlank, h, Bool.not_true, Bool.and_false]

/-- At the end of a line there is a seam, if the line break is whole. -/
theorem Seam.of_atLineEnd (h : AtLineEnd after)
    (hreturn : before.getLast? = some '\r' → after.head? ≠ some '\n') : Seam before after := by
  refine ⟨fun _ _ _ d hd => ?_, hreturn⟩
  rcases h with rfl | ⟨c, rest, rfl, hbreak⟩
  · cases hd
  · cases hd
    exact isInnerBlank_of_isLineBreak hbreak

/-! ## Pieces of trivia -/

theorem isLineBreak_of_mem_lineBreaks (h : text ∈ lineBreaks) :
    ∀ c ∈ text, isLineBreak c = true := by
  have hall : (lineBreaks.all fun t => t.all isLineBreak) = true := by decide
  exact List.all_eq_true.mp (List.all_eq_true.mp hall text h)

theorem eq_return_of_mem_lineBreaks (h : text ∈ lineBreaks) (hlast : text.getLast? = some '\r') :
    text = ['\r'] := by
  revert text
  decide

theorem mem_lineBreaks_of_isLineBreak {c : Char} (h : isLineBreak c = true) :
    [c] ∈ lineBreaks := by
  simp only [isLineBreak, Bool.or_eq_true, beq_iff_eq] at h
  rcases h with ((rfl | rfl) | rfl) | rfl <;> decide

theorem TriviaForm.text_ne_nil {kind : TriviaKind} (h : TriviaForm kind text after) :
    text ≠ [] := by
  cases h with
  | whitespace hne => exact hne
  | newline hmem =>
      rintro rfl
      exact absurd hmem (by decide)
  | lineComment | blockComment | openComment => exact List.cons_ne_nil _ _

/-- A piece of trivia ends at a seam. -/
theorem TriviaForm.seam {kind : TriviaKind} (h : TriviaForm kind text after) :
    Seam text after := by
  cases h with
  | whitespace _ hblank hend =>
      refine ⟨fun _ _ _ => hend, fun hreturn => ?_⟩
      have hinner := hblank '\r' (List.mem_of_getLast? hreturn)
      exact absurd hinner (by decide)
  | newline hmem hreturn =>
      refine ⟨fun c hc hinner => ?_, fun hlast => hreturn (eq_return_of_mem_lineBreaks hmem hlast)⟩
      have hbreak := isLineBreak_of_mem_lineBreaks hmem c (List.mem_of_getLast? hc)
      rw [isInnerBlank_of_isLineBreak hbreak] at hinner
      cases hinner
  | lineComment hbody hend =>
      refine .of_atLineEnd hend fun hlast => ?_
      have hmem := List.mem_of_getLast? hlast
      simp only [List.mem_cons] at hmem
      rcases hmem with hmem | hmem | hmem
      · exact absurd hmem (by decide)
      · exact absurd hmem (by decide)
      · exact absurd (hbody _ hmem) (by decide)
  | @blockComment body =>
      have hlast : ('/' :: '*' :: (body ++ ['*', '/'])).getLast? = some '/' := by
        simp [List.getLast?_cons]
      refine .of_not_blank (fun c hc => ?_) after
      cases hlast.symm.trans hc
      decide
  | openComment => exact .of_nil _

namespace Scan

theorem closedCut?_first {t : Text} {cut : Cut} (h : closedCut? t = some cut) :
    (∃ body, cut.front = body ++ ['*', '/']) ∧
      ∀ x y, cut.front = x ++ '*' :: '/' :: y → y = [] := by
  fun_induction closedCut? t generalizing cut with
  | case1 => cases h
  | case2 rest =>
      cases h
      refine ⟨⟨[], rfl⟩, fun x y heq => ?_⟩
      have hlength := congrArg List.length heq
      simp only [List.length_append, List.length_cons, List.length_nil] at hlength
      exact List.length_eq_zero_iff.mp (by omega)
  | case3 c rest hne ih =>
      obtain ⟨inner, hinner, rfl⟩ := Option.map_eq_some_iff.mp h
      obtain ⟨⟨body, hbody⟩, hfirst⟩ := ih hinner
      refine ⟨⟨c :: body, by rw [Cut.after, hbody]; rfl⟩, fun x y heq => ?_⟩
      cases x with
      | nil =>
          -- The comment would be closed here already.
          obtain ⟨hc, hslash⟩ := List.cons.inj heq
          refine (hne (y ++ inner.back) hc ?_).elim
          rw [← whole_closedCut? hinner, Cut.whole]
          exact congrArg (· ++ inner.back) hslash
      | cons d x => exact hfirst x y (List.cons.inj heq).2

theorem not_closed_of_closedCut? {t : Text} (h : closedCut? t = none) :
    ∀ x y, t ≠ x ++ '*' :: '/' :: y := by
  fun_induction closedCut? t with
  | case1 => exact fun x y => by simp
  | case2 => cases h
  | case3 c rest hne ih =>
      intro x y heq
      cases x with
      | nil =>
          obtain ⟨hc, hslash⟩ := List.cons.inj heq
          exact hne y hc hslash
      | cons d x => exact ih (Option.map_eq_none_iff.mp h) x y (List.cons.inj heq).2

theorem atLineEnd_span_back (t : Text) :
    AtLineEnd (Cut.span (fun c => !isLineBreak c) t).back := by
  have hend : ∀ c ∈ (Cut.span (fun c => !isLineBreak c) t).back.head?, (!isLineBreak c) = false :=
    head?_span_back
  cases hback : (Cut.span (fun c => !isLineBreak c) t).back with
  | nil => exact .inl rfl
  | cons c rest =>
      rw [hback] at hend
      exact .inr ⟨c, rest, rfl, by simpa using hend c rfl⟩

/-- Every piece of trivia that is cut off has one of the forms. -/
theorem triviaForm_of_trivia? {t : Text} {kind : TriviaKind} {cut : Cut}
    (h : trivia? t = some (kind, cut)) : TriviaForm kind cut.front cut.back := by
  unfold trivia? at h
  split at h
  · cases h
  · cases h
    exact .newline (by decide : ['\r', '\n'] ∈ lineBreaks) nofun
  · rename_i rest
    cases h
    have hbreak : isLineBreak '/' = false := by decide
    have hfront : (Cut.span (fun c => !isLineBreak c) ('/' :: '/' :: rest)).front =
        '/' :: '/' :: (Cut.span (fun c => !isLineBreak c) rest).front := by
      simp [Cut.span, hbreak]
    rw [hfront]
    exact .lineComment (fun c hc => by simpa using of_mem_span c hc) (atLineEnd_span_back _)
  · rename_i rest
    split at h
    · rename_i inner hinner
      cases h
      obtain ⟨⟨body, hbody⟩, hfirst⟩ := closedCut?_first hinner
      rw [hbody] at hfirst
      rw [Cut.after, hbody]
      exact .blockComment hfirst
    · rename_i hopen
      cases h
      exact .openComment (not_closed_of_closedCut? hopen)
  · rename_i c rest hreturn _ _
    split at h
    · rename_i hbreak
      cases h
      refine .newline (mem_lineBreaks_of_isLineBreak hbreak) fun hc hhead => ?_
      obtain ⟨tail, rfl⟩ := List.head?_eq_some_iff.mp hhead
      exact hreturn tail (List.cons.inj hc).1 rfl
    · rename_i hbreak
      split at h
      · rename_i hblank
        cases h
        refine .whitespace ?_ of_mem_span head?_span_back
        simp [Cut.span, hblank, hbreak]
      · cases h

end Scan

end Verbatim
