/-
  Every token ends at a seam.

  The text of a token holds no blank, unless it is a string literal: no character that goes
  on with a word or a number is a blank, and no fixed spelling has one.  A string literal
  ends with its quote, or it is not closed and its line ends there; and it does not end
  between a carriage return and a line feed, since it escapes both or none.  So every
  step ends at a seam, and so do all the pieces of trivia that it takes off.
-/
import Verbatim.Proofs.ScanRuns
import Verbatim.Proofs.TriviaForm

set_option autoImplicit false

namespace Verbatim

open Text Scan

/-! ## Characters that are no blanks -/

/-- The numbers of all blanks. -/
def blankNumbers : List Nat :=
  [9, 10, 11, 12, 13, 0x20, 0x85, 0xA0, 0x1680, 0x2000, 0x2001, 0x2002, 0x2003, 0x2004, 0x2005,
    0x2006, 0x2007, 0x2008, 0x2009, 0x200A, 0x2028, 0x2029, 0x202F, 0x205F, 0x3000, 0xFEFF]

theorem toNat_mem_blankNumbers {c : Char} (h : isBlank c = true) : c.toNat ∈ blankNumbers := by
  rw [isBlank, Bool.or_eq_true, beq_iff_eq] at h
  rcases h with h | rfl
  · simp only [isSpace, Bool.or_eq_true, Bool.and_eq_true, decide_eq_true_eq, beq_iff_eq] at h
    simp only [blankNumbers, List.mem_cons, List.not_mem_nil, or_false]
    omega
  · decide

theorem blankNumbers_not_namePart :
    ∀ n ∈ blankNumbers, isNamePart (Char.ofNat n) = false := by
  decide +kernel

theorem isBlank_of_isNamePart {c : Char} (h : isNamePart c = true) : isBlank c = false := by
  cases hblank : isBlank c with
  | false => rfl
  | true =>
      have hnot := blankNumbers_not_namePart c.toNat (toNat_mem_blankNumbers hblank)
      rw [Char.ofNat_toNat, h] at hnot
      cases hnot

theorem isNamePart_of_isNameStart {c : Char} (h : isNameStart c = true) : isNamePart c = true := by
  simp only [isNameStart, isNamePart, Bool.or_eq_true] at h ⊢
  rcases h with (h | h) | h <;> simp [h]

theorem hexPart_namePart :
    ∀ n < 128, isHexPart (Char.ofNat n) = true → isNamePart (Char.ofNat n) = true := by
  decide +kernel

theorem isNamePart_of_isHexPart {c : Char} (h : isHexPart c = true) : isNamePart c = true := by
  have hbelow {d : Char} (hd : d.toNat < 128) (hle : c ≤ d) : c.toNat < 128 :=
    Nat.lt_of_le_of_lt (UInt32.le_iff_toNat_le.mp (Char.le_def.mp hle)) hd
  have hascii : c.toNat < 128 := by
    simp only [isHexPart, isDigitPart, Char.isDigit, Bool.or_eq_true, Bool.and_eq_true,
      beq_iff_eq, decide_eq_true_eq] at h
    rcases h with ((rfl | h) | h) | h
    · decide
    · exact hbelow (by decide : '9'.toNat < 128) h.2
    · exact hbelow (by decide : 'f'.toNat < 128) h.2
    · exact hbelow (by decide : 'F'.toNat < 128) h.2
  have hpart := hexPart_namePart c.toNat hascii
  rw [Char.ofNat_toNat] at hpart
  exact hpart h

theorem isHexPart_of_isDigitPart {c : Char} (h : isDigitPart c = true) : isHexPart c = true := by
  simp [isHexPart, h]

theorem not_blank_of_isHexPart {c : Char} (h : isHexPart c = true) : isBlank c = false :=
  isBlank_of_isNamePart (isNamePart_of_isHexPart h)

/-! ## Names, numbers and fixed spellings -/

theorem not_blank_of_all {t : Text} (h : (t.all fun c => !isBlank c) = true) :
    ∀ c ∈ t, isBlank c = false := by
  simpa using h

theorem not_blank_of_isDigitPart {digits : Text} (h : ∀ c ∈ digits, isDigitPart c = true) :
    ∀ c ∈ digits, isBlank c = false :=
  fun c hc => not_blank_of_isHexPart (isHexPart_of_isDigitPart (h c hc))

theorem IsExponent.not_blank {t : Text} (h : IsExponent t) : ∀ c ∈ t, isBlank c = false := by
  cases h with
  | none => exact List.forall_mem_nil _
  | plain he hdigits =>
      refine List.forall_mem_cons.mpr ⟨?_, not_blank_of_isDigitPart hdigits⟩
      rcases he with rfl | rfl <;> decide
  | signed he hsign hdigits =>
      refine List.forall_mem_cons.mpr ⟨?_, List.forall_mem_cons.mpr ⟨?_, ?_⟩⟩
      · rcases he with rfl | rfl <;> decide
      · rcases hsign with rfl | rfl <;> decide
      · exact not_blank_of_isDigitPart hdigits

theorem IsFraction.not_blank {t : Text} (h : IsFraction t) : ∀ c ∈ t, isBlank c = false := by
  cases h with
  | none => exact List.forall_mem_nil _
  | point hdigits =>
      exact List.forall_mem_cons.mpr ⟨by decide, not_blank_of_isDigitPart hdigits⟩

theorem IsNumber.not_blank {t : Text} (h : IsNumber t) : ∀ c ∈ t, isBlank c = false := by
  have hfirst {first : Char} (hdigit : first.isDigit = true) : isBlank first = false :=
    not_blank_of_isHexPart (isHexPart_of_isDigitPart (by simp [isDigitPart, hdigit]))
  cases h with
  | hexadecimal hx hdigits =>
      refine List.forall_mem_cons.mpr ⟨by decide, List.forall_mem_cons.mpr ⟨?_, ?_⟩⟩
      · rcases hx with rfl | rfl <;> decide
      · exact fun c hc => not_blank_of_isHexPart (hdigits c hc)
  | radix hr hdigits =>
      have hletters := not_blank_of_all (t := ['b', 'B', 'o', 'O']) (by decide)
      exact List.forall_mem_cons.mpr ⟨by decide,
        List.forall_mem_cons.mpr ⟨hletters _ hr, not_blank_of_isDigitPart hdigits⟩⟩
  | decimal hdigit hdigits hfraction hexponent =>
      refine List.forall_mem_cons.mpr ⟨hfirst hdigit, List.forall_mem_append.mpr ⟨?_, ?_⟩⟩
      · exact not_blank_of_isDigitPart hdigits
      · exact List.forall_mem_append.mpr ⟨hfraction.not_blank, hexponent.not_blank⟩
  | point hdigit hdigits hexponent =>
      refine List.forall_mem_cons.mpr ⟨by decide, List.forall_mem_cons.mpr ⟨hfirst hdigit, ?_⟩⟩
      exact List.forall_mem_append.mpr
        ⟨not_blank_of_isDigitPart hdigits, hexponent.not_blank⟩

theorem IsName.not_blank {t : Text} (h : IsName t) : ∀ c ∈ t, isBlank c = false := by
  obtain ⟨first, rest, rfl, hfirst, hrest⟩ := h
  exact List.forall_mem_cons.mpr ⟨isBlank_of_isNamePart (isNamePart_of_isNameStart hfirst),
    fun c hc => isBlank_of_isNamePart (hrest c hc)⟩

theorem Kind.fixedText_not_blank {k : Kind} {spelling : Text} (h : k.fixedText = some spelling) :
    ∀ c ∈ spelling, isBlank c = false := by
  refine not_blank_of_all ?_
  cases k
  all_goals
    first
    | cases h
      decide
    | cases h

/-- The text of a token is a fixed spelling, or the token is of one of the kinds whose texts
vary. -/
theorem Kind.cases_of_isToken {k : Kind} (h : k.isToken = true) :
    (∃ spelling, k.fixedText = some spelling) ∨ k = .eof ∨ k = .unknown ∨ k = .identifier ∨
      k = .numericLiteral ∨ k = .stringLiteral := by
  revert h
  cases k <;> simp [Kind.isToken, Kind.fixedText, Kind.number, Kind.ctorIdx]

/-! ## Strings -/

theorem map_fst_escapes (t : Text) : (escapes t).map Prod.fst = t := by
  fun_induction escapes t with
  | case1 => rfl
  | case2 rest ih | case3 c rest _ ih => simp [ih]
  | case4 c rest _ _ ih => simp [ih]

/-- Other characters in front do not change what a text ends with. -/
theorem getLast?_escapes (front : List (Char × Bool)) {c : Char} {t : Text} {last : Char × Bool}
    (h : (front ++ escapes (c :: t)).getLast? = some last) :
    (escapes (c :: t)).getLast? = some last := by
  have hne : escapes (c :: t) ≠ [] := by
    intro hnil
    have hmap := map_fst_escapes (c :: t)
    rw [hnil] at hmap
    cases hmap
  rwa [List.getLast?_append, Option.or_of_isSome (by simpa using hne)] at h

/-- Behind an escaped carriage return, a line feed would be escaped, too. -/
theorem escapes_append_feed {body : Text} (h : (escapes body).getLast? = some ('\r', true))
    (rest : Text) :
    escapes (body ++ '\n' :: rest) ≠ escapes body ++ escapes ('\n' :: rest) := by
  have hfeed : escapes ('\n' :: rest) = ('\n', false) :: escapes rest := escapes_cons nofun
  fun_induction escapes body with
  | case1 => cases h
  | case2 tail ih =>
      cases tail with
      | nil => cases h
      | cons d tail =>
          have hlast := getLast?_escapes [('\\', false), ('\r', true), ('\n', true)] h
          exact fun heq => ih hlast ((List.append_right_inj
            [('\\', false), ('\r', true), ('\n', true)]).mp heq)
  | case3 c tail hreturn ih =>
      cases tail with
      | nil =>
          cases h
          rw [hfeed]
          exact fun heq => by cases heq
      | cons d tail =>
          have hlast := getLast?_escapes [('\\', false), (c, true)] h
          have hhead : c = '\r' → (d :: tail ++ '\n' :: rest).head? ≠ some '\n' := by
            rintro hc hd
            cases hd
            exact hreturn tail hc rfl
          rw [List.cons_append, List.cons_append, escapes_escape hhead]
          exact fun heq => ih hlast ((List.append_right_inj [('\\', false), (c, true)]).mp heq)
  | case4 c tail _ hescape ih =>
      cases tail with
      | nil => cases h
      | cons d tail =>
          have hlast := getLast?_escapes [(c, false)] h
          rw [List.cons_append, escapes_cons fun hc => (hescape d tail hc rfl).elim]
          exact fun heq => ih hlast ((List.append_right_inj [(c, false)]).mp heq)

/-- A string does not end between a carriage return and a line feed. -/
theorem IsString.not_return {text after body : Text} {quote : Char}
    (h : IsString text after quote body) (hlast : text.getLast? = some '\r') :
    after.head? ≠ some '\n' := by
  intro hhead
  obtain ⟨rest, rfl⟩ := List.head?_eq_some_iff.mp hhead
  have hquote : quote ≠ '\r' := by
    rcases h.quote_eq with rfl | rfl <;> decide
  have hmap := map_fst_escapes body
  rw [h.text_eq, List.getLast?_cons] at hlast
  cases hbody : (escapes body).getLast? with
  | none =>
      rw [List.getLast?_eq_none_iff.mp hbody] at hmap
      rw [← hmap] at hlast
      exact hquote (Option.some.inj hlast)
  | some last =>
      obtain ⟨c, escaped⟩ := last
      rw [← hmap, List.getLast?_map, hbody] at hlast
      obtain rfl : c = '\r' := Option.some.inj hlast
      cases escaped with
      | false => exact absurd (h.oneLine _ (List.mem_of_getLast? hbody)) (by decide)
      | true => exact escapes_append_feed hbody rest h.escapes_append

theorem IsString.seam {text after body : Text} {quote : Char}
    (h : IsString text after quote body) : Seam text after := by
  cases hclosed : isClosed text with
  | false => exact .of_atLineEnd (h.open_atLineEnd hclosed) h.not_return
  | true =>
      refine .of_not_blank (fun c hc => ?_) after
      have hmap := map_fst_escapes body
      rw [h.text_eq, isClosed, beq_iff_eq] at hclosed
      rw [h.text_eq, List.getLast?_cons, ← hmap, List.getLast?_map, hclosed] at hc
      cases hc
      rcases h.quote_eq with rfl | rfl <;> decide

/-! ## Tokens -/

theorem LexicalForm.seam {kind : Kind} {text after : Text} (h : LexicalForm kind text after)
    (hkind : kind.isToken = true) : Seam text after := by
  have hclear (hall : ∀ c ∈ text, isBlank c = false) : Seam text after :=
    .of_not_blank (fun c hc => hall c (List.mem_of_getLast? hc)) after
  rcases Kind.cases_of_isToken hkind with ⟨spelling, hfixed⟩ | rfl | rfl | rfl | rfl | rfl
  · exact hclear (h.fixed spelling hfixed ▸ Kind.fixedText_not_blank hfixed)
  · rw [(h.eof rfl).2]
    exact .of_nil text
  · obtain ⟨c, rfl, hnothing⟩ := h.unknown rfl
    exact hclear (List.forall_mem_singleton.mpr hnothing.not_blank)
  · exact hclear (h.name rfl).1.not_blank
  · exact hclear (h.number rfl).not_blank
  · obtain ⟨quote, body, hstring⟩ := h.string rfl
    exact hstring.seam

/-! ## Steps -/

/-- A piece of trivia fits its kind between two texts, and starts and ends at a seam.  A
stretch of blanks does not go on to either side. -/
structure Trivia.Fits (p : Trivia) (before after : Text) : Prop where
  form : TriviaForm p.kind p.text after
  seam_before : Seam before (p.text ++ after)
  seam_after : Seam (before ++ p.text) after
  maximal : p.kind = .whitespace → (∀ c ∈ before.getLast?, isInnerBlank c = false) ∧
    ∀ c ∈ after.head?, isInnerBlank c = false

/-- A piece of trivia stands at an offset of a source, and fits its kind there. -/
def Trivia.StandsIn (p : Trivia) (source : Text) (offset : Nat) : Prop :=
  ∃ before after, source = before ++ p.text ++ after ∧ offset = before.width ∧
    p.Fits before after

/-- The pieces of a run that starts at an offset, each with the offset where it starts. -/
def placedFrom : Nat → List Trivia → List (Nat × Trivia)
  | _, [] => []
  | offset, p :: rest => (offset, p) :: placedFrom (offset + p.width) rest

section

variable {before t rest : Text} {items : List Trivia}

/-- A piece that starts at a seam fits its kind. -/
theorem TriviaForm.fits {kind : TriviaKind} {text after : Text} (h : TriviaForm kind text after)
    (hseam : Seam before (text ++ after)) : (Trivia.mk kind text).Fits before after where
  form := h
  seam_before := hseam
  seam_after := h.seam.of_text h.text_ne_nil before
  maximal := by
    rintro rfl
    cases h with
    | whitespace hne hblank hend =>
        refine ⟨fun c hc => ?_, hend⟩
        obtain ⟨d, tail, rfl⟩ := List.exists_cons_of_ne_nil hne
        cases hinner : isInnerBlank c with
        | false => rfl
        | true =>
            have hnot := hseam.blanks c hc hinner d rfl
            rw [hblank d List.mem_cons_self] at hnot
            cases hnot

/-- Behind pieces of trivia that start at a seam, there is a seam. -/
theorem Scan.Peels.seam (h : Peels t items rest) (hseam : Seam before t) :
    Seam (before ++ items.flatMap Trivia.text) rest := by
  induction h generalizing before with
  | nil => rwa [List.flatMap_nil, List.append_nil]
  | cons htrivia _ ih =>
      have hform := triviaForm_of_trivia? htrivia
      rw [List.flatMap_cons, ← List.append_assoc]
      exact ih (hform.seam.of_text hform.text_ne_nil before)

/-- Pieces of trivia that start at a seam fit their kinds where they stand. -/
theorem Scan.Peels.standIn (h : Peels t items rest) (hseam : Seam before t) :
    ∀ place ∈ placedFrom before.width items, place.2.StandsIn (before ++ t) place.1 := by
  induction h generalizing before with
  | nil => exact List.forall_mem_nil _
  | @cons t rest kind cut items htrivia _ ih =>
      have hwhole : t = cut.front ++ cut.back := (whole_trivia? htrivia).symm
      rw [hwhole] at hseam ⊢
      have hfits := (triviaForm_of_trivia? htrivia).fits hseam
      refine List.forall_mem_cons.mpr ⟨⟨before, cut.back, ?_, rfl, hfits⟩, ?_⟩
      · exact (List.append_assoc _ _ _).symm
      · have hrest := ih hfits.seam_after
        rwa [Text.width_append, List.append_assoc] at hrest

end

namespace Scanner

variable {s : Scanner} {step : ScanStep} {source before : Text}

/-- There is a seam behind the token of a step, and another one where the step ends. -/
theorem Parts.seams (h : s.Parts step) (before : Text) :
    Seam (before ++ step.token.leading.text ++ step.token.text) step.behind ∧
      Seam (before ++ step.token.fullText) step.after.rest := by
  have hformed := h.takes.formed
  have htoken : Seam (before ++ step.token.leading.text ++ step.token.text) step.behind := by
    by_cases hnil : step.token.text = []
    · rw [(h.form.eof (hformed.text_eq_nil_iff.mp hnil)).2]
      exact .of_nil _
    · exact (h.form.seam hformed.isToken).of_text hnil _
  refine ⟨htoken, ?_⟩
  have hlast := h.trailing.seam htoken
  rw [hformed.trailing.flatMap_text_toList] at hlast
  simpa only [ScannedToken.fullText, List.append_assoc] using hlast

/-- A place in a source, at a seam. -/
structure AtSeam (source before : Text) (s : Scanner) : Prop extends At source before s where
  seam : Seam before s.rest

theorem atSeam_start (source : Text) : AtSeam source [] (.start source) where
  toAt := at_start source
  seam := ⟨nofun, nofun⟩

theorem AtSeam.next (h : AtSeam source before s) (hnext : s.next = .ok step) :
    AtSeam source (before ++ step.token.fullText) step.after where
  toAt := h.toAt.next hnext
  seam := ((parts_of_next hnext).seams before).2

end Scanner

end Verbatim
