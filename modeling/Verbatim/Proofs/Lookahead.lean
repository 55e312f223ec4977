/-
  How far scanning looks ahead.

  A scanning function looks at no more than the first character behind what it cuts
  off.  So a text that is cut in two is cut in the same way with more text behind it, as
  long as something is left over of it, or a blank is what comes first: no token but a
  string literal that is not closed goes on over a blank.  A text whose last line is
  ended leaves nothing open either, except for a comment that is not closed.
-/
import Verbatim.Proofs.ScanTiling

set_option autoImplicit false

namespace Verbatim

/-! ## Cuts with more text behind -/

namespace Cut

/-- More text behind. -/
def before (c : Cut) (t : Text) : Cut :=
  ⟨c.front, c.back ++ t⟩

end Cut

namespace Scan

open Text

/-- More text does not go on with what was cut off: something is left over in front of
it, or it starts with a blank. -/
def Apart (left more : Text) : Prop :=
  left ≠ [] ∨ ∃ rest, more = ' ' :: rest

/-- What is left over of a text is part of it. -/
theorem Apart.whole {cut : Cut} {more : Text} (h : Apart cut.back more) :
    Apart cut.whole more :=
  h.imp_left fun hback hwhole => hback (List.append_eq_nil_iff.mp hwhole).2

/-- More text changes nothing about the character that comes first. -/
theorem Apart.not_cons {t more : Text} (h : Apart t more) (c : Char) (hc : c ≠ ' ')
    (ht : ∀ tail, t = c :: tail → False) : ∀ tail, t ++ more = c :: tail → False := by
  intro tail heq
  cases t with
  | nil =>
      obtain ⟨rest, rfl⟩ := h.resolve_left fun hne => hne rfl
      exact hc (List.cons.inj heq).1.symm
  | cons d tail => exact ht tail (by rw [(List.cons.inj heq).1])

/-- Cutting stops in front of more text that is apart. -/
def Stops (f : Text → Cut) : Prop :=
  ∀ t more, Apart (f t).back more → f (t ++ more) = (f t).before more

/-- The longest front stays the longest one if something is left over, or if the first
character that comes behind does not belong to it. -/
theorem span_append {p : Char → Bool} {t more : Text}
    (h : (Cut.span p t).back ≠ [] ∨ ∀ c ∈ more.head?, p c = false) :
    Cut.span p (t ++ more) = (Cut.span p t).before more := by
  induction t with
  | nil =>
      have hfirst := h.resolve_left fun hne => hne rfl
      cases more with
      | nil => rfl
      | cons c rest => simp [Cut.span, Cut.before, hfirst c rfl]
  | cons c tail ih =>
      cases hc : p c with
      | true =>
          simp only [Cut.span, Cut.before, Cut.mk.injEq, List.dropWhile_cons, hc, if_true] at ih h ⊢
          obtain ⟨hfront, hback⟩ := ih h
          simp [hc, hfront, hback]
      | false => simp [Cut.span, Cut.before, hc]

theorem span_stops {p : Char → Bool} (hp : p ' ' = false) : Stops (Cut.span p) := by
  intro t more h
  refine span_append (h.imp_right ?_)
  rintro ⟨rest, rfl⟩ c hc
  cases hc
  exact hp

theorem digitsCut_stops : Stops digitsCut :=
  span_stops (by decide)

theorem Stops.andThen {f g : Text → Cut} (hf : Stops f) (hg : Stops g)
    (hwhole : ∀ t, (g t).whole = t) : Stops fun t => (f t).andThen g := by
  intro t more h
  have hback : Apart (f t).back more := by
    have hcut : Apart (g (f t).back).back more := h
    have happart := hcut.whole
    rwa [hwhole] at happart
  simp only [hf t more hback, Cut.andThen, Cut.before, hg (f t).back more h]
  rfl

/-- Digits behind some characters. -/
theorem digitsCut_after (front : Text) {t more : Text} (h : Apart (digitsCut t).back more) :
    (digitsCut (t ++ more)).after front = ((digitsCut t).after front).before more := by
  rw [digitsCut_stops t more h]
  rfl

theorem apart_of_digitsCut {t more : Text} (h : Apart (digitsCut t).back more) : Apart t more := by
  have happart := h.whole
  rwa [whole_digitsCut] at happart

theorem exponentCut_stops : Stops exponentCut := by
  intro t more
  fun_cases exponentCut t with
  | case1 | case2 | case4 | case5 => exact digitsCut_after _
  | case3 tail hminus hplus | case6 tail hminus hplus =>
      intro h
      have happart : Apart tail more := apart_of_digitsCut h
      rw [List.cons_append, exponentCut, digitsCut_after _ h]
      · exact happart.not_cons '-' (by decide) hminus
      · exact happart.not_cons '+' (by decide) hplus
  | case7 _ _ _ hlower _ _ hupper =>
      intro h
      have he := h.not_cons 'e' (by decide) hlower
      have hE := h.not_cons 'E' (by decide) hupper
      rw [exponentCut]
      · rfl
      · exact fun _ => he _
      · exact fun _ => he _
      · exact he
      · exact fun _ => hE _
      · exact fun _ => hE _
      · exact hE

theorem fractionCut_stops : Stops fractionCut := by
  intro t more
  fun_cases fractionCut t with
  | case1 => exact fun _ => rfl
  | case2 tail hpoint =>
      intro h
      rw [List.cons_append, fractionCut, digitsCut_after _ h]
      exact (apart_of_digitsCut h).not_cons '.' (by decide) hpoint
  | case3 _ _ hpoint =>
      intro h
      have hnone := h.not_cons '.' (by decide) hpoint
      rw [fractionCut]
      · rfl
      · exact fun _ => hnone _
      · exact hnone

theorem decimalCut_stops (first : Char) : Stops (decimalCut first) := by
  unfold decimalCut
  by_cases hfirst : first = '.'
  · simp only [hfirst, if_true]
    exact digitsCut_stops.andThen exponentCut_stops whole_exponentCut
  · simp only [hfirst, if_false]
    exact (digitsCut_stops.andThen fractionCut_stops whole_fractionCut).andThen exponentCut_stops
      whole_exponentCut

theorem numberCut_stops (first : Char) : Stops (numberCut first) := by
  intro t more
  fun_cases numberCut first t with
  | case1 hzero tail | case2 hzero tail =>
      intro h
      rw [List.cons_append, numberCut, if_pos hzero, span_stops (by decide) tail more h]
      rfl
  | case3 hzero tail | case4 hzero tail | case5 hzero tail | case6 hzero tail =>
      intro h
      rw [List.cons_append, numberCut, if_pos hzero, digitsCut_after _ h]
  | case7 _ hzero hx hX hb hB ho hO =>
      intro h
      have happart := h.whole
      rw [whole_decimalCut] at happart
      rw [numberCut, if_pos hzero, decimalCut_stops _ _ _ h]
      · exact happart.not_cons 'x' (by decide) hx
      · exact happart.not_cons 'X' (by decide) hX
      · exact happart.not_cons 'b' (by decide) hb
      · exact happart.not_cons 'B' (by decide) hB
      · exact happart.not_cons 'o' (by decide) ho
      · exact happart.not_cons 'O' (by decide) hO
  | case8 _ hzero =>
      intro h
      unfold numberCut
      rw [if_neg hzero]
      exact decimalCut_stops first t more h

/-- A string literal that is closed, or that stops in front of a line break, ends there
whatever comes behind. -/
theorem stringCut_append {quote : Char} (hquote : quote ≠ '\\') {t : Text}
    (h : (stringCut quote t).2 = true ∨ (stringCut quote t).1.back ≠ []) (more : Text) :
    stringCut quote (t ++ more) = ((stringCut quote t).1.before more, (stringCut quote t).2) := by
  fun_induction stringCut quote t with
  | case1 => exact (h.elim Bool.false_ne_true fun hne => hne rfl).elim
  | case2 tail cut closed hcut ih =>
      rw [hcut] at ih
      rw [List.cons_append, List.cons_append, List.cons_append, stringCut, ih h]
      rfl
  | case3 c tail hbreak cut closed hcut ih =>
      rw [hcut] at ih
      rw [List.cons_append, List.cons_append, stringCut, ih h]
      · rfl
      · rintro tail' rfl heq
        cases tail with
        | nil =>
            rw [stringCut, Prod.mk.injEq] at hcut
            rw [← hcut.1, ← hcut.2] at h
            exact h.elim Bool.false_ne_true fun hne => hne rfl
        | cons d tail => exact hbreak tail rfl (by rw [(List.cons.inj heq).1])
  | case4 c tail _ _ hbreak =>
      have hc : c ≠ '\\' := by
        rintro rfl
        exact absurd hbreak (by decide)
      rw [List.cons_append, stringCut, if_pos hbreak]
      · rfl
      · exact fun _ heq => absurd heq hc
      · exact fun _ _ heq => absurd heq hc
  | case5 tail _ _ hbreak =>
      rw [List.cons_append, stringCut, if_neg hbreak, if_pos rfl]
      · rfl
      · exact fun _ hc => absurd hc hquote
      · exact fun _ _ hc => absurd hc hquote
  | case6 c tail _ hescape hbreak hne cut closed hcut ih =>
      rw [hcut] at ih
      -- Behind a backslash at the end of the text no quote could have been found.
      have hc : c ≠ '\\' := by
        intro hc
        cases tail with
        | nil =>
            rw [stringCut, Prod.mk.injEq] at hcut
            rw [← hcut.1, ← hcut.2] at h
            exact h.elim Bool.false_ne_true fun hne => hne rfl
        | cons d tail => exact hescape d tail hc rfl
      rw [List.cons_append, stringCut, if_neg hbreak, if_neg hne, ih h]
      · rfl
      · exact fun _ heq => absurd heq hc
      · exact fun _ _ heq => absurd heq hc

/-- The lexeme with more text behind it. -/
def Lexeme.before (l : Lexeme) (t : Text) : Lexeme :=
  { l with cut := l.cut.before t }

theorem otherLexeme_append {first : Char} {t more : Text}
    (h : Apart (otherLexeme first t).cut.back more)
    (hclosed : (otherLexeme first t).complete = true ∨ (otherLexeme first t).cut.back ≠ []) :
    otherLexeme first (t ++ more) = (otherLexeme first t).before more := by
  unfold otherLexeme at h hclosed ⊢
  split
  · rename_i hquote
    rw [if_pos hquote] at hclosed
    have hne : first ≠ '\\' := by
      rcases hquote with rfl | rfl <;> decide
    rw [stringCut_append hne hclosed]
    rfl
  · rename_i hquote
    rw [if_neg hquote] at h
    split
    · rename_i hdigit
      rw [if_pos hdigit] at h
      rw [numberCut_stops _ _ _ h]
      rfl
    · rename_i hdigit
      rw [if_neg hdigit] at h
      split
      · rename_i hname
        rw [if_pos hname] at h
        simp only [wordLexeme] at h ⊢
        rw [span_stops (by decide) _ _ h]
        rfl
      · rfl

/-- A lexeme that is whole, or that something is left over behind, ends where it ends
whatever comes behind. -/
theorem lexeme_append {first : Char} {t more : Text} (h : Apart (lexeme first t).cut.back more)
    (hclosed : (lexeme first t).complete = true ∨ (lexeme first t).cut.back ≠ []) :
    lexeme first (t ++ more) = (lexeme first t).before more := by
  revert h hclosed
  fun_cases lexeme first t
  case case11 tail d hdigit =>
    intro h _
    rw [List.cons_append, lexeme, if_pos hdigit, ← List.cons_append, numberCut_stops _ _ _ h]
    rfl
  case case12 tail d hdigit =>
    intro _ _
    rw [List.cons_append, lexeme, if_neg hdigit]
    rfl
  case case13 =>
    intro h _
    obtain ⟨rest, rfl⟩ := h.resolve_left fun hne => hne rfl
    rfl
  case case15 _ hsecond | case18 _ hsecond =>
    intro h _
    rw [List.cons_append, lexeme]
    · rfl
    · exact h.not_cons '=' (by decide) hsecond
  case case16 _ hsecond | case19 _ hsecond =>
    intro h _
    have hnone := h.not_cons '=' (by decide) hsecond
    rw [lexeme]
    · rfl
    · exact fun _ => hnone _
    · exact hnone
  case case21 hsecond | case23 hsecond =>
    intro h _
    rw [lexeme]
    · rfl
    · exact h.not_cons '=' (by decide) hsecond
  case case31 hcons hnil _ _ _ _ _ _ hand hbar =>
    intro h hclosed
    have happart := h.whole
    rw [whole_otherLexeme] at happart
    rw [lexeme, otherLexeme_append h hclosed]
    case x_12 =>
      intro d tail hpoint _
      cases t with
      | nil => exact hnil hpoint rfl
      | cons c tail => exact hcons c tail hpoint rfl
    case x_13 =>
      intro hpoint _
      cases t with
      | nil => exact hnil hpoint rfl
      | cons c tail => exact hcons c tail hpoint rfl
    case x_29 =>
      exact fun tail hfirst => happart.not_cons '&' (by decide) (fun tail => hand tail hfirst) tail
    case x_30 =>
      exact fun tail hfirst => happart.not_cons '|' (by decide) (fun tail => hbar tail hfirst) tail
    all_goals first | assumption | exact fun _ hfirst _ => absurd hfirst ‹_›
  all_goals exact fun _ _ => rfl

/-! ## Pieces of trivia -/

/-- A piece of trivia has text. -/
theorem front_ne_nil_of_trivia? {t : Text} {kind : TriviaKind} {cut : Cut}
    (h : trivia? t = some (kind, cut)) : cut.front ≠ [] := by
  unfold trivia? at h
  split at h
  · cases h
  · cases h
    exact List.cons_ne_nil _ _
  · cases h
    have hslash : isLineBreak '/' = false := by decide
    simp [Cut.span, hslash]
  · split at h
    · cases h
      exact List.cons_ne_nil _ _
    · cases h
      exact List.cons_ne_nil _ _
  · split at h
    · cases h
      exact List.cons_ne_nil _ _
    · rename_i c tail _ _ _ hbreak
      split at h
      · rename_i hblank
        cases h
        simp [Cut.span, hblank, hbreak]
      · cases h

theorem length_back_lt_of_trivia? {t : Text} {kind : TriviaKind} {cut : Cut}
    (h : trivia? t = some (kind, cut)) : cut.back.length < t.length := by
  have hfront := List.length_pos_iff.mpr (front_ne_nil_of_trivia? h)
  rw [← whole_trivia? h, Cut.whole, List.length_append]
  omega

/-- A text starts with no trivia: neither with a blank nor like a comment. -/
theorem trivia?_cons_eq_none_iff {c : Char} {tail : Text} :
    trivia? (c :: tail) = none ↔
      isBlank c = false ∧ (∀ rest, c = '/' → tail = '/' :: rest → False) ∧
        ∀ rest, c = '/' → tail = '*' :: rest → False := by
  constructor
  · intro h
    unfold trivia? at h
    split at h
    · contradiction
    · cases h
    · cases h
    · split at h <;> cases h
    · rename_i hline hblock heq
      cases heq
      split at h
      · cases h
      · split at h
        · cases h
        · exact ⟨Bool.not_eq_true _ ▸ ‹_›, hline, hblock⟩
  · rintro ⟨hblank, hline, hblock⟩
    have hbreak : isLineBreak c = false := by
      cases hc : isLineBreak c with
      | false => rfl
      | true => exact absurd (isBlank_of_isLineBreak hc) (by rw [hblank]; decide)
    rw [trivia?]
    · simp [hbreak, hblank]
    · rintro _ rfl
      cases hbreak
    · exact hline
    · exact hblock

/-- More text that is apart does not make a text start with trivia. -/
theorem trivia?_append_none {c : Char} {tail more : Text} (h : trivia? (c :: tail) = none)
    (happart : Apart tail more) : trivia? (c :: tail ++ more) = none := by
  obtain ⟨hblank, hline, hblock⟩ := trivia?_cons_eq_none_iff.mp h
  refine trivia?_cons_eq_none_iff.mpr ⟨hblank, ?_, ?_⟩
  · exact fun rest hc => happart.not_cons '/' (by decide) (fun rest => hline rest hc) rest
  · exact fun rest hc => happart.not_cons '*' (by decide) (fun rest => hblock rest hc) rest

/-- The last line of the text is ended. -/
def EndsLine (t : Text) : Prop :=
  t.getLast? = some '\n'

theorem EndsLine.ne_nil {t : Text} (h : EndsLine t) : t ≠ [] := by
  rintro rfl
  cases h

theorem EndsLine.append {t : Text} (h : EndsLine t) (front : Text) : EndsLine (front ++ t) := by
  rw [EndsLine, List.getLast?_append, h]
  rfl

/-- What is left over of a text ends as the text does. -/
theorem EndsLine.back {cut : Cut} (h : EndsLine cut.whole) (hne : cut.back ≠ []) :
    EndsLine cut.back := by
  rw [EndsLine, Cut.whole, List.getLast?_append] at h
  cases hlast : cut.back.getLast? with
  | none => exact absurd (List.getLast?_eq_none_iff.mp hlast) hne
  | some c =>
      rw [hlast] at h
      rw [EndsLine, hlast]
      exact h

/-- A front without line breaks leaves something over. -/
theorem EndsLine.span_back {t : Text} (h : EndsLine t) {p : Char → Bool} (hp : p '\n' = false) :
    (Cut.span p t).back ≠ [] := by
  intro hnil
  have hwhole := Cut.whole_span p t
  rw [Cut.whole, hnil, List.append_nil] at hwhole
  have hall : ∀ c ∈ t, p c = true := by
    rw [← hwhole]
    exact fun c hc => List.all_eq_true.mp (List.all_takeWhile) c hc
  have hbreak := hall '\n' (List.mem_of_getLast? h)
  rw [hp] at hbreak
  cases hbreak

theorem closedCut?_append {t : Text} {cut : Cut} (h : closedCut? t = some cut) (more : Text) :
    closedCut? (t ++ more) = some (cut.before more) := by
  fun_induction closedCut? t generalizing cut with
  | case1 => cases h
  | case2 rest =>
      cases h
      rfl
  | case3 c rest hne ih =>
      obtain ⟨inner, hinner, rfl⟩ := Option.map_eq_some_iff.mp h
      rw [List.cons_append, closedCut?, ih hinner]
      · rfl
      · intro rest' hc heq
        cases rest with
        | nil => cases hinner
        | cons d tail => exact hne tail hc (by rw [(List.cons.inj heq).1])

/-- A closed comment ends with its last character. -/
theorem getLast?_closedCut? {t : Text} {cut : Cut} (h : closedCut? t = some cut) :
    cut.front.getLast? = some '/' := by
  fun_induction closedCut? t generalizing cut with
  | case1 => cases h
  | case2 rest =>
      cases h
      rfl
  | case3 c rest _ ih =>
      obtain ⟨inner, hinner, rfl⟩ := Option.map_eq_some_iff.mp h
      rw [Cut.after, List.getLast?_append, ih hinner]
      rfl

/-- In a text whose last line is ended, a piece of trivia ends where it ends whatever
comes behind, unless it is a comment that is not closed. -/
theorem trivia?_append {t : Text} (hends : EndsLine t) {kind : TriviaKind} {cut : Cut}
    (h : trivia? t = some (kind, cut)) (hkind : kind ≠ .skippedText) (more : Text) :
    trivia? (t ++ more) = some (kind, cut.before more) := by
  unfold trivia? at h
  split at h
  · cases h
  · cases h
    rfl
  · cases h
    rw [← span_append (.inl (hends.span_back rfl))]
    rfl
  · split at h
    · rename_i inner hinner
      cases h
      rw [List.cons_append, List.cons_append, trivia?, closedCut?_append hinner]
      rfl
    · cases h
      exact absurd rfl hkind
  · rename_i c rest hreturn hline hblock
    -- The first character is the last one only if it is the line break that ends the text.
    have hfirst (d : Char) (hd : d ≠ '\n') (tail : Text) (hc : c = d) (e : Char)
        (hnot : ∀ tail, rest = e :: tail → False) : rest ++ more ≠ e :: tail := by
      intro heq
      cases rest with
      | nil => exact hd (hc.symm.trans (Option.some.inj hends))
      | cons f tail => exact hnot tail (by rw [(List.cons.inj heq).1])
    rw [List.cons_append, trivia?]
    · split at h
      · rename_i hbreak
        cases h
        rw [if_pos hbreak]
        rfl
      · rename_i hbreak
        split at h
        · rename_i hblank
          cases h
          rw [if_neg hbreak, if_pos hblank, ← List.cons_append,
            span_append (.inl (hends.span_back (by decide)))]
        · cases h
    · exact fun tail hc => hfirst '\r' (by decide) tail hc '\n' fun tail => hreturn tail hc
    · exact fun tail hc => hfirst '/' (by decide) tail hc '/' fun tail => hline tail hc
    · exact fun tail hc => hfirst '/' (by decide) tail hc '*' fun tail => hblock tail hc

/-- In a text whose last line is ended, only a line break and a comment that is not
closed can come last. -/
theorem back_ne_nil_of_trivia? {t : Text} (hends : EndsLine t) {kind : TriviaKind} {cut : Cut}
    (h : trivia? t = some (kind, cut)) (hkind : kind ≠ .skippedText) (hbreak : kind ≠ .newline) :
    cut.back ≠ [] := by
  unfold trivia? at h
  split at h
  · cases h
  · cases h
    exact absurd rfl hbreak
  · cases h
    exact hends.span_back rfl
  · split at h
    · rename_i inner hinner
      cases h
      intro hback
      have hwhole := whole_closedCut? hinner
      have hlast := getLast?_closedCut? hinner
      rw [Cut.whole, show inner.back = [] from hback, List.append_nil] at hwhole
      rw [hwhole] at hlast
      rw [EndsLine, List.getLast?_cons, List.getLast?_cons, hlast] at hends
      cases hends
    · cases h
      exact absurd rfl hkind
  · split at h
    · cases h
      exact absurd rfl hbreak
    · split at h
      · cases h
        exact hends.span_back (by decide)
      · cases h

theorem EndsLine.trivia?_back {t : Text} (hends : EndsLine t) {kind : TriviaKind} {cut : Cut}
    (h : trivia? t = some (kind, cut)) (hne : cut.back ≠ []) : EndsLine cut.back := by
  rw [← whole_trivia? h] at hends
  exact hends.back hne

/-- A text whose last line is ended and that starts with no trivia does so with more text
behind. -/
theorem EndsLine.trivia?_eq_none {t : Text} (hends : EndsLine t) (h : trivia? t = none)
    (more : Text) : trivia? (t ++ more) = none := by
  cases t with
  | nil => exact absurd rfl hends.ne_nil
  | cons c tail =>
      refine trivia?_append_none h (.inl ?_)
      rintro rfl
      obtain rfl := Option.some.inj hends
      exact absurd (trivia?_cons_eq_none_iff.mp h).1 (by decide)

/-! ## Runs of trivia -/

/-- The run with more text behind it. -/
def Run.before (run : Run) (t : Text) : Run :=
  { run with cut := run.cut.before t }

theorem ne_nil_of_triviaRun {trailing : Bool} {budget offset : Nat} {t : Text}
    (h : (triviaRun trailing budget offset t).cut.back ≠ []) : t ≠ [] := by
  intro hnil
  have hwhole := whole_triviaRun trailing budget offset t
  rw [hnil] at hwhole h
  exact h (List.append_eq_nil_iff.mp hwhole).2

/-- In a text whose last line is ended, a run without a report ends where it ends
whatever comes behind, unless it is one in front of a token and takes the whole text. -/
theorem triviaRun_append {trailing : Bool} {budget budget' offset : Nat} {t : Text}
    (hends : EndsLine t) (hbudget : t.length ≤ budget) (hbudget' : t.length ≤ budget')
    (hsilent : (triviaRun trailing budget offset t).diagnostics = [])
    (hback : trailing = true ∨ (triviaRun trailing budget offset t).cut.back ≠ []) (more : Text) :
    triviaRun trailing budget' offset (t ++ more) =
      (triviaRun trailing budget offset t).before more := by
  induction budget generalizing budget' offset t with
  | zero => exact absurd (List.length_eq_zero_iff.mp (Nat.le_zero.mp hbudget)) hends.ne_nil
  | succ budget ih =>
      cases budget' with
      | zero => exact absurd (List.length_eq_zero_iff.mp (Nat.le_zero.mp hbudget')) hends.ne_nil
      | succ budget' =>
          rw [triviaRun] at hsilent hback ⊢
          rw [triviaRun]
          cases htrivia : trivia? t with
          | none =>
              rw [hends.trivia?_eq_none htrivia]
              rfl
          | some found =>
              obtain ⟨kind, cut⟩ := found
              simp only [htrivia] at hsilent hback ⊢
              have hkind : kind ≠ .skippedText := by
                rintro rfl
                simp at hsilent
              simp only [trivia?_append hends htrivia hkind more, hkind, if_false] at hsilent ⊢
              split at hsilent
              · rename_i hstop
                rw [if_pos hstop, if_pos hstop]
                rfl
              · rename_i hstop
                rw [if_neg hstop] at hback
                rw [if_neg hstop, if_neg hstop]
                have hlength := length_back_lt_of_trivia? htrivia
                have hne : cut.back ≠ [] := by
                  rcases hback with rfl | hback
                  · refine back_ne_nil_of_trivia? hends htrivia hkind ?_
                    rintro rfl
                    exact hstop rfl
                  · exact ne_nil_of_triviaRun hback
                have hrest : cut.back.length ≤ budget' := by omega
                rw [Cut.before, ih (hends.trivia?_back htrivia hne) (by omega) hrest hsilent hback]
                rfl

end Scan

end Verbatim
