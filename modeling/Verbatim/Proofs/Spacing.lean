/-
  Scanning tokens that are written with a blank behind each of them.

  No token but a string literal that is not closed goes on over a blank.  So the text of
  a token, followed by a blank, is cut where it would be cut if nothing followed it, and
  the blank is cut off as the trivia behind the token, because the next token does not
  start like trivia.  Tokens that are scanned as they stand on their own are thus scanned
  as they stand in a row with blanks between them.
-/
import Verbatim.Proofs.Lookahead
import Verbatim.Token

set_option autoImplicit false

namespace Verbatim

namespace Scan

open Text

/-! ## Trivia in front of and behind a token -/

/-- A run that takes nothing off has met no trivia. -/
theorem trivia?_eq_none_of_triviaRun {trailing : Bool} {offset : Nat} {t : Text}
    (h : (triviaRun trailing t.length offset t).cut.front = []) : trivia? t = none := by
  cases t with
  | nil => rfl
  | cons c tail =>
      cases htrivia : trivia? (c :: tail) with
      | none => rfl
      | some found =>
          have hfront := front_ne_nil_of_trivia? htrivia
          rw [List.length_cons, triviaRun, htrivia] at h
          dsimp only at h
          split at h
          · exact absurd h hfront
          · exact absurd (List.append_eq_nil_iff.mp h).1 hfront

/-- A blank in front of what starts with no trivia is a piece of its own. -/
theorem trivia?_blank {t : Text} (h : trivia? t = none) :
    trivia? (' ' :: t) = some (.whitespace, ⟨[' '], t⟩) := by
  have hspan : Cut.span (fun c => isBlank c && !isLineBreak c) (' ' :: t) = ⟨[' '], t⟩ := by
    have hspace : (isBlank ' ' && !isLineBreak ' ') = true := by decide
    cases t with
    | nil => simp [Cut.span, hspace]
    | cons c tail => simp [Cut.span, hspace, (trivia?_cons_eq_none_iff.mp h).1]
  rw [trivia?]
  · rw [hspan]
    rfl
  all_goals exact fun _ h => absurd h (by decide)

/-- The run behind a token that a blank is written behind. -/
theorem triviaRun_blank {t : Text} (h : trivia? t = none) (offset : Nat) :
    triviaRun true (' ' :: t).length offset (' ' :: t) =
      ⟨[⟨.whitespace, 1⟩], ⟨[' '], t⟩, []⟩ := by
  have hmore (budget offset : Nat) : triviaRun true budget offset t = ⟨[], .none t, []⟩ := by
    cases budget with
    | zero => rfl
    | succ budget => rw [triviaRun, h]
  rw [List.length_cons, triviaRun, trivia?_blank h]
  simp only [hmore]
  rfl

end Scan

/-! ## Tokens that are scanned on their own -/

/-- A token without trivia at an offset. -/
def ScannedToken.bare (kind : Kind) (text : Text) (offset : Nat) : ScannedToken :=
  ⟨.empty, kind, offset, offset + text.width, text, .empty⟩

/-- Scanned on its own, the text of the token is one token of its kind, and nothing is
reported. -/
def Token.ScansAlone (t : Token) : Prop :=
  scan t.text = .ok ⟨[.bare t.kind t.text 0, .bare .eof [] t.text.width], []⟩

instance (t : Token) : Decidable t.ScansAlone :=
  match h : scan t.text with
  | .ok scanned =>
      decidable_of_iff
        (scanned = ⟨[.bare t.kind t.text 0, .bare .eof [] t.text.width], []⟩)
        (by rw [Token.ScansAlone, h, Except.ok.injEq])
  | .error _ => isFalse (by rw [Token.ScansAlone, h]; nofun)

namespace Scanner

/-- Significant text that reaches to the end, without a problem, is one whole lexeme. -/
theorem lexeme_of_significant {start : Nat} {c : Char} {tail : Text} {kind : Kind} {cut : Cut}
    (h : significant start (c :: tail) = (kind, cut, [])) (hback : cut.back = []) :
    Scan.lexeme c tail = ⟨kind, ⟨tail, []⟩, true⟩ := by
  have hwhole := Scan.whole_lexeme c tail
  rw [significant] at h
  cases hfound : Scan.lexeme c tail with
  | mk foundKind found complete =>
      rw [hfound] at h hwhole
      simp only [Prod.mk.injEq] at h
      obtain ⟨rfl, rfl, hproblems⟩ := h
      cases complete with
      | false => cases hproblems
      | true =>
          obtain ⟨front, back⟩ := found
          cases hback
          have hfront : front = tail := by simpa [Cut.whole] using hwhole
          rw [hfront]

/-- What a step takes off behind the trivia in front of a token, and what it reports
about it. -/
theorem significant_of_next {s : Scanner} {step : ScanStep} {before : Scan.Run}
    (h : s.next = .ok step)
    (hbefore : Scan.triviaRun false s.rest.length s.offset s.rest = before) :
    ∃ cut problems,
      significant (s.offset + before.cut.front.width) before.cut.back =
        (step.token.kind, cut, problems) ∧
      cut.whole = before.cut.back ∧ step.token.text = cut.front ∧
      ∀ d ∈ problems, d ∈ step.diagnostics := by
  obtain ⟨kind, cut, problems, hfound, hwhole, _⟩ :=
    significant_spec (s.offset + before.cut.front.width) before.cut.back
  obtain ⟨leading, trailing, _, _, rfl⟩ := next_eq_ok_iff.mp h
  rw [anatomy_eq hbefore hfound]
  refine ⟨cut, problems, hfound, hwhole, rfl, fun d hd => ?_⟩
  exact List.mem_append_left _ (List.mem_append_right _ hd)

end Scanner

/-- The text of a token that is scanned on its own starts with no trivia, and is one
lexeme. -/
theorem Token.ScansAlone.exists_lexeme {t : Token} (h : t.ScansAlone) :
    ∃ c tail, t.text = c :: tail ∧ Scan.trivia? (c :: tail) = none ∧
      Scan.lexeme c tail = ⟨t.kind, ⟨tail, []⟩, true⟩ := by
  obtain ⟨step, _, hstep, htoken, _, hdiagnostics, _⟩ :=
    Scanner.exists_step_of_scanFrom h (List.cons_ne_nil _ _)
  have hwhole := Scan.whole_triviaRun false t.text.length 0 t.text
  cases hrun : Scan.triviaRun false t.text.length 0 t.text with
  | mk pieces before diagnostics =>
      obtain ⟨cut, problems, hsignificant, hcut, htext, hproblems⟩ :=
        Scanner.significant_of_next hstep hrun
      rw [hrun] at hwhole
      dsimp only [Scanner.start] at hsignificant hcut hwhole
      rw [htoken] at htext hsignificant
      rw [hdiagnostics] at hproblems
      -- The text of the token is the whole text, so there is none on its sides.
      have hlength := congrArg List.length hwhole
      have hlength' := congrArg List.length hcut
      have htextLength := congrArg List.length htext
      simp only [Cut.whole, List.length_append, ScannedToken.bare] at hlength hlength' htextLength
      have hfront : before.front = [] := List.length_eq_zero_iff.mp (by omega)
      have hback : cut.back = [] := List.length_eq_zero_iff.mp (by omega)
      have htrivia : Scan.trivia? t.text = none :=
        Scan.trivia?_eq_none_of_triviaRun (by rw [hrun]; exact hfront)
      have hrest : before.back = t.text := by rwa [Cut.whole, hfront] at hwhole
      have hnone : problems = [] :=
        List.eq_nil_iff_forall_not_mem.mpr fun d hd => List.not_mem_nil (hproblems d hd)
      rw [hrest, hnone] at hsignificant
      cases ht : t.text with
      | nil =>
          have hempty : scan [] = .ok ⟨[.bare .eof [] 0], []⟩ := rfl
          simp [Token.ScansAlone, ht, hempty] at h
      | cons c tail =>
          rw [ht] at htrivia hsignificant
          exact ⟨c, tail, rfl, htrivia, Scanner.lexeme_of_significant hsignificant hback⟩

/-! ## Tokens in a row -/

/-- The single blank that is written behind a token. -/
def TriviaList.blank : TriviaList :=
  .ofList [⟨.whitespace, [' ']⟩]

/-- A token with nothing in front of it and a blank behind it, whose text is scanned on
its own as the token. -/
structure Token.Spaced (t : Token) : Prop where
  leading : t.leading = .empty
  trailing : t.trailing = .blank
  scansAlone : t.ScansAlone

instance (t : Token) : Decidable t.Spaced :=
  decidable_of_iff (t.leading = .empty ∧ t.trailing = .blank ∧ t.ScansAlone)
    ⟨fun ⟨hleading, htrailing, hscans⟩ => ⟨hleading, htrailing, hscans⟩,
      fun h => ⟨h.leading, h.trailing, h.scansAlone⟩⟩

theorem Token.Spaced.fullText {t : Token} (h : t.Spaced) : t.fullText = t.text ++ [' '] := by
  rw [Token.fullText, h.leading, h.trailing]
  rfl

/-- The token as it is scanned at an offset. -/
def Token.scannedAt (t : Token) (offset : Nat) : ScannedToken :=
  ⟨t.leading, t.kind, offset, offset + t.text.width, t.text, t.trailing⟩

/-- The leaf of a scanned token. -/
def ScannedToken.leaf (t : ScannedToken) : Token :=
  .make t.kind t.text t.leading t.trailing

theorem Token.ScansAlone.isSignificant {t : Token} (h : t.ScansAlone) :
    t.kind.isSignificant = true := by
  obtain ⟨c, tail, _, _, hlexeme⟩ := h.exists_lexeme
  have hsignificant := Scan.lexeme_kind c tail
  rwa [hlexeme] at hsignificant

theorem Token.ScansAlone.kind_ne {t : Token} (h : t.ScansAlone) : t.kind ≠ .eof := by
  intro heof
  have hsignificant := h.isSignificant
  rw [heof] at hsignificant
  cases hsignificant

/-- A token that a blank is written behind is scanned in front of any text that starts
with no trivia. -/
theorem Token.Spaced.next_eq {t : Token} (h : t.Spaced) {rest : Text}
    (hrest : Scan.trivia? rest = none) (offset : Nat) :
    Scanner.next ⟨t.text ++ ' ' :: rest, offset⟩ =
      .ok ⟨t.scannedAt offset, [], ⟨rest, offset + t.text.width + 1⟩⟩ := by
  obtain ⟨c, tail, htext, htrivia, hlexeme⟩ := h.scansAlone.exists_lexeme
  have hbefore (budget : Nat) :
      Scan.triviaRun false budget offset (t.text ++ ' ' :: rest) =
        ⟨[], .none (t.text ++ ' ' :: rest), []⟩ := by
    have hnone : Scan.trivia? (t.text ++ ' ' :: rest) = none := by
      rw [htext]
      exact Scan.trivia?_append_none htrivia (.inr ⟨rest, rfl⟩)
    cases budget with
    | zero => rfl
    | succ budget => rw [Scan.triviaRun, hnone]
  have hsignificant : Scanner.significant (offset + 0) (t.text ++ ' ' :: rest) =
      (t.kind, ⟨t.text, ' ' :: rest⟩, []) := by
    rw [htext, List.cons_append, Scanner.significant,
      Scan.lexeme_append (.inr ⟨rest, rfl⟩) (.inl (by rw [hlexeme])), hlexeme]
    rfl
  unfold Scanner.next
  rw [scannedAt, h.leading, h.trailing]
  simp only [hbefore, Cut.none, Text.width_nil, hsignificant, if_neg h.scansAlone.kind_ne,
    Scan.triviaRun_blank hrest]
  rfl

/-- Tokens in a row start with no trivia. -/
theorem Scan.trivia?_fullText {tokens : List Token} (h : ∀ t ∈ tokens, t.Spaced) :
    trivia? (tokens.flatMap Token.fullText) = none := by
  cases tokens with
  | nil => rfl
  | cons t rest =>
      have ht := h t List.mem_cons_self
      obtain ⟨c, tail, htext, htrivia, _⟩ := ht.scansAlone.exists_lexeme
      rw [List.flatMap_cons, ht.fullText, htext, List.append_assoc]
      exact trivia?_append_none htrivia (.inr ⟨_, rfl⟩)

/-- Tokens in a row are scanned one by one, up to the end of the file. -/
theorem Scanner.scanFrom_spaced {tokens : List Token} (h : ∀ t ∈ tokens, t.Spaced) (offset : Nat)
    {budget : Nat} (hbudget : tokens.length < budget) :
    ∃ scanned, scanFrom budget ⟨tokens.flatMap Token.fullText, offset⟩ = .ok ⟨scanned, []⟩ ∧
      scanned.map ScannedToken.leaf =
        tokens.map (fun t => .make t.kind t.text t.leading t.trailing) ++
          [.make .eof [] .empty .empty] := by
  induction tokens generalizing offset budget with
  | nil =>
      cases budget with
      | zero => cases hbudget
      | succ budget => exact ⟨_, rfl, rfl⟩
  | cons t rest ih =>
      obtain ⟨ht, hrest⟩ := List.forall_mem_cons.mp h
      cases budget with
      | zero => cases hbudget
      | succ budget =>
          have hstep := ht.next_eq (Scan.trivia?_fullText hrest) offset
          obtain ⟨scanned, hscanned, hleaves⟩ :=
            ih hrest (offset + t.text.width + 1) (Nat.lt_of_succ_lt_succ hbudget)
          refine ⟨t.scannedAt offset :: scanned, ?_, ?_⟩
          · rw [List.flatMap_cons, ht.fullText, List.append_assoc, List.singleton_append, scanFrom,
              hstep]
            have hkind : (t.scannedAt offset).kind ≠ .eof := ht.scansAlone.kind_ne
            simp only [bind, Except.bind, if_neg hkind, hscanned]
            rfl
          · rw [List.map_cons, hleaves]
            rfl

end Verbatim
