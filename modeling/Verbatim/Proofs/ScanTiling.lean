/-
  Scanning covers the source.

  The scanner is total on every text that 32-bit offsets can count, and its tokens
  tile the text: each one starts where the one before it ends, trivia included,
  and together they spell the source.  The end of the file comes last and only
  there, and it is the only token without text.  What the scanner reports is one
  unterminated comment for each skipped piece, at the range of that piece, and
  otherwise unterminated string literals.
-/
import Verbatim.Proofs.TriviaRuns
import Verbatim.Scan.Basic

set_option autoImplicit false

namespace Verbatim

/-! ## Kinds of significant text -/

/-- Kinds of tokens that have text of their own. -/
def Kind.isSignificant (k : Kind) : Bool :=
  k.isToken && k != .eof

theorem Kind.isSignificant_of_isKeyword {k : Kind} (h : k.isKeyword = true) :
    k.isSignificant = true := by
  revert h
  cases k <;> decide

theorem Kind.isKeyword_of_ofKeyword? {word : Text} {k : Kind} (h : Kind.ofKeyword? word = some k) :
    k.isKeyword = true := by
  have hmem : k ∈ Kind.keywords := List.mem_of_find?_eq_some h
  exact (List.mem_filter.mp hmem).2

namespace Scan

theorem otherLexeme_kind (c : Char) (t : Text) : (otherLexeme c t).kind.isSignificant = true := by
  unfold otherLexeme
  split
  · rfl
  · split
    · rfl
    · split
      · simp only [wordLexeme]
        cases hword : Kind.ofKeyword? (c :: (Cut.span Text.isNamePart t).front) with
        | none => rfl
        | some k => exact Kind.isSignificant_of_isKeyword (Kind.isKeyword_of_ofKeyword? hword)
      · rfl

/-- Significant text is never the end of the file. -/
theorem lexeme_kind (c : Char) (t : Text) : (lexeme c t).kind.isSignificant = true := by
  have hother := otherLexeme_kind c t
  unfold lexeme
  -- Unfolding the other lexemes under `rfl` is slow, and only their kind matters here.
  generalize otherLexeme c t = other at *
  split
  case h_11 => split <;> rfl
  case h_30 => exact hother
  all_goals rfl

/-! ## Runs of trivia -/

/-- The report of a block comment that takes the rest of the text. -/
def unterminatedComment (range : Nat × Nat) : Diagnostic :=
  ⟨range.1, range.2, "unterminated comment"⟩

/-- A scanned run is the text and the pieces of some trivia, and reports its
skipped pieces and nothing else. -/
theorem triviaRun_spec (trailing : Bool) (budget offset : Nat) (t : Text) :
    ∃ items : List Trivia,
      (triviaRun trailing budget offset t).cut.front = items.flatMap Trivia.text ∧
      (triviaRun trailing budget offset t).pieces = items.map Trivia.piece ∧
      (triviaRun trailing budget offset t).diagnostics =
        (skippedRanges offset (items.map Trivia.piece)).map unterminatedComment := by
  fun_induction triviaRun trailing budget offset t with
  | case1 => exact ⟨[], rfl, rfl, rfl⟩
  | case2 => exact ⟨[], rfl, rfl, rfl⟩
  | case3 budget offset t kind cut _ stop piece problems hnewline =>
      refine ⟨[⟨kind, cut.front⟩], by simp, rfl, ?_⟩
      have hkind : kind ≠ .skippedText := by
        rintro rfl
        simp at hnewline
      simp [problems, skippedRanges, Trivia.piece, hkind]
  | case4 budget offset t kind cut _ stop piece problems _ more ih =>
      obtain ⟨items, hfront, hpieces, hdiagnostics⟩ := ih
      refine ⟨⟨kind, cut.front⟩ :: items, ?_, ?_, ?_⟩
      · simp [Cut.after, more, hfront]
      · simp [more, hpieces, piece, Trivia.piece, Trivia.width]
      · rw [List.map_cons, skippedRanges, List.map_append, hdiagnostics]
        by_cases hkind : kind = .skippedText <;>
          simp [problems, stop, hkind, Trivia.piece, Trivia.width, unterminatedComment]

end Scan

/-! ## Tokens that tile a text -/

namespace ScannedToken

/-- Text with the trivia on both sides. -/
def fullText (t : ScannedToken) : Text :=
  t.leading.text ++ t.text ++ t.trailing.text

/-- A token whose trivia is regular and whose range fits its text.  It lacks text at
the end of the file and only there, and nothing comes behind that. -/
structure WellFormed (t : ScannedToken) : Prop where
  leading : t.leading.Regular
  trailing : t.trailing.Regular
  isToken : t.kind.isToken = true
  stop_eq : t.stop = t.start + t.text.width
  text_eq_nil_iff : t.text = [] ↔ t.kind = .eof
  trailing_text_eof : t.kind = .eof → t.trailing.text = []

/-- Byte ranges of the skipped pieces around a token that starts at an offset. -/
def skippedRanges (offset : Nat) (t : ScannedToken) : List (Nat × Nat) :=
  Verbatim.skippedRanges offset t.leading.pieces ++
    Verbatim.skippedRanges (offset + t.leading.width + t.text.width) t.trailing.pieces

theorem width_fullText (t : ScannedToken) :
    t.fullText.width = t.leading.width + t.text.width + t.trailing.width := by
  simp [fullText, TriviaList.width, Nat.add_assoc]

end ScannedToken

/-- Well-formed tokens of which the first starts at an offset and each next one
where the one before it ends. -/
def Tiles : Nat → List ScannedToken → Prop
  | _, [] => True
  | offset, t :: rest =>
      t.WellFormed ∧ t.start = offset + t.leading.width ∧
        Tiles (offset + t.fullText.width) rest

/-- Byte ranges of the skipped pieces around tokens that start at an offset. -/
def scannedRanges : Nat → List ScannedToken → List (Nat × Nat)
  | _, [] => []
  | offset, t :: rest => t.skippedRanges offset ++ scannedRanges (offset + t.fullText.width) rest

theorem Tiles.wellFormed {offset : Nat} {tokens : List ScannedToken} (h : Tiles offset tokens) :
    ∀ t ∈ tokens, t.WellFormed := by
  induction tokens generalizing offset with
  | nil => exact List.forall_mem_nil _
  | cons t rest ih => exact List.forall_mem_cons.mpr ⟨h.1, ih h.2.2⟩

/-- The source has the text of a token, and the trivia on both sides, at their
ranges, and these start and end between characters. -/
structure ScannedToken.SliceOf (t : ScannedToken) (source : Text) : Prop where
  leading : source.slice? t.fullStart t.start = some t.leading.text
  text : source.slice? t.start t.stop = some t.text
  trailing : source.slice? t.stop t.fullStop = some t.trailing.text

/-- A token that stands behind some text is a slice of the whole. -/
theorem ScannedToken.WellFormed.sliceOf {t : ScannedToken} (h : t.WellFormed) {before : Text}
    (hstart : t.start = before.width + t.leading.width) (after : Text) :
    t.SliceOf (before ++ t.fullText ++ after) := by
  have hleading := Text.slice?_append before t.leading.text (t.text ++ t.trailing.text ++ after)
  have htext := Text.slice?_append (before ++ t.leading.text) t.text (t.trailing.text ++ after)
  have htrailing := Text.slice?_append (before ++ t.leading.text ++ t.text) t.trailing.text after
  have hwhole : before ++ t.fullText ++ after =
      before ++ (t.leading.text ++ (t.text ++ (t.trailing.text ++ after))) := by
    simp only [ScannedToken.fullText, List.append_assoc]
  simp only [List.append_assoc, Text.width_append, ← Nat.add_assoc] at hleading htext htrailing
  rw [hwhole]
  constructor
  · rw [ScannedToken.fullStart, hstart, Nat.add_sub_cancel]
    exact hleading
  · rw [h.stop_eq, hstart]
    exact htext
  · rw [ScannedToken.fullStop, h.stop_eq, hstart]
    exact htrailing

/-- Tiles are slices of the text that they spell. -/
theorem Tiles.sliceOf {tokens : List ScannedToken} {before : Text}
    (h : Tiles before.width tokens) :
    ∀ t ∈ tokens, t.SliceOf (before ++ tokens.flatMap ScannedToken.fullText) := by
  induction tokens generalizing before with
  | nil => exact List.forall_mem_nil _
  | cons head rest ih =>
      obtain ⟨hformed, hstart, htiles⟩ := h
      intro t ht
      rcases List.mem_cons.mp ht with rfl | ht
      · have hslice := hformed.sliceOf hstart (rest.flatMap ScannedToken.fullText)
        rwa [List.append_assoc, ← List.flatMap_cons] at hslice
      · have hnext : Tiles (before ++ head.fullText).width rest := by
          rwa [Text.width_append]
        have hslice := ih hnext t ht
        rwa [List.append_assoc, ← List.flatMap_cons] at hslice

/-! ## One token -/

/-- What one step of a scanner takes off the text, and what it reports. -/
structure Scanner.Takes (s : Scanner) (step : ScanStep) : Prop where
  formed : step.token.WellFormed
  start_eq : step.token.start = s.offset + step.token.leading.width
  rest_eq : s.rest = step.token.fullText ++ step.after.rest
  offset_eq : step.after.offset = s.offset + step.token.fullText.width
  done : step.token.kind = .eof → step.after.rest = []
  reports : ∃ strings : List Diagnostic,
    step.diagnostics.Perm
      ((step.token.skippedRanges s.offset).map Scan.unterminatedComment ++ strings) ∧
    ∀ d ∈ strings, d.message = "unterminated string literal"

namespace Scanner

/-- The significant text at a place is cut off the front.  It is empty only at the
end of the text, and only a string literal has a problem. -/
theorem significant_spec (start : Nat) (t : Text) :
    ∃ kind cut problems, significant start t = (kind, cut, problems) ∧
      cut.whole = t ∧ kind.isToken = true ∧ (cut.front = [] ↔ kind = .eof) ∧
      (kind = .eof → cut.back = []) ∧
      ∀ d ∈ problems, d.message = "unterminated string literal" := by
  cases t with
  | nil => exact ⟨_, _, _, rfl, rfl, rfl, by simp [Cut.none], fun _ => rfl, List.forall_mem_nil _⟩
  | cons c tail =>
      have hkind := Scan.lexeme_kind c tail
      simp only [Kind.isSignificant, Bool.and_eq_true, bne_iff_ne] at hkind
      obtain ⟨htoken, heof⟩ := hkind
      refine ⟨_, _, _, rfl, ?_, htoken, ?_, fun h => absurd h heof, ?_⟩
      · rw [Cut.whole_after, Scan.whole_lexeme, List.singleton_append]
      · simp [Cut.after, heof]
      · intro d hd
        split at hd
        · simp at hd
        · rw [List.mem_singleton.mp hd]

/-- The run behind the significant text.  Nothing stands behind the end of the file. -/
def behind (kind : Kind) (stop : Nat) (t : Text) : Scan.Run :=
  if kind = .eof then ⟨[], .none t, []⟩ else Scan.triviaRun true t.length stop t

theorem behind_spec (kind : Kind) (stop : Nat) (t : Text) :
    (behind kind stop t).cut.whole = t ∧
    ∃ items : List Trivia,
      (behind kind stop t).cut.front = items.flatMap Trivia.text ∧
      (behind kind stop t).pieces = items.map Trivia.piece ∧
      (behind kind stop t).diagnostics =
        (skippedRanges stop (items.map Trivia.piece)).map Scan.unterminatedComment := by
  unfold behind
  split
  · exact ⟨rfl, [], rfl, rfl, rfl⟩
  · exact ⟨Scan.whole_triviaRun .., Scan.triviaRun_spec ..⟩

/-- What a step cuts the text into: the trivia in front of the next token, the token with
the problems found in it, and the trivia behind it. -/
structure Anatomy where
  before : Scan.Run
  kind : Kind
  cut : Cut
  problems : List Diagnostic
  behind : Scan.Run

/-- The parts of the next token. -/
def anatomy (s : Scanner) : Anatomy :=
  let before := Scan.triviaRun false s.rest.length s.offset s.rest
  let start := s.offset + before.cut.front.width
  let found := significant start before.cut.back
  ⟨before, found.1, found.2.1, found.2.2,
    behind found.1 (start + found.2.1.front.width) found.2.1.back⟩

theorem anatomy_eq {s : Scanner} {before : Scan.Run} {kind : Kind} {cut : Cut}
    {problems : List Diagnostic}
    (hrun : Scan.triviaRun false s.rest.length s.offset s.rest = before)
    (hfound : significant (s.offset + before.cut.front.width) before.cut.back =
      (kind, cut, problems)) :
    s.anatomy = ⟨before, kind, cut, problems,
      behind kind (s.offset + before.cut.front.width + cut.front.width) cut.back⟩ := by
  simp only [anatomy, hrun, hfound]

/-- The step of which the trivia on both sides has been made. -/
def Anatomy.step (parts : Anatomy) (offset : Nat) (leading trailing : TriviaList) : ScanStep :=
  let start := offset + parts.before.cut.front.width
  let stop := start + parts.cut.front.width
  { token := ⟨leading, parts.kind, start, stop, parts.cut.front, trailing⟩
    diagnostics := parts.before.diagnostics ++ parts.problems ++ parts.behind.diagnostics
    after := ⟨parts.behind.cut.back, stop + parts.behind.cut.front.width⟩ }

/-- The runs of trivia are made from the parts, and a step of them. -/
theorem next_eq_anatomy (s : Scanner) :
    s.next = (do
      let leading ← TriviaList.ofPieces s.anatomy.before.cut.front s.anatomy.before.pieces
      let trailing ← TriviaList.ofPieces s.anatomy.behind.cut.front s.anatomy.behind.pieces
      return s.anatomy.step s.offset leading trailing) := rfl

/-- A step is put together from its parts, if the runs of trivia can be made. -/
theorem next_eq_ok_iff {s : Scanner} {step : ScanStep} :
    s.next = .ok step ↔
      ∃ leading trailing,
        TriviaList.ofPieces s.anatomy.before.cut.front s.anatomy.before.pieces = .ok leading ∧
        TriviaList.ofPieces s.anatomy.behind.cut.front s.anatomy.behind.pieces = .ok trailing ∧
        step = s.anatomy.step s.offset leading trailing := by
  rw [next_eq_anatomy]
  constructor
  · intro h
    cases hleading : TriviaList.ofPieces s.anatomy.before.cut.front s.anatomy.before.pieces with
    | error e =>
        rw [hleading] at h
        cases h
    | ok leading =>
        cases htrailing :
            TriviaList.ofPieces s.anatomy.behind.cut.front s.anatomy.behind.pieces with
        | error e =>
            rw [hleading, htrailing] at h
            cases h
        | ok trailing =>
            rw [hleading, htrailing] at h
            exact ⟨leading, trailing, rfl, rfl, (Except.ok.inj h).symm⟩
  · rintro ⟨leading, trailing, hleading, htrailing, rfl⟩
    rw [hleading, htrailing]
    rfl

/-- What holds of the parts of a step: they spell the text with what is left of it, the
runs are those of some trivia and report their skipped pieces, and only the end of the
file lacks text and leaves nothing. -/
structure Anatomy.Fits (parts : Anatomy) (s : Scanner) : Prop where
  spells : s.rest = parts.before.cut.front ++ (parts.cut.front ++
    (parts.behind.cut.front ++ parts.behind.cut.back))
  before : ∃ items : List Trivia,
    parts.before.cut.front = items.flatMap Trivia.text ∧
    parts.before.pieces = items.map Trivia.piece ∧
    parts.before.diagnostics =
      (skippedRanges s.offset (items.map Trivia.piece)).map Scan.unterminatedComment
  behind : ∃ items : List Trivia,
    parts.behind.cut.front = items.flatMap Trivia.text ∧
    parts.behind.pieces = items.map Trivia.piece ∧
    parts.behind.diagnostics =
      (skippedRanges (s.offset + parts.before.cut.front.width + parts.cut.front.width)
        (items.map Trivia.piece)).map Scan.unterminatedComment
  isToken : parts.kind.isToken = true
  front_eq_nil_iff : parts.cut.front = [] ↔ parts.kind = .eof
  done : parts.kind = .eof → parts.behind.cut.front = [] ∧ parts.behind.cut.back = []
  problems : ∀ d ∈ parts.problems, d.message = "unterminated string literal"

theorem anatomy_fits (s : Scanner) : s.anatomy.Fits s := by
  have hbefore := Scan.whole_triviaRun false s.rest.length s.offset s.rest
  have hitems := Scan.triviaRun_spec false s.rest.length s.offset s.rest
  unfold anatomy
  generalize Scan.triviaRun false s.rest.length s.offset s.rest = before at *
  obtain ⟨kind, cut, problems, hsignificant, hcut, htoken, hempty, hdone, hproblems⟩ :=
    significant_spec (s.offset + before.cut.front.width) before.cut.back
  obtain ⟨hbehind, hitems'⟩ :=
    behind_spec kind (s.offset + before.cut.front.width + cut.front.width) cut.back
  simp only [hsignificant]
  generalize behind kind (s.offset + before.cut.front.width + cut.front.width) cut.back = run at *
  refine ⟨?_, hitems, hitems', htoken, hempty, fun hkind => ?_, hproblems⟩
  · rw [← hbefore, Cut.whole, ← hcut, Cut.whole, ← hbehind, Cut.whole]
  · rw [hdone hkind] at hbehind
    exact List.append_eq_nil_iff.mp hbehind

/-- A step takes one well-formed token off the front of the text. -/
theorem takes_of_next {s : Scanner} {step : ScanStep} (h : s.next = .ok step) : s.Takes step := by
  obtain ⟨leading, trailing, hleading, htrailing, rfl⟩ := next_eq_ok_iff.mp h
  have hfits := s.anatomy_fits
  obtain ⟨items, hfront, hpieces, hreports⟩ := hfits.before
  obtain ⟨items', hfront', hpieces', hreports'⟩ := hfits.behind
  obtain rfl : leading = .ofList items := TriviaList.eq_ofList_of_ofPieces hleading hfront hpieces
  obtain rfl : trailing = .ofList items' :=
    TriviaList.eq_ofList_of_ofPieces htrailing hfront' hpieces'
  have hleadingText : s.anatomy.before.cut.front = (TriviaList.ofList items).text := by
    rw [hfront, TriviaList.ofList_text]
  have htrailingText : s.anatomy.behind.cut.front = (TriviaList.ofList items').text := by
    rw [hfront', TriviaList.ofList_text]
  constructor
  case formed =>
    exact ⟨TriviaList.regular_ofList _, TriviaList.regular_ofList _, hfits.isToken, rfl,
      hfits.front_eq_nil_iff, fun hkind => htrailingText.symm.trans (hfits.done hkind).1⟩
  case start_eq => simp only [Anatomy.step, TriviaList.width, hleadingText]
  case rest_eq =>
    rw [hfits.spells, hleadingText, htrailingText]
    simp only [Anatomy.step, ScannedToken.fullText, List.append_assoc]
  case offset_eq =>
    simp only [ScannedToken.width_fullText, TriviaList.width, Anatomy.step]
    rw [← hleadingText, ← htrailingText]
    omega
  case done => exact fun hkind => (hfits.done hkind).2
  case reports =>
    refine ⟨s.anatomy.problems, ?_, hfits.problems⟩
    simp only [Anatomy.step, ScannedToken.skippedRanges, TriviaList.ofList_pieces, hreports,
      hreports', List.map_append, List.append_assoc]
    rw [TriviaList.width, ← hleadingText]
    exact List.Perm.append_left _ List.perm_append_comm

/-- Every step takes one well-formed token off the front of the text. -/
theorem next_takes (s : Scanner) (h : s.rest.width < Offset.limit) :
    ∃ step, s.next = .ok step ∧ s.Takes step := by
  have hfits := s.anatomy_fits
  obtain ⟨items, hfront, hpieces, _⟩ := hfits.before
  obtain ⟨items', hfront', hpieces', _⟩ := hfits.behind
  -- The three cuts together spell the text, so each of them is short enough.
  have hwidth := congrArg Text.width hfits.spells
  simp only [Text.width_append] at hwidth
  have hleading : TriviaList.ofPieces s.anatomy.before.cut.front s.anatomy.before.pieces =
      .ok (.ofList items) := by
    rw [hpieces, hfront]
    exact TriviaList.ofPieces_map_piece items (by rw [← hfront]; omega)
  have htrailing : TriviaList.ofPieces s.anatomy.behind.cut.front s.anatomy.behind.pieces =
      .ok (.ofList items') := by
    rw [hpieces', hfront']
    exact TriviaList.ofPieces_map_piece items' (by rw [← hfront']; omega)
  have hnext := next_eq_ok_iff.mpr ⟨_, _, hleading, htrailing, rfl⟩
  exact ⟨_, hnext, takes_of_next hnext⟩

/-! ## Whole texts -/

/-- A scan of a text that starts at an offset: tokens up to the end of the file that
tile the text, and the reports. -/
structure Covers (offset : Nat) (t : Text) (scanned : Scan) : Prop where
  ends : ∃ front last, scanned.tokens = front ++ [last] ∧ last.kind = .eof ∧
    ∀ token ∈ front, token.kind ≠ .eof
  tiles : Tiles offset scanned.tokens
  spells : scanned.tokens.flatMap ScannedToken.fullText = t
  reports : ∃ strings : List Diagnostic,
    scanned.diagnostics.Perm
      ((scannedRanges offset scanned.tokens).map Scan.unterminatedComment ++ strings) ∧
    ∀ d ∈ strings, d.message = "unterminated string literal"

/-- The token at the end of the file covers what is left of the text. -/
theorem Takes.covers_of_eof {s : Scanner} {step : ScanStep} (h : s.Takes step)
    (heof : step.token.kind = .eof) :
    Covers s.offset s.rest ⟨[step.token], step.diagnostics⟩ := by
  constructor
  case ends => exact ⟨[], step.token, rfl, heof, List.forall_mem_nil _⟩
  case tiles => exact ⟨h.formed, h.start_eq, trivial⟩
  case spells => simp [h.rest_eq, h.done heof]
  case reports =>
    obtain ⟨strings, hperm, hstrings⟩ := h.reports
    exact ⟨strings, by simpa [scannedRanges] using hperm, hstrings⟩

/-- A token in front of a scan of the text behind it. -/
theorem Takes.covers_cons {s : Scanner} {step : ScanStep} (h : s.Takes step)
    (heof : step.token.kind ≠ .eof) {more : Scan}
    (hmore : Covers step.after.offset step.after.rest more) :
    Covers s.offset s.rest
      ⟨step.token :: more.tokens, step.diagnostics ++ more.diagnostics⟩ := by
  constructor
  case ends =>
    obtain ⟨front, last, htokens, hlast, hfront⟩ := hmore.ends
    exact ⟨step.token :: front, last, by simp [htokens], hlast,
      List.forall_mem_cons.mpr ⟨heof, hfront⟩⟩
  case tiles => exact ⟨h.formed, h.start_eq, h.offset_eq ▸ hmore.tiles⟩
  case spells => rw [List.flatMap_cons, hmore.spells, h.rest_eq]
  case reports =>
    obtain ⟨strings, hperm, hstrings⟩ := h.reports
    obtain ⟨strings', hperm', hstrings'⟩ := hmore.reports
    refine ⟨strings ++ strings', ?_, ?_⟩
    · refine (hperm.append hperm').trans ?_
      rw [scannedRanges, ← h.offset_eq, List.map_append, List.append_assoc, List.append_assoc]
      refine List.Perm.append_left _ ?_
      rw [← List.append_assoc, ← List.append_assoc]
      exact List.Perm.append_right _ List.perm_append_comm
    · intro d hd
      rcases List.mem_append.mp hd with hd | hd
      · exact hstrings d hd
      · exact hstrings' d hd

/-- A scan is a step, and behind every other token than the end of the file a scan of
what is left. -/
theorem exists_of_scanFrom {budget : Nat} {place : Scanner} {scanned : Scan}
    (h : scanFrom (budget + 1) place = .ok scanned) :
    ∃ step, place.next = .ok step ∧
      ((step.token.kind = .eof ∧ scanned = ⟨[step.token], step.diagnostics⟩) ∨
        (step.token.kind ≠ .eof ∧ ∃ more, scanFrom budget step.after = .ok more ∧
          scanned = ⟨step.token :: more.tokens, step.diagnostics ++ more.diagnostics⟩)) := by
  rw [scanFrom] at h
  cases hstep : place.next with
  | error e =>
      rw [hstep] at h
      cases h
  | ok step =>
      rw [hstep] at h
      simp only [bind, Except.bind] at h
      refine ⟨step, rfl, ?_⟩
      split at h
      · rename_i heof
        exact .inl ⟨heof, (Except.ok.inj h).symm⟩
      · rename_i heof
        cases hmore : scanFrom budget step.after with
        | error e =>
            rw [hmore] at h
            cases h
        | ok more =>
            rw [hmore] at h
            exact .inr ⟨heof, more, rfl, (Except.ok.inj h).symm⟩

/-- A scan without a report of a token that is not the last one. -/
theorem exists_step_of_scanFrom {budget : Nat} {place : Scanner} {token : ScannedToken}
    {tokens : List ScannedToken} (h : scanFrom budget place = .ok ⟨token :: tokens, []⟩)
    (hne : tokens ≠ []) :
    ∃ step budget', place.next = .ok step ∧ step.token = token ∧ token.kind ≠ .eof ∧
      step.diagnostics = [] ∧ scanFrom budget' step.after = .ok ⟨tokens, []⟩ := by
  cases budget with
  | zero => cases h
  | succ budget =>
      obtain ⟨step, hstep, ⟨_, hone⟩ | ⟨heof, more, hmore, htokens⟩⟩ := exists_of_scanFrom h
      · simp only [Scan.mk.injEq, List.cons.injEq] at hone
        exact absurd hone.1.2 hne
      · obtain ⟨more, reports⟩ := more
        simp only [Scan.mk.injEq, List.cons.injEq] at htokens
        obtain ⟨⟨rfl, rfl⟩, hnone⟩ := htokens
        obtain ⟨hsilent, rfl⟩ := List.append_eq_nil_iff.mp hnone.symm
        exact ⟨step, budget, hstep, rfl, heof, hsilent, hmore⟩

/-- Tokens that are scanned up to the end of the file cover the text. -/
theorem covers_of_scanFrom {budget : Nat} {place : Scanner} {scanned : Scan}
    (h : scanFrom budget place = .ok scanned) : Covers place.offset place.rest scanned := by
  induction budget generalizing place scanned with
  | zero => cases h
  | succ budget ih =>
      obtain ⟨step, hstep, ⟨heof, rfl⟩ | ⟨heof, more, hmore, rfl⟩⟩ := exists_of_scanFrom h
      · exact (takes_of_next hstep).covers_of_eof heof
      · exact (takes_of_next hstep).covers_cons heof (ih hmore)

/-- A budget larger than the number of characters lasts to the end of the file. -/
theorem exists_scanFrom (budget : Nat) (s : Scanner) (hbudget : s.rest.length < budget)
    (hwidth : s.rest.width < Offset.limit) : ∃ scanned, scanFrom budget s = .ok scanned := by
  induction budget generalizing s with
  | zero => omega
  | succ budget ih =>
      obtain ⟨step, hstep, htakes⟩ := next_takes s hwidth
      unfold scanFrom
      rw [hstep]
      by_cases heof : step.token.kind = .eof
      · refine ⟨⟨[step.token], step.diagnostics⟩, ?_⟩
        simp only [bind, Except.bind, if_pos heof]
        rfl
      · -- A token with text leaves a shorter rest.
        have htext : step.token.text ≠ [] :=
          fun hnil => heof (htakes.formed.text_eq_nil_iff.mp hnil)
        have hlength := congrArg List.length htakes.rest_eq
        have hrest := congrArg Text.width htakes.rest_eq
        have hpos := List.length_pos_iff.mpr htext
        simp only [ScannedToken.fullText, List.length_append] at hlength
        rw [Text.width_append] at hrest
        obtain ⟨more, hmore⟩ := ih step.after (by omega) (by omega)
        refine ⟨⟨step.token :: more.tokens, step.diagnostics ++ more.diagnostics⟩, ?_⟩
        simp only [bind, Except.bind, if_neg heof, hmore]
        rfl

theorem scanFrom_covers (budget : Nat) (s : Scanner) (hbudget : s.rest.length < budget)
    (hwidth : s.rest.width < Offset.limit) :
    ∃ scanned, scanFrom budget s = .ok scanned ∧ Covers s.offset s.rest scanned := by
  obtain ⟨scanned, hscan⟩ := exists_scanFrom budget s hbudget hwidth
  exact ⟨scanned, hscan, covers_of_scanFrom hscan⟩

end Scanner

/-- Scanning is total on texts that offsets can count, and covers them. -/
theorem scan_covers (source : Text) (h : source.width < Offset.limit) :
    ∃ scanned, scan source = .ok scanned ∧ Scanner.Covers 0 source scanned :=
  Scanner.scanFrom_covers (source.length + 1) (.start source) (Nat.lt_succ_self _) h

end Verbatim
