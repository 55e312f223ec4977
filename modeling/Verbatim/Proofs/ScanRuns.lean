/-
  A scan as a run of steps.

  A step cuts pieces of trivia off a text until no trivia starts there, then the text of
  a token, and then pieces of trivia up to and including the first line break.  Each piece
  is cut off what the pieces before it leave.  All that is known about a step is said once,
  in `Scanner.Parts`.  A scan is a run of steps up to the end of the file, and what every
  step keeps up holds at every place of the run.
-/
import Verbatim.Proofs.LexicalForm

set_option autoImplicit false

namespace Verbatim

namespace Scan

/-! ## Pieces of trivia -/

/-- Pieces of trivia, each cut off the front of what the pieces before it leave of a
text. -/
inductive Peels : Text → List Trivia → Text → Prop where
  | nil (t : Text) : Peels t [] t
  | cons {t rest : Text} {kind : TriviaKind} {cut : Cut} {items : List Trivia} :
      trivia? t = some (kind, cut) → Peels cut.back items rest →
        Peels t (⟨kind, cut.front⟩ :: items) rest

/-- A run of trivia ends where no trivia starts, or, behind a token, with the first line
break. -/
inductive RunEnds (trailing : Bool) (items : List Trivia) (rest : Text) : Prop where
  | stopped : trivia? rest = none → (trailing = true → ∀ p ∈ items, p.kind ≠ .newline) →
      RunEnds trailing items rest
  | broken {front : List Trivia} {last : Trivia} : trailing = true → items = front ++ [last] →
      last.kind = .newline → (∀ p ∈ front, p.kind ≠ .newline) → RunEnds trailing items rest

variable {t middle rest : Text} {items xs ys : List Trivia} {p : Trivia}

theorem Peels.append (h : Peels t xs middle) (h' : Peels middle ys rest) :
    Peels t (xs ++ ys) rest := by
  induction h with
  | nil => exact h'
  | cons htrivia _ ih => exact .cons htrivia (ih h')

theorem Peels.of_append (h : Peels t (xs ++ ys) rest) :
    ∃ middle, Peels t xs middle ∧ Peels middle ys rest := by
  induction xs generalizing t with
  | nil => exact ⟨t, .nil t, h⟩
  | cons p xs ih =>
      cases h with
      | cons htrivia hrest =>
          obtain ⟨middle, hxs, hys⟩ := ih hrest
          exact ⟨middle, .cons htrivia hxs, hys⟩

theorem Peels.of_cons (h : Peels t (p :: items) rest) :
    ∃ back, trivia? t = some (p.kind, ⟨p.text, back⟩) ∧ t = p.text ++ back ∧
      Peels back items rest := by
  cases h with
  | cons htrivia hrest => exact ⟨_, htrivia, (whole_trivia? htrivia).symm, hrest⟩

theorem Peels.spells (h : Peels t items rest) : t = items.flatMap Trivia.text ++ rest := by
  induction h with
  | nil => rfl
  | cons htrivia _ ih =>
      rw [List.flatMap_cons, List.append_assoc, ← ih]
      exact (whole_trivia? htrivia).symm

/-- Where no trivia starts, there are no pieces. -/
theorem Peels.eq_nil (h : Peels t items rest) (hnone : trivia? t = none) : items = [] := by
  cases h with
  | nil => rfl
  | cons htrivia _ =>
      rw [hnone] at htrivia
      cases htrivia

/-- A run goes on as long as its budget lasts, and the number of characters is enough. -/
theorem exists_peels (trailing : Bool) (budget offset : Nat) (t : Text) (h : t.length ≤ budget) :
    ∃ items,
      Peels t items (triviaRun trailing budget offset t).cut.back ∧
      (triviaRun trailing budget offset t).cut.front = items.flatMap Trivia.text ∧
      (triviaRun trailing budget offset t).pieces = items.map Trivia.piece ∧
      RunEnds trailing items (triviaRun trailing budget offset t).cut.back := by
  fun_induction triviaRun trailing budget offset t with
  | case1 offset t =>
      obtain rfl := List.length_eq_zero_iff.mp (Nat.le_zero.mp h)
      exact ⟨[], .nil [], rfl, rfl, .stopped rfl fun _ => List.forall_mem_nil _⟩
  | case2 budget offset t hnone =>
      exact ⟨[], .nil t, rfl, rfl, .stopped hnone fun _ => List.forall_mem_nil _⟩
  | case3 budget offset t kind cut htrivia _ piece _ hstop =>
      simp only [Bool.and_eq_true, beq_iff_eq] at hstop
      obtain ⟨htrailing, rfl⟩ := hstop
      refine ⟨[⟨.newline, cut.front⟩], .cons htrivia (.nil _), by simp, rfl, ?_⟩
      exact .broken htrailing (List.nil_append _).symm rfl (List.forall_mem_nil _)
  | case4 budget offset t kind cut htrivia _ piece _ hstop more ih =>
      have hlength := length_back_lt_of_trivia? htrivia
      obtain ⟨items, hpeels, hfront, hpieces, hends⟩ := ih (by omega)
      have hkind : trailing = true → (Trivia.mk kind cut.front).kind ≠ .newline :=
        fun htrailing hkind => hstop (by simp [htrailing, show kind = .newline from hkind])
      refine ⟨⟨kind, cut.front⟩ :: items, .cons htrivia hpeels, ?_, ?_, ?_⟩
      · rw [List.flatMap_cons, ← hfront]
        rfl
      · rw [List.map_cons, ← hpieces]
        rfl
      · cases hends with
        | stopped hnone hnewline =>
            exact .stopped hnone fun htrailing =>
              List.forall_mem_cons.mpr ⟨hkind htrailing, hnewline htrailing⟩
        | broken htrailing hitems hlast hnewline =>
            refine .broken htrailing ?_ hlast
              (List.forall_mem_cons.mpr ⟨hkind htrailing, hnewline⟩)
            rw [hitems]
            rfl

end Scan

/-! ## The parts of a step -/

namespace ScannedToken

/-- A string literal without its closing quote. -/
def isOpenString (t : ScannedToken) : Bool :=
  t.kind == .stringLiteral && !isClosed t.text

/-- The report of a string literal without its closing quote. -/
def unterminatedString (t : ScannedToken) : Diagnostic :=
  ⟨t.start, t.stop, "unterminated string literal"⟩

end ScannedToken

/-- A filter for the message that all reports have keeps them. -/
theorem filter_message_eq {α : Type} {message : String} (f : α → Diagnostic)
    (hf : ∀ a, (f a).message = message) (items : List α) :
    (items.map f).filter (fun d => d.message == message) = items.map f :=
  List.filter_eq_self.mpr (List.forall_mem_map.mpr fun a _ => by simp [hf a])

/-- A filter for another message keeps none of them. -/
theorem filter_message_ne {α : Type} {message : String} (f : α → Diagnostic)
    (hf : ∀ a, (f a).message ≠ message) (items : List α) :
    (items.map f).filter (fun d => d.message == message) = [] :=
  List.filter_eq_nil_iff.mpr (List.forall_mem_map.mpr fun a _ => by simp [hf a])

/-- The text behind the significant text of a token. -/
def ScanStep.behind (step : ScanStep) : Text :=
  step.token.trailing.text ++ step.after.rest

/-- What a step takes off a text, and what it reports: a comment that does not end and a
string that is not closed, in the order of the text. -/
structure Scanner.Parts (s : Scanner) (step : ScanStep) : Prop where
  takes : s.Takes step
  leading : Scan.Peels s.rest step.token.leading.toList (step.token.text ++ step.behind)
  leading_ends : Scan.trivia? (step.token.text ++ step.behind) = none
  form : LexicalForm step.token.kind step.token.text step.behind
  trailing : Scan.Peels step.behind step.token.trailing.toList step.after.rest
  trailing_ends : Scan.RunEnds true step.token.trailing.toList step.after.rest
  reports : step.diagnostics =
    (skippedRanges s.offset step.token.leading.pieces).map Scan.unterminatedComment ++
      ([step.token].filter ScannedToken.isOpenString).map ScannedToken.unterminatedString ++
      (skippedRanges step.token.stop step.token.trailing.pieces).map Scan.unterminatedComment

namespace Scanner

/-- Significant text where no trivia starts fits its kind, and is reported if it is a
string that is not closed. -/
theorem significant_form (start : Nat) {t : Text} (h : Scan.trivia? t = none)
    (leading trailing : TriviaList) :
    LexicalForm (significant start t).1 (significant start t).2.1.front
        (significant start t).2.1.back ∧
      (significant start t).2.2 =
        ([ScannedToken.mk leading (significant start t).1 start
          (start + (significant start t).2.1.front.width) (significant start t).2.1.front
          trailing].filter ScannedToken.isOpenString).map ScannedToken.unterminatedString := by
  cases t with
  | nil =>
      exact ⟨⟨nofun, nofun, fun hkind => hkind.elim nofun nofun, nofun, nofun, nofun,
        fun _ => ⟨rfl, rfl⟩⟩, rfl⟩
  | cons c tail =>
      obtain ⟨hform, hcomplete⟩ := Scan.lexicalForm_lexeme h
      refine ⟨hform, ?_⟩
      simp only [significant]
      generalize Scan.lexeme c tail = found at *
      have hopen : (ScannedToken.mk leading found.kind start
          (start + (found.cut.after [c]).front.width) (found.cut.after [c]).front
          trailing).isOpenString = !found.complete := by
        rw [Bool.eq_iff_iff]
        simpa [ScannedToken.isOpenString, Cut.after] using hcomplete.symm
      cases hwhole : found.complete <;>
        simp [hopen, hwhole, ScannedToken.unterminatedString]

variable (s : Scanner)

/-- The trivia in front of the next token goes on until no trivia starts. -/
theorem anatomy_before :
    ∃ items,
      Scan.Peels s.rest items s.anatomy.before.cut.back ∧
      s.anatomy.before.cut.front = items.flatMap Trivia.text ∧
      s.anatomy.before.pieces = items.map Trivia.piece ∧
      Scan.trivia? s.anatomy.before.cut.back = none := by
  obtain ⟨items, hpeels, hfront, hpieces, hends⟩ :=
    Scan.exists_peels false s.rest.length s.offset s.rest (Nat.le_refl _)
  refine ⟨items, hpeels, hfront, hpieces, ?_⟩
  cases hends with
  | stopped hnone _ => exact hnone
  | broken htrailing => cases htrailing

/-- The next token fits its kind. -/
theorem anatomy_form (leading trailing : TriviaList) :
    LexicalForm s.anatomy.kind s.anatomy.cut.front s.anatomy.cut.back ∧
      s.anatomy.problems = ([(s.anatomy.step s.offset leading trailing).token].filter
        ScannedToken.isOpenString).map ScannedToken.unterminatedString := by
  obtain ⟨_, _, _, _, hnone⟩ := s.anatomy_before
  exact significant_form _ hnone leading trailing

/-- The trivia behind the next token goes on until a line ends or no trivia starts. -/
theorem anatomy_behind :
    ∃ items,
      Scan.Peels s.anatomy.cut.back items s.anatomy.behind.cut.back ∧
      s.anatomy.behind.cut.front = items.flatMap Trivia.text ∧
      s.anatomy.behind.pieces = items.map Trivia.piece ∧
      Scan.RunEnds true items s.anatomy.behind.cut.back := by
  have hform := (s.anatomy_form .empty .empty).1
  have hbehind : s.anatomy.behind = behind s.anatomy.kind
    (s.offset + s.anatomy.before.cut.front.width + s.anatomy.cut.front.width)
    s.anatomy.cut.back := rfl
  rw [hbehind, behind]
  split
  · rename_i hkind
    rw [(hform.eof hkind).2]
    exact ⟨[], .nil [], rfl, rfl, .stopped rfl fun _ => List.forall_mem_nil _⟩
  · exact Scan.exists_peels true _ _ _ (Nat.le_refl _)

/-- Both runs of trivia report their skipped pieces. -/
theorem anatomy_reports :
    s.anatomy.before.diagnostics =
        (skippedRanges s.offset s.anatomy.before.pieces).map Scan.unterminatedComment ∧
      s.anatomy.behind.diagnostics =
        (skippedRanges (s.offset + s.anatomy.before.cut.front.width + s.anatomy.cut.front.width)
          s.anatomy.behind.pieces).map Scan.unterminatedComment := by
  obtain ⟨items, _, hpieces, hreports⟩ := s.anatomy_fits.before
  obtain ⟨items', _, hpieces', hreports'⟩ := s.anatomy_fits.behind
  rw [hreports, hreports', hpieces, hpieces']
  exact ⟨rfl, rfl⟩

variable {s}

/-- All that is known about a step. -/
theorem parts_of_next {step : ScanStep} (h : s.next = .ok step) : s.Parts step := by
  have htakes := takes_of_next h
  obtain ⟨leading, trailing, hleading, htrailing, rfl⟩ := next_eq_ok_iff.mp h
  obtain ⟨items, hpeels, hfront, hpieces, hnone⟩ := s.anatomy_before
  obtain ⟨items', hpeels', hfront', hpieces', hends⟩ := s.anatomy_behind
  obtain ⟨hform, hproblems⟩ := s.anatomy_form leading trailing
  obtain ⟨hreports, hreports'⟩ := s.anatomy_reports
  obtain rfl : leading = .ofList items := TriviaList.eq_ofList_of_ofPieces hleading hfront hpieces
  obtain rfl : trailing = .ofList items' :=
    TriviaList.eq_ofList_of_ofPieces htrailing hfront' hpieces'
  have hbehind : s.anatomy.cut.back =
      (s.anatomy.step s.offset (.ofList items) (.ofList items')).behind := by
    rw [hpeels'.spells, ← TriviaList.ofList_text]
    rfl
  have hrest : s.anatomy.before.cut.back = s.anatomy.cut.front ++
      (s.anatomy.step s.offset (.ofList items) (.ofList items')).behind := by
    have hspells := s.anatomy_fits.spells
    rw [hfront', ← hpeels'.spells, hbehind, hpeels.spells, hfront] at hspells
    exact List.append_cancel_left hspells
  rw [hrest] at hpeels hnone
  rw [hbehind] at hform hpeels'
  constructor
  case takes => exact htakes
  case leading => exact (TriviaList.toList_ofList items).symm ▸ hpeels
  case leading_ends => exact hnone
  case form => exact hform
  case trailing => exact (TriviaList.toList_ofList items').symm ▸ hpeels'
  case trailing_ends => exact (TriviaList.toList_ofList items').symm ▸ hends
  case reports =>
    rw [hpieces, ← TriviaList.ofList_pieces] at hreports
    rw [hpieces', ← TriviaList.ofList_pieces] at hreports'
    rw [← hproblems]
    simp only [Anatomy.step, hreports, hreports']

/-! ## Runs of steps -/

/-- Steps one behind the other, up to the end of the file. -/
inductive Scans : Scanner → List ScanStep → Prop where
  | last {s : Scanner} {step : ScanStep} : s.next = .ok step → step.token.kind = .eof →
      Scans s [step]
  | cons {s : Scanner} {step : ScanStep} {steps : List ScanStep} : s.next = .ok step →
      step.token.kind ≠ .eof → Scans step.after steps → Scans s (step :: steps)

/-- A scan is a run of steps, with their tokens and their reports in order. -/
theorem exists_scans_of_scanFrom {budget : Nat} {s : Scanner} {scanned : Scan}
    (h : scanFrom budget s = .ok scanned) :
    ∃ steps, Scans s steps ∧ scanned.tokens = steps.map ScanStep.token ∧
      scanned.diagnostics = steps.flatMap ScanStep.diagnostics := by
  induction budget generalizing s scanned with
  | zero => cases h
  | succ budget ih =>
      obtain ⟨step, hstep, ⟨heof, rfl⟩ | ⟨heof, more, hmore, rfl⟩⟩ := exists_of_scanFrom h
      · exact ⟨[step], .last hstep heof, rfl, by simp⟩
      · obtain ⟨steps, hscans, htokens, hreports⟩ := ih hmore
        refine ⟨step :: steps, .cons hstep heof hscans, ?_, ?_⟩
        · rw [List.map_cons, htokens]
        · rw [List.flatMap_cons, hreports]

/-- The step that comes first is one from the place where the run starts.  Unless it is the
end of the file, the rest of the run starts behind it. -/
theorem Scans.of_cons {s : Scanner} {step : ScanStep} {steps : List ScanStep}
    (h : Scans s (step :: steps)) :
    s.next = .ok step ∧ ((step.token.kind = .eof ∧ steps = []) ∨
      (step.token.kind ≠ .eof ∧ Scans step.after steps)) := by
  cases h with
  | last hstep heof => exact ⟨hstep, .inl ⟨heof, rfl⟩⟩
  | cons hstep heof hrest => exact ⟨hstep, .inr ⟨heof, hrest⟩⟩

/-- What every step keeps up about the text in front of a place holds wherever a part of a
run starts. -/
theorem Scans.of_append {Inv : Text → Scanner → Prop}
    (hinv : ∀ before s step, Inv before s → s.next = .ok step →
      Inv (before ++ step.token.fullText) step.after)
    {front steps : List ScanStep} {s : Scanner} {before : Text} (h : Scans s (front ++ steps))
    (hne : steps ≠ []) (hs : Inv before s) :
    ∃ before' place, Inv before' place ∧ Scans place steps := by
  induction front generalizing s before with
  | nil => exact ⟨before, s, hs, h⟩
  | cons step front ih =>
      obtain ⟨hstep, ⟨_, hnil⟩ | ⟨_, hrest⟩⟩ := h.of_cons
      · exact absurd (List.append_eq_nil_iff.mp hnil).2 hne
      · exact ih hrest (hinv _ _ _ hs hstep)

/-- Each step of a run starts at a place where what the steps keep up holds. -/
theorem Scans.exists_parts {Inv : Text → Scanner → Prop}
    (hinv : ∀ before s step, Inv before s → s.next = .ok step →
      Inv (before ++ step.token.fullText) step.after)
    {s : Scanner} {before : Text} {steps : List ScanStep} (h : Scans s steps)
    (hs : Inv before s) :
    ∀ step ∈ steps, ∃ before' place, Inv before' place ∧ place.Parts step := by
  intro step hstep
  obtain ⟨front, rest, rfl⟩ := List.append_of_mem hstep
  obtain ⟨before', place, hplace, hrest⟩ := h.of_append hinv (List.cons_ne_nil _ _) hs
  exact ⟨before', place, hplace, parts_of_next hrest.of_cons.1⟩

/-- Tokens that stand next to each other are those of two steps, one behind the other. -/
theorem Scans.of_neighbours {Inv : Text → Scanner → Prop}
    (hinv : ∀ before s step, Inv before s → s.next = .ok step →
      Inv (before ++ step.token.fullText) step.after)
    {s : Scanner} {before : Text} {steps : List ScanStep} {front rest : List ScannedToken}
    {t u : ScannedToken} (h : Scans s steps) (hs : Inv before s)
    (htokens : steps.map ScanStep.token = front ++ t :: u :: rest) :
    ∃ before' place step next, Inv before' place ∧ place.next = .ok step ∧ step.token = t ∧
      t.kind ≠ .eof ∧ step.after.next = .ok next ∧ next.token = u := by
  obtain ⟨first, last, rfl, _, hlast⟩ := List.map_eq_append_iff.mp htokens
  obtain ⟨step, more, rfl, rfl, hmore⟩ := List.map_eq_cons_iff.mp hlast
  obtain ⟨next, _, rfl, rfl, _⟩ := List.map_eq_cons_iff.mp hmore
  obtain ⟨before', place, hplace, hscans⟩ := h.of_append hinv (List.cons_ne_nil _ _) hs
  obtain ⟨hstep, ⟨_, hnil⟩ | ⟨hkind, hrest⟩⟩ := hscans.of_cons
  · cases hnil
  · exact ⟨before', place, step, next, hplace, hstep, rfl, hkind, hrest.of_cons.1, rfl⟩

/-! ## Places in a source -/

/-- A place in a source with the text in front of it. -/
structure At (source before : Text) (s : Scanner) : Prop where
  source_eq : source = before ++ s.rest
  offset_eq : s.offset = before.width

variable {source before : Text} {step : ScanStep}

theorem at_start (source : Text) : At source [] (.start source) :=
  ⟨rfl, rfl⟩

theorem At.next (h : At source before s) (hnext : s.next = .ok step) :
    At source (before ++ step.token.fullText) step.after := by
  have htakes := takes_of_next hnext
  constructor
  · rw [h.source_eq, htakes.rest_eq, List.append_assoc]
  · rw [htakes.offset_eq, h.offset_eq, Text.width_append]

/-- Where the significant text of a token stands in the source. -/
theorem At.token (h : At source before s) (hparts : s.Parts step) :
    source = before ++ step.token.leading.text ++ step.token.text ++ step.behind ∧
      step.token.start = Text.width (before ++ step.token.leading.text) ∧
      step.token.stop =
        Text.width (before ++ step.token.leading.text) + step.token.text.width := by
  have htakes := hparts.takes
  have hstart : step.token.start = Text.width (before ++ step.token.leading.text) := by
    rw [htakes.start_eq, h.offset_eq, Text.width_append]
    rfl
  refine ⟨?_, hstart, by rw [htakes.formed.stop_eq, hstart]⟩
  rw [h.source_eq, htakes.rest_eq]
  simp only [ScannedToken.fullText, ScanStep.behind, List.append_assoc]

end Scanner

/-- A text that offsets can count is scanned by a run of steps. -/
theorem exists_scans (source : Text) (h : source.width < Offset.limit) :
    ∃ scanned steps, scan source = .ok scanned ∧ Scanner.Scans (.start source) steps ∧
      scanned.tokens = steps.map ScanStep.token ∧
      scanned.diagnostics = steps.flatMap ScanStep.diagnostics := by
  obtain ⟨scanned, hscan, _⟩ := scan_covers source h
  obtain ⟨steps, hscans, htokens, hreports⟩ := Scanner.exists_scans_of_scanFrom hscan
  exact ⟨scanned, steps, hscan, hscans, htokens, hreports⟩

end Verbatim
