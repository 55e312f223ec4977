/-
  Productions do not look at what has been reported.

  A parser decides what to do by the tokens to come, by whether a line break is in
  front of them, and by its options, but never by the reports made so far: these are
  only added to.  Two states that differ in nothing but their reports thus mirror each
  other, and lead to the same output, to states that differ in nothing but their
  reports, and to the same new reports.
-/
import Verbatim.Proofs.MirroredStatements

set_option autoImplicit false

namespace Verbatim

/-- The state with other reports. -/
def ParseState.reporting (s : ParseState) (ds : List Diagnostic) : ParseState :=
  { s with diagnostics := ds }

/-- States that differ in nothing but the reports that they started with. -/
def Mirror.ofReports (first second : List Diagnostic) : Mirror where
  distance := 0
  Ahead s s' := ∃ new, s.diagnostics = first ++ new ∧ s' = s.reporting (second ++ new)
  Behind _ _ := False
  Spoiled _ := False
  spoiled_mono := fun h _ => h
  peekKind := by
    rintro s _ ⟨new, _, rfl⟩
    rfl
  atLineBreak := by
    rintro s _ ⟨new, _, rfl⟩
    rfl
  nextToken := by
    rintro s _ ⟨new, _, rfl⟩
    rfl
  read := by
    rintro s _ ⟨new, hnew, rfl⟩ _
    exact ⟨new, hnew, rfl⟩
  readSemicolon := by
    rintro s _ ⟨new, hnew, rfl⟩ _
    exact .inl ⟨new, hnew, rfl⟩
  supply := by
    rintro s _ ⟨new, hnew, rfl⟩ message
    refine .inr ⟨new ++ [⟨s.lastEnd, s.lastEnd, message⟩], ?_, ?_⟩
    · rw [ParseState.report, hnew, List.append_assoc]
    · rw [← List.append_assoc]
      rfl
  complain := by
    rintro s _ ⟨new, hnew, rfl⟩ message
    refine .inr ⟨new ++ [⟨s.peek.start, s.peek.stop, message⟩], ?_, ?_⟩
    · rw [ParseState.report, hnew, List.append_assoc]
    · rw [← List.append_assoc]
      rfl
  skip := by
    rintro s _ ⟨new, hnew, rfl⟩ _ message
    refine .inr ⟨new ++ [⟨s.peek.start, s.peek.stop, message⟩], ?_, ?_⟩
    · change s.diagnostics ++ _ = _
      rw [hnew, List.append_assoc]
    · rw [← List.append_assoc]
      rfl
  behind_peekKind := @Mirror.peekKind_of_never_behind
  behind_report := @Mirror.spoiled_of_never_behind

namespace Parser

/-- Where the parser yields a result, it adds to the reports, and yields the same result
and adds the same whatever the reports were. -/
def Indifferent {α : Type} (p : Parser α) : Prop :=
  ∀ (s : ParseState) (a : α) (t : ParseState), p.run s = .ok (a, t) →
    ∃ new, t.diagnostics = s.diagnostics ++ new ∧
      ∀ ds, p.run (s.reporting ds) = .ok (a, t.reporting (ds ++ new))

/-- A parser that tracks itself whatever the reports were does not look at them. -/
theorem Indifferent.of_tracks {α : Type} {p : Parser α} {f : Nat → α → α}
    (hf : ∀ x, f 0 x = x)
    (h : ∀ m : Mirror, (∀ t t', ¬ m.Behind t t') →
      ∀ s, m.Tracks (f m.distance) m.Ahead m.Ahead p p s) :
    Indifferent p := by
  intro s a t hrun
  have htracks (ds : List Diagnostic) :=
    h (.ofReports s.diagnostics ds) (fun _ _ => not_false) s a t hrun
  obtain ⟨new, hnew⟩ := (htracks []).1
  refine ⟨new, hnew.symm, fun ds => ?_⟩
  have hsame : Mirror.Ahead (.ofReports s.diagnostics ds) s (s.reporting ds) :=
    ⟨[], (List.append_nil _).symm, by rw [List.append_nil]⟩
  obtain ⟨t', hrun', new', hnew', rfl⟩ := ((htracks ds).2 _ hsame).resolve_left not_false
  rw [← hnew] at hnew'
  rw [hrun', ← List.append_cancel_left hnew']
  exact congrArg (fun x => Except.ok (x, _)) (hf a)

theorem advance_indifferent : Indifferent advance :=
  .of_tracks Segment.shift_zero fun _ hend _ => Mirror.tracks_next hend

theorem expect_indifferent (kind : Kind) : Indifferent (expect kind) :=
  .of_tracks Segment.shift_zero fun _ hend _ =>
    Mirror.tracks_readOrSupply fun _ => Mirror.tracks_next hend

theorem name_indifferent : Indifferent name :=
  expect_indifferent .identifier

theorem reportAndSkip_indifferent (message : String) : Indifferent (reportAndSkip message) :=
  .of_tracks (f := fun _ => id) (fun _ => rfl) fun _ _ _ => Mirror.tracks_reportAndSkip message

theorem optionalType_indifferent : Indifferent optionalType :=
  .of_tracks Segment.shift_zero fun _ _ _ => Mirror.tracks_optionalType

theorem parameterList_indifferent (budget : Nat) : Indifferent (parameterList budget) :=
  .of_tracks Segment.shift_zero fun _ _ _ => Mirror.tracks_parameterList (Nat.le_refl budget)

theorem condition_indifferent (budget : Nat) : Indifferent (condition budget) :=
  .of_tracks Segment.shift_zero fun _ _ _ => Mirror.tracks_condition (Nat.le_refl budget)

theorem interfaceDeclaration_indifferent (budget : Nat) :
    Indifferent (interfaceDeclaration budget) :=
  .of_tracks Segment.shift_zero fun _ hend _ =>
    Mirror.tracks_interfaceDeclaration (Mirror.tracks_next hend) (Nat.le_refl budget)

/-- Up to its semicolon, a statement that ends in one does not depend on the reports. -/
theorem unterminated_indifferent (kind : Kind) (budget : Nat) :
    Indifferent (unterminated kind budget) :=
  .of_tracks Segment.shift_zero fun _ hend _ =>
    Mirror.tracks_unterminated kind (Mirror.tracks_next hend) (Nat.le_refl budget)

end Parser

end Verbatim
