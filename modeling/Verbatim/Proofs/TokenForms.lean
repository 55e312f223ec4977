/-
  The tokens of a scan fit their kinds.

  Each step of a scan takes off a token whose text fits its kind in front of what follows,
  and reports a string literal exactly if it is not closed.  So the reports of string
  literals are those of the open ones, in the order of the tokens.  No two tokens with the
  same range have different texts, so the report of a literal is there exactly if that
  literal is open.
-/
import Verbatim.Proofs.ScanPartition
import Verbatim.Proofs.ScanRuns

set_option autoImplicit false

namespace Verbatim

/-- The significant text of a token stands at its range, and fits its kind there. -/
def ScannedToken.FitsIn (t : ScannedToken) (source : Text) : Prop :=
  ∃ before after, source = before ++ t.text ++ after ∧ t.start = before.width ∧
    t.stop = before.width + t.text.width ∧ LexicalForm t.kind t.text after

namespace Scanner

/-- The tokens of a run that starts at a place of a source fit their kinds there. -/
theorem Scans.fitsIn {s : Scanner} {steps : List ScanStep} (h : Scans s steps)
    {source before : Text} (hs : At source before s) :
    ∀ step ∈ steps, step.token.FitsIn source := by
  intro step hstep
  obtain ⟨_, _, hplace, hparts⟩ := h.exists_parts (fun _ _ _ => At.next) hs step hstep
  obtain ⟨hsource, hstart, hstop⟩ := hplace.token hparts
  exact ⟨_, step.behind, hsource, hstart, hstop, hparts.form⟩

/-- Of the reports of a step, the one about a string literal. -/
theorem Parts.strings {s : Scanner} {step : ScanStep} (h : s.Parts step) :
    step.diagnostics.filter (fun d => d.message == "unterminated string literal") =
      ([step.token].filter ScannedToken.isOpenString).map ScannedToken.unterminatedString := by
  have hcomment (ranges : List (Nat × Nat)) : (ranges.map Scan.unterminatedComment).filter
      (fun d => d.message == "unterminated string literal") = [] :=
    filter_message_ne Scan.unterminatedComment (fun _ => by simp [Scan.unterminatedComment]) ranges
  rw [h.reports, List.filter_append, List.filter_append, hcomment, hcomment,
    filter_message_eq ScannedToken.unterminatedString fun _ => rfl, List.nil_append,
    List.append_nil]

/-- The reports about string literals are those of the open ones, in order. -/
theorem Scans.strings {s : Scanner} {steps : List ScanStep} (h : Scans s steps) :
    (steps.flatMap ScanStep.diagnostics).filter
        (fun d => d.message == "unterminated string literal") =
      ((steps.map ScanStep.token).filter ScannedToken.isOpenString).map
        ScannedToken.unterminatedString := by
  induction h with
  | last hstep =>
      rw [List.flatMap_singleton, (parts_of_next hstep).strings, List.map_singleton]
  | cons hstep _ _ ih =>
      rw [List.flatMap_cons, List.filter_append, ih, (parts_of_next hstep).strings,
        List.map_cons, ← List.map_append, ← List.filter_append, List.singleton_append]

end Scanner

/-- The tokens of a scan fit their kinds in the text. -/
theorem fitsIn_of_scan {source : Text} {scanned : Scan} (h : scan source = .ok scanned) :
    ∀ t ∈ scanned.tokens, t.FitsIn source := by
  obtain ⟨steps, hscans, htokens, _⟩ := Scanner.exists_scans_of_scanFrom h
  rw [htokens]
  exact List.forall_mem_map.mpr (hscans.fitsIn (Scanner.at_start source))

/-- Tokens of a scan that have the same range have the same text. -/
theorem Scanner.Covers.text_eq_of_range {source : Text} {scanned : Scan}
    (h : Covers 0 source scanned) {t u : ScannedToken} (ht : t ∈ scanned.tokens)
    (hu : u ∈ scanned.tokens) (hstart : t.start = u.start) (hstop : t.stop = u.stop) :
    t.text = u.text := by
  have hslice := (h.tiles.fullSliceOf t ht).text
  rw [hstart, hstop, (h.tiles.fullSliceOf u hu).text] at hslice
  exact (Option.some.inj hslice).symm

/-- Every text that offsets can count is scanned into tokens whose texts fit their kinds:
marks, operators and keywords have their one spelling, names are no keywords, nothing that
goes on with a word follows a name or a keyword, numbers have one of four forms, strings
hold no line break and no further quote without an escape, and an unknown character begins
nothing else.  A string literal is reported, at its range, exactly if it is not closed. -/
theorem scan_fits_lexical_forms (source : Text) (h : source.width < Offset.limit) :
    ∃ scanned, scan source = .ok scanned ∧
      (∀ t ∈ scanned.tokens, t.FitsIn source) ∧
      (∀ t ∈ scanned.tokens, t.kind = .stringLiteral →
        (t.unterminatedString ∈ scanned.diagnostics ↔ isClosed t.text = false)) ∧
      scanned.diagnostics.filter (fun d => d.message == "unterminated string literal") =
        (scanned.tokens.filter ScannedToken.isOpenString).map
          ScannedToken.unterminatedString := by
  obtain ⟨scanned, steps, hscan, hscans, htokens, hreports⟩ := exists_scans source h
  have hcovers : Scanner.Covers 0 source scanned := Scanner.covers_of_scanFrom hscan
  have hstrings : scanned.diagnostics.filter
      (fun d => d.message == "unterminated string literal") =
        (scanned.tokens.filter ScannedToken.isOpenString).map
          ScannedToken.unterminatedString := by
    rw [hreports, htokens, hscans.strings]
  refine ⟨scanned, hscan, ?_, fun t ht hkind => ?_, hstrings⟩
  · rw [htokens]
    exact List.forall_mem_map.mpr (hscans.fitsIn (Scanner.at_start source))
  · have hmem : t.unterminatedString ∈ scanned.diagnostics ↔
        t.unterminatedString ∈ (scanned.tokens.filter ScannedToken.isOpenString).map
          ScannedToken.unterminatedString := by
      rw [← hstrings, List.mem_filter]
      exact (and_iff_left rfl).symm
    rw [hmem]
    constructor
    · intro hreport
      obtain ⟨u, hu, heq⟩ := List.mem_map.mp hreport
      obtain ⟨hu, hopen⟩ := List.mem_filter.mp hu
      simp only [ScannedToken.unterminatedString, Diagnostic.mk.injEq] at heq
      rw [hcovers.text_eq_of_range ht hu heq.1.symm heq.2.1.symm]
      simpa using (Bool.and_eq_true_iff.mp hopen).2
    · intro hopen
      refine List.mem_map_of_mem (List.mem_filter.mpr ⟨ht, ?_⟩)
      simp [ScannedToken.isOpenString, hkind, hopen]

theorem scan_raggedSource_fits :
    raggedSource.width < Offset.limit ∧
      ∃ scanned, scan raggedSource = .ok scanned ∧
        (∀ t ∈ scanned.tokens, t.FitsIn raggedSource) ∧
        (∀ t ∈ scanned.tokens, t.kind = .stringLiteral →
          (t.unterminatedString ∈ scanned.diagnostics ↔ isClosed t.text = false)) ∧
        scanned.diagnostics.filter (fun d => d.message == "unterminated string literal") =
          (scanned.tokens.filter ScannedToken.isOpenString).map
            ScannedToken.unterminatedString :=
  ⟨width_raggedSource, scan_fits_lexical_forms raggedSource width_raggedSource⟩

end Verbatim
