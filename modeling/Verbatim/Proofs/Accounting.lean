/-
  The reports of a parse account for everything that is wrong with its tree.

  Text that the tree holds as skipped, and tokens that it holds although the source
  does not have them, are reported once each.  The exceptions are the closing brace
  of a block that lacks its opening one, which is not reported on its own, a string
  that does not end, which leaves no trace in the tree, and a body that the file
  ends in front of.  So the number of reports can be read off the tree.
-/
import Verbatim.Proofs.Ledger

set_option autoImplicit false

namespace Verbatim

/-! ## What is counted -/

namespace Token

/-- The pieces on both sides of the token. -/
def pieces (t : Token) : List TriviaPiece :=
  t.leading.pieces ++ t.trailing.pieces

theorem length_skippedRanges (offset : Nat) (t : Token) :
    (t.skippedRanges offset).length = t.pieces.countP fun p => p.kind == .skippedText := by
  rw [skippedRanges, List.length_append, Verbatim.length_skippedRanges,
    Verbatim.length_skippedRanges, pieces, List.countP_append]

end Token

namespace Element

/-- Number of the skipped pieces in the tree. -/
def skippedCount (e : Element) : Nat :=
  (e.leaves.flatMap Token.pieces).countP fun p => p.kind == .skippedText

/-- Byte ranges of the skipped pieces in the tree. -/
def skippedRanges (e : Element) : List (Nat × Nat) :=
  leafRanges 0 e.leaves

/-- Number of the tokens in the tree that the source does not have. -/
def zeroWidthCount (e : Element) : Nat :=
  e.leaves.countP Token.isZeroWidth

/-- Number of the blocks in the tree whose opening brace the source does not have. -/
def bracelessCount (e : Element) : Nat :=
  e.nodes.countP lacksBrace

end Element

/-- Number of the strings that a scan found without an end. -/
def Scan.stringCount (scanned : Scan) : Nat :=
  scanned.diagnostics.countP fun d => d.message == "unterminated string literal"

/-- Number of the statements that are missing at the end of a text of the width. -/
def Parse.complaintCount (p : Parse) (width : Nat) : Nat :=
  p.diagnostics.countP (· == ⟨width, width, statementExpected⟩)

theorem length_leafRanges (offset : Nat) (leaves : List Token) :
    (leafRanges offset leaves).length =
      (leaves.flatMap Token.pieces).countP fun p => p.kind == .skippedText := by
  induction leaves generalizing offset with
  | nil => rfl
  | cons t rest ih =>
      rw [leafRanges, List.length_append, ih, Token.length_skippedRanges, List.flatMap_cons,
        List.countP_append]

/-- Every skipped piece in the tree has one range. -/
theorem Element.length_skippedRanges (e : Element) : e.skippedRanges.length = e.skippedCount :=
  length_leafRanges 0 e.leaves

/-- The reports of a parse are those that its tree asks for. -/
structure Accounted (source : Text) (scanned : Scan) (p : Parse) : Prop where
  /-- Every skipped piece is reported, every token that the source does not have apart
  from one for each block without an opening brace, every string without an end, and
  the end of the file where a statement is missing. -/
  balance : p.diagnostics.length =
    p.root.skippedCount + (p.root.zeroWidthCount - p.root.bracelessCount) + scanned.stringCount +
      p.complaintCount source.width
  bracelessCount_le : p.root.bracelessCount ≤ p.root.zeroWidthCount
  complaintCount_le : p.complaintCount source.width ≤ 1
  length_skippedRanges : p.root.skippedRanges.length = p.root.skippedCount
  /-- Every skipped piece is reported where it lies in the source. -/
  located : ∀ range ∈ p.root.skippedRanges, ∃ d ∈ p.diagnostics, d.range = range
  /-- No recovery is silent. -/
  reported : p.root.flags.skippedText = true ∨ p.root.flags.zeroWidth = true →
    p.diagnostics ≠ []

/-! ## Leaves of a run -/

theorem Token.isZeroWidth_standIn {kind : Kind} (h : kind ≠ .eof) :
    (Token.standIn kind).isZeroWidth = true := by
  simp [isZeroWidth, standIn, make, h]

/-- A token that says that it has skipped text around it has a skipped piece. -/
theorem Token.any_skipped {kind : Kind} {text : Text} {leading trailing : TriviaList}
    (hleading : leading.Regular) (htrailing : trailing.Regular)
    (h : (make kind text leading trailing).flags.skippedText = true) :
    ((make kind text leading trailing).pieces.any fun p => p.kind == .skippedText) = true := by
  simp only [make, hleading.skippedText_eq, htrailing.skippedText_eq, ← List.any_append] at h
  exact h

namespace ParseState

variable {s : ParseState} {a : Action}

/-- The tokens without text are those that are supplied. -/
theorem Allows.countP_isZeroWidth (h : s.Allows a) (hs : s.Textual) :
    (s.leavesOf a).countP Token.isZeroWidth =
      [a].countP Action.isSupply + [a].countP Action.isFill := by
  cases a with
  | read =>
      have hpeek := peek_mem_of_peekKind_ne h
      have htext : s.peek.text ≠ [] := fun htext => h (hs s.peek hpeek htext)
      have hleaf : s.nextLeaf.isZeroWidth = false := by
        simp [Token.isZeroWidth, nextLeaf, Token.make, htext]
      rw [leavesOf, List.countP_singleton, hleaf]
      rfl
  | supply kind _ =>
      rw [leavesOf, List.countP_singleton, Token.isZeroWidth_standIn h.1]
      rfl
  | fill kind =>
      rw [leavesOf, List.countP_singleton, Token.isZeroWidth_standIn h]
      rfl
  | skip _ => rfl
  | complain _ => rfl

theorem Regular.any_skipped_nextLeaf (h : s.Regular) (hpeek : s.peek ∈ s.tokens)
    (hflag : s.nextLeaf.flags.skippedText = true) :
    (s.nextLeaf.pieces.any fun p => p.kind == .skippedText) = true :=
  Token.any_skipped (h.regular_nextLeaf_leading hpeek) (h.tokens _ hpeek).trailing hflag

theorem Allows.any_skipped (h : s.Allows a) (hs : s.Regular) :
    ∀ t ∈ s.leavesOf a, t.flags.skippedText = true →
      (t.pieces.any fun p => p.kind == .skippedText) = true := by
  cases a with
  | read =>
      exact List.forall_mem_singleton.mpr (hs.any_skipped_nextLeaf (peek_mem_of_peekKind_ne h))
  | supply _ _ => exact List.forall_mem_singleton.mpr nofun
  | fill _ => exact List.forall_mem_singleton.mpr nofun
  | skip _ => exact List.forall_mem_nil _
  | complain _ => exact List.forall_mem_nil _

end ParseState

namespace Steps

variable {s t : ParseState} {actions : List Action} {leaves : List Token}

theorem countP_isZeroWidth (h : Steps s actions leaves t) (hs : s.Textual) :
    leaves.countP Token.isZeroWidth =
      actions.countP Action.isSupply + actions.countP Action.isFill := by
  induction h with
  | refl s => rfl
  | @cons s t a actions leaves ha _ ih =>
      have hact := ha.countP_isZeroWidth hs
      have hrest := ih (hs.act a)
      rw [← List.singleton_append, List.countP_append, List.countP_append, List.countP_append,
        hact, hrest]
      omega

theorem any_skipped (h : Steps s actions leaves t) (hs : s.Regular) :
    ∀ leaf ∈ leaves, leaf.flags.skippedText = true →
      (leaf.pieces.any fun p => p.kind == .skippedText) = true := by
  induction h with
  | refl s => exact List.forall_mem_nil _
  | cons ha _ ih => exact List.forall_mem_append.mpr ⟨ha.any_skipped hs, ih (ha.regular_act hs)⟩

end Steps

/-! ## All reports of a parse -/

namespace ParseRun

variable {source : Text} {options : ParseOptions} (run : ParseRun source options)

/-- The reports of a run by their cause: those of the parser, and the strings and the
skipped pieces that the scanner reports. -/
structure Reports where
  ledger : Ledger
  strings : List Diagnostic
  records : ledger.Records 0 source.width (.start run.scanned.tokens) run.actions
    (Element.leavesAll run.statements) run.last
  scanned_perm : run.scanned.diagnostics.Perm
    ((scannedRanges 0 run.scanned.tokens).map Scan.unterminatedComment ++ strings)
  message_strings : ∀ d ∈ strings, d.message = "unterminated string literal"

theorem standsAt_start :
    (ParseState.start run.scanned.tokens).StandsAt 0 source.width where
  regular := run.regular
  ended := run.covers.ends
  tiles := run.covers.tiles
  total_eq := by
    have hspells : (ParseState.start run.scanned.tokens).pendingText = source := run.covers.spells
    rw [hspells, Nat.zero_add]

theorem exists_reports : Nonempty run.Reports := by
  obtain ⟨l, hl⟩ := run.reads.reading.steps.exists_ledger run.standsAt_start
  obtain ⟨strings, hperm, hmessage⟩ := run.covers.reports
  exact ⟨⟨l, strings, hl, hperm, hmessage⟩⟩

/-- What is pending in front of the end of the file goes into its leaf. -/
theorem skippedRanges_nextLeaf_last (offset : Nat) :
    run.last.nextLeaf.skippedRanges offset = run.last.pendingRanges offset := by
  rw [run.regular_last.skippedRanges_nextLeaf run.peek_mem_last, ParseState.pendingRanges,
    run.tokens_last, scannedRanges, scannedRanges, List.append_nil]

theorem zeroWidthCount_root :
    run.root.zeroWidthCount =
      run.actions.countP Action.isSupply + run.actions.countP Action.isFill := by
  have hsteps := run.reads.reading.steps.countP_isZeroWidth run.textual
  have hlast : run.last.nextLeaf.isZeroWidth = false := by
    have hkind : run.last.peek.kind = .eof := run.reads.peekKind
    simp [Token.isZeroWidth, ParseState.nextLeaf, Token.make, hkind]
  rw [Element.zeroWidthCount, run.leaves_root, List.countP_append, hsteps, List.countP_singleton,
    hlast]
  rfl

theorem bracelessCount_root : run.root.bracelessCount = run.actions.countP Action.isFill := by
  have hroot : run.root.lacksBrace = false := Element.lacksBrace_makeNode rfl _
  rw [Element.bracelessCount, run.nodes_root, List.countP_cons, hroot,
    run.reads.reading.fills run.textual]
  rfl

/-- A tree that says that it has skipped text has a skipped piece. -/
theorem skippedCount_pos (h : run.root.flags.skippedText = true) : 0 < run.root.skippedCount := by
  have hany : (run.root.leaves.any fun t => t.flags.skippedText) = true := by
    rw [← run.made_root.witnessed.skippedText]
    exact h
  obtain ⟨leaf, hleaf, hflag⟩ := List.any_eq_true.mp hany
  have hskipped : (leaf.pieces.any fun p => p.kind == .skippedText) = true := by
    rw [run.leaves_root] at hleaf
    rcases List.mem_append.mp hleaf with hleaf | hleaf
    · exact run.reads.reading.steps.any_skipped run.regular leaf hleaf hflag
    · rw [List.mem_singleton.mp hleaf] at hflag ⊢
      exact run.regular_last.any_skipped_nextLeaf run.peek_mem_last hflag
  obtain ⟨piece, hpiece, hkind⟩ := List.any_eq_true.mp hskipped
  exact List.countP_pos_iff.mpr ⟨piece, List.mem_flatMap.mpr ⟨leaf, hleaf, hpiece⟩, hkind⟩

/-- A tree that says that it has a token without text has one. -/
theorem zeroWidthCount_pos (h : run.root.flags.zeroWidth = true) :
    0 < run.root.zeroWidthCount := by
  have hany : run.root.leaves.any Token.isZeroWidth = true := by
    rw [← run.made_root.witnessed.zeroWidth]
    exact h
  exact List.countP_pos_iff.mpr (List.any_eq_true.mp hany)

namespace Reports

variable {run} (reports : run.Reports)

/-- The skipped pieces of the tree lie where the scanner left them or where the parser
skipped a token. -/
theorem skippedRanges_perm :
    run.root.skippedRanges.Perm
      (scannedRanges 0 run.scanned.tokens ++ reports.ledger.skips.map Diagnostic.range) := by
  have hranges := reports.records.ranges
  rw [Element.skippedRanges, run.leaves_root, leafRanges_append, leafRanges_singleton,
    run.skippedRanges_nextLeaf_last]
  exact hranges

theorem diagnostics_perm :
    run.result.diagnostics.Perm
      ((scannedRanges 0 run.scanned.tokens).map Scan.unterminatedComment ++ reports.strings ++
        reports.ledger.all) := by
  refine (Diagnostic.sort_perm _).trans ?_
  exact reports.scanned_perm.append reports.records.reported

theorem length_diagnostics :
    run.result.diagnostics.length =
      run.root.skippedCount + reports.strings.length + reports.ledger.supplies.length +
        reports.ledger.complaints.length := by
  have hdiagnostics := reports.diagnostics_perm.length_eq
  have hranges := reports.skippedRanges_perm.length_eq
  rw [Element.length_skippedRanges] at hranges
  simp only [Ledger.all, List.length_append, List.length_map] at hdiagnostics hranges
  omega

theorem commentMessage_ne : ¬("unterminated comment" == "unterminated string literal") = true := by
  decide

/-- No skipped piece is reported in the words of an unterminated string. -/
theorem stringCount_eq : run.scanned.stringCount = reports.strings.length := by
  have hcomments : ((scannedRanges 0 run.scanned.tokens).map Scan.unterminatedComment).countP
      (fun d => d.message == "unterminated string literal") = 0 := by
    rw [List.countP_eq_zero, List.forall_mem_map]
    intro range _
    exact commentMessage_ne
  have hstrings : reports.strings.countP
      (fun d => d.message == "unterminated string literal") = reports.strings.length :=
    List.countP_eq_length.mpr fun d hd => by simp [reports.message_strings d hd]
  rw [Scan.stringCount, reports.scanned_perm.countP_eq, List.countP_append, hcomments, hstrings,
    Nat.zero_add]

/-- Reports in other words, and reports of a range with text, are no complaints. -/
theorem countP_complaint_eq_zero {ds : List Diagnostic} (width : Nat)
    (h : ∀ d ∈ ds, d.message ≠ statementExpected ∨ d.start < d.stop) :
    ds.countP (· == ⟨width, width, statementExpected⟩) = 0 := by
  rw [List.countP_eq_zero]
  intro d hd hcomplaint
  rw [beq_iff_eq] at hcomplaint
  have hd := h d hd
  subst hcomplaint
  rcases hd with hmessage | hrange
  · exact hmessage rfl
  · exact Nat.lt_irrefl width hrange

/-- Only the parser complains about the end of the file, and it skips no empty range. -/
theorem complaintCount_eq :
    run.result.complaintCount source.width = reports.ledger.complaints.length := by
  have hcomments : ((scannedRanges 0 run.scanned.tokens).map Scan.unterminatedComment).countP
      (· == ⟨source.width, source.width, statementExpected⟩) = 0 := by
    refine countP_complaint_eq_zero _ fun d hd => ?_
    obtain ⟨range, _, rfl⟩ := List.mem_map.mp hd
    exact .inl (show "unterminated comment" ≠ statementExpected by decide)
  have hstrings : reports.strings.countP
      (· == ⟨source.width, source.width, statementExpected⟩) = 0 := by
    refine countP_complaint_eq_zero _ fun d hd => .inl ?_
    rw [reports.message_strings d hd]
    decide
  have hskips := countP_complaint_eq_zero source.width
    fun d hd => .inr (reports.records.skips d hd)
  have hsupplies := countP_complaint_eq_zero source.width
    fun d hd => .inl (reports.records.supplies d hd)
  have hcomplaints : reports.ledger.complaints.countP
      (· == ⟨source.width, source.width, statementExpected⟩) = reports.ledger.complaints.length :=
    List.countP_eq_length.mpr fun d hd => beq_iff_eq.mpr (reports.records.complaints d hd)
  rw [Parse.complaintCount, reports.diagnostics_perm.countP_eq]
  simp only [Ledger.all, List.countP_append, hcomments, hstrings, hskips, hsupplies, hcomplaints,
    Nat.zero_add]

/-- Every skipped piece is reported where it lies. -/
theorem exists_report (reports : run.Reports) {range : Nat × Nat}
    (h : range ∈ run.root.skippedRanges) :
    ∃ d ∈ run.result.diagnostics, d.range = range := by
  have hmem := reports.skippedRanges_perm.mem_iff.mp h
  rcases List.mem_append.mp hmem with hscanned | hskipped
  · refine ⟨Scan.unterminatedComment range, reports.diagnostics_perm.mem_iff.mpr ?_, rfl⟩
    exact List.mem_append_left _ (List.mem_append_left _ (List.mem_map_of_mem hscanned))
  · obtain ⟨d, hd, rfl⟩ := List.mem_map.mp hskipped
    refine ⟨d, reports.diagnostics_perm.mem_iff.mpr ?_, rfl⟩
    exact List.mem_append_right _ (List.mem_append_left _ (List.mem_append_left _ hd))

end Reports

theorem accounted : Accounted source run.scanned run.result := by
  obtain ⟨reports⟩ := run.exists_reports
  have hlength := reports.length_diagnostics
  have hzero := run.zeroWidthCount_root
  have hbraceless := run.bracelessCount_root
  have hsupplies := reports.records.length_supplies
  have hcomplaints := reports.records.length_complaints
  have hfills := run.reads.reading.supplied
  constructor
  case balance =>
    rw [hlength, reports.stringCount_eq, reports.complaintCount_eq]
    change _ = run.root.skippedCount + (run.root.zeroWidthCount - run.root.bracelessCount) + _ + _
    omega
  case bracelessCount_le =>
    change run.root.bracelessCount ≤ run.root.zeroWidthCount
    omega
  case complaintCount_le =>
    rw [reports.complaintCount_eq, hcomplaints]
    rcases run.reads.settled with hquiet | ⟨hone, _⟩
    · exact Nat.le_trans (Nat.le_of_eq hquiet) (Nat.zero_le 1)
    · exact Nat.le_of_eq hone
  case length_skippedRanges => exact run.root.length_skippedRanges
  case located => exact fun _ hrange => reports.exists_report hrange
  case reported =>
    intro hflags hnil
    rw [hnil, List.length_nil] at hlength
    rcases hflags with hskipped | hzeroWidth
    · have hpos := run.skippedCount_pos hskipped
      omega
    · have hpos := run.zeroWidthCount_pos hzeroWidth
      omega

end ParseRun

/-- Every text that offsets can count is parsed with exactly the reports that its tree
asks for: none of its recoveries is silent, and none is reported twice. -/
theorem parse_accounted (source : Text) (options : ParseOptions)
    (h : source.width < Offset.limit) :
    ∃ scanned p, scan source = .ok scanned ∧ parse source options = .ok p ∧
      Accounted source scanned p := by
  obtain ⟨run⟩ := exists_parseRun source options h
  exact ⟨run.scanned, run.result, run.scan_eq, run.parse_eq, run.accounted⟩

theorem parse_brokenSource_accounted :
    brokenSource.width < Offset.limit ∧
      ∃ scanned p, scan brokenSource = .ok scanned ∧ parse brokenSource ⟨true⟩ = .ok p ∧
        Accounted brokenSource scanned p :=
  ⟨width_brokenSource, parse_accounted brokenSource ⟨true⟩ width_brokenSource⟩

end Verbatim
