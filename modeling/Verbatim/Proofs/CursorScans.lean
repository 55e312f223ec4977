/-
  A tokenizer with a cursor is a scan session.

  The cursor has been reset wherever a piece of trivia or a token starts, so there the number
  of bytes at the last reset is the number of those that are left.  Passing the front of a
  cut makes the difference of the two the width of that front, and the difference of the
  source and what is left the offset behind it; this is what a scan session keeps.  Between
  two tokens the buffer of pieces is empty, so its two parts are the pieces on the two sides
  of one token.  One call does the same to both, and hence so do any calls.
-/
import Verbatim.Scan.Cursor
import Verbatim.Proofs.ScanSessions

set_option autoImplicit false

namespace Verbatim

namespace Tokenizer

variable {t : Tokenizer} {before rest : Text}

/-! ## Places -/

/-- The cursor has been reset behind a text. -/
structure IsAt (t : Tokenizer) (before rest : Text) : Prop where
  source_eq : t.source = before ++ rest
  cursor_eq : t.cursor = .ofText rest

/-- The offset of a place is the width of the text in front of it. -/
theorem IsAt.offset_eq (h : t.IsAt before rest) : t.offset = before.width := by
  rw [offset, h.source_eq, h.cursor_eq, Text.width_append]
  exact Nat.add_sub_cancel _ _

/-- Where a front has been passed since the last reset, the two lengths tell its range. -/
theorem IsAt.range_pass {cut : Cut} (h : t.IsAt before cut.whole) :
    (t.pass cut).cursor.withinToken = cut.front.width ∧
      (t.pass cut).tokenStart = before.width ∧
      (t.pass cut).offset = before.width + cut.front.width := by
  have hwithin : (t.pass cut).cursor.withinToken = cut.front.width := by
    rw [pass, h.cursor_eq, Cut.whole]
    simp [Cursor.pass, Cursor.withinToken, Cursor.ofText, Cursor.remaining]
  have hoffset : (t.pass cut).offset = before.width + cut.front.width := by
    rw [pass, h.cursor_eq, offset, h.source_eq, Cut.whole]
    simp [Cursor.pass, Cursor.ofText, Cursor.remaining, ← Nat.add_assoc]
  refine ⟨hwithin, ?_, hoffset⟩
  rw [tokenStart, hwithin, hoffset, Nat.add_sub_cancel]

/-- The tokenizer behind a cut, with more pieces and more problems. -/
def moved (t : Tokenizer) (rest : Text) (pieces : List TriviaPiece)
    (problems : List Diagnostic) : Tokenizer :=
  { t with
    cursor := .ofText rest
    pieces := t.pieces ++ pieces
    pending := t.pending ++ problems }

theorem moved_moved (t : Tokenizer) (rest rest' : Text) (pieces pieces' : List TriviaPiece)
    (problems problems' : List Diagnostic) :
    (t.moved rest pieces problems).moved rest' pieces' problems' =
      t.moved rest' (pieces ++ pieces') (problems ++ problems') := by
  simp [moved, List.append_assoc]

theorem IsAt.moved_nil (h : t.IsAt before rest) : t.moved rest [] [] = t := by
  rw [moved, ← h.cursor_eq, List.append_nil, List.append_nil]

theorem IsAt.moved {cut : Cut} (h : t.IsAt before cut.whole) (pieces : List TriviaPiece)
    (problems : List Diagnostic) :
    (t.moved cut.back pieces problems).IsAt (before ++ cut.front) cut.back where
  source_eq := by
    rw [List.append_assoc]
    exact h.source_eq
  cursor_eq := rfl

/-- What has been passed is left behind by a reset. -/
theorem reset_pass (t : Tokenizer) (cut : Cut) : (t.pass cut).reset = t.moved cut.back [] [] := by
  rw [Tokenizer.moved, List.append_nil, List.append_nil]
  rfl

/-- What has been passed is reported with its range. -/
theorem IsAt.report_pass {cut : Cut} (h : t.IsAt before cut.whole) (message : String) :
    ((t.pass cut).report message).reset =
      t.moved cut.back [] [⟨before.width, before.width + cut.front.width, message⟩] := by
  obtain ⟨_, hstart, hstop⟩ := h.range_pass
  rw [report, hstart, hstop, Tokenizer.moved, List.append_nil]
  rfl

/-! ## Trivia -/

theorem IsAt.takePiece_eq {cut : Cut} (h : t.IsAt before cut.whole) (kind : TriviaKind) :
    t.takePiece kind cut =
      t.moved cut.back [⟨kind, cut.front.width⟩]
        (if kind = .skippedText then
          [⟨before.width, before.width + cut.front.width, "unterminated comment"⟩] else []) := by
  obtain ⟨hwithin, hstart, hstop⟩ := h.range_pass
  simp only [takePiece]
  split
  · rw [report, hstart, hstop, gather]
    change Tokenizer.reset { t with
      cursor := (t.pass cut).cursor
      pieces := t.pieces ++ [⟨kind, (t.pass cut).cursor.withinToken⟩]
      pending := _ } = _
    rw [hwithin]
    rfl
  · rw [gather, hwithin, Tokenizer.moved, List.append_nil]
    rfl

/-- A run of trivia is gathered piece by piece. -/
theorem IsAt.trivia_eq (h : t.IsAt before rest) (trailing : Bool) (budget : Nat) :
    t.trivia trailing budget =
      let run := Scan.triviaRun trailing budget before.width rest
      t.moved run.cut.back run.pieces run.diagnostics := by
  induction budget generalizing t before rest with
  | zero => exact h.moved_nil.symm
  | succ budget ih =>
      rw [trivia, Scan.triviaRun, h.cursor_eq, Cursor.ofText]
      cases htrivia : Scan.trivia? rest with
      | none => exact h.moved_nil.symm
      | some found =>
          obtain ⟨kind, cut⟩ := found
          obtain rfl := Scan.whole_trivia? htrivia
          simp only [h.takePiece_eq]
          split
          · rfl
          · rw [ih (h.moved _ _), Text.width_append, moved_moved]
            rfl

/-! ## Significant texts -/

/-- The range of a significant text is told by the two lengths. -/
theorem IsAt.significant_eq (h : t.IsAt before rest) :
    t.significant =
      let (kind, cut, problems) := Scanner.significant before.width rest
      (kind, before.width, before.width + cut.front.width, t.moved cut.back [] problems) := by
  cases rest with
  | nil =>
      rw [significant, h.cursor_eq, Cursor.ofText]
      simp only [h.offset_eq]
      exact congrArg (fun after => (Kind.eof, before.width, before.width, after))
        h.moved_nil.symm
  | cons c tail =>
      rw [significant, h.cursor_eq, Cursor.ofText]
      simp only [Scanner.significant]
      have hwhole : ((Scan.lexeme c tail).cut.after [c]).whole = c :: tail := by
        rw [Cut.whole_after, Scan.whole_lexeme, List.singleton_append]
      rw [← hwhole] at h
      obtain ⟨_, hstart, hstop⟩ := h.range_pass
      split
      · rw [hstart, hstop, reset_pass]
      · rw [h.report_pass]
        change (_, (t.pass _).tokenStart, (t.pass _).offset, _) = _
        rw [hstart, hstop]

/-! ## One token -/

/-- Trivia behind a significant text, of which there is none at the end of the file. -/
theorem IsAt.behind_eq (h : t.IsAt before rest) (kind : Kind) :
    (if kind = .eof then t else t.trivia true t.cursor.rest.length) =
      let run := Scanner.behind kind before.width rest
      t.moved run.cut.back run.pieces run.diagnostics := by
  rw [Scanner.behind]
  split
  · exact h.moved_nil.symm
  · rw [h.trivia_eq, h.cursor_eq]
    rfl

/-- The three runs over the text that a token takes, against the parts of the token. -/
theorem IsAt.stages (h : t.IsAt before rest) :
    let parts := (Scanner.mk rest before.width).anatomy
    let start := before.width + parts.before.cut.front.width
    let front := t.moved parts.before.cut.back parts.before.pieces parts.before.diagnostics
    let found := t.moved parts.cut.back parts.before.pieces
      (parts.before.diagnostics ++ parts.problems)
    t.trivia false t.cursor.rest.length = front ∧
      front.significant = (parts.kind, start, start + parts.cut.front.width, found) ∧
      (if parts.kind = .eof then found else found.trivia true found.cursor.rest.length) =
        t.moved parts.behind.cut.back (parts.before.pieces ++ parts.behind.pieces)
          (parts.before.diagnostics ++ parts.problems ++ parts.behind.diagnostics) := by
  have hrest : t.cursor.rest = rest := congrArg Cursor.rest h.cursor_eq
  have hrun := Scan.whole_triviaRun false rest.length before.width rest
  have hbefore := h.trivia_eq false rest.length
  obtain ⟨kind, cut, problems, hsignificant, hcut, _⟩ := Scanner.significant_spec
    (before.width + (Scan.triviaRun false rest.length before.width rest).cut.front.width)
    (Scan.triviaRun false rest.length before.width rest).cut.back
  rw [Scanner.anatomy_eq (s := ⟨rest, before.width⟩) rfl hsignificant, hrest]
  generalize Scan.triviaRun false rest.length before.width rest = run at *
  obtain rfl := hrun
  have hfront := h.moved run.pieces run.diagnostics
  have hfound := hfront.significant_eq
  rw [Text.width_append, hsignificant] at hfound
  simp only [moved_moved, List.append_nil] at hfound
  rw [← hcut] at hfront
  have hbehind := (hfront.moved [] problems).behind_eq kind
  simp only [moved_moved, Text.width_append, List.append_nil] at hbehind
  exact ⟨hbefore, hfound, hbehind⟩

/-- A range of the source is cut out of it. -/
theorem slice_eq {front middle back : Text} (h : t.source = front ++ middle ++ back) :
    t.slice front.width (front.width + middle.width) = .ok middle := by
  rw [slice, h, Text.slice?_append]

/-- The texts of a token are cut out of the source by their ranges. -/
theorem IsAt.slices {leading text trailing back : Text}
    (h : t.IsAt before (leading ++ (text ++ (trailing ++ back)))) :
    let start := before.width + leading.width
    let stop := start + text.width
    t.slice before.width start = .ok leading ∧ t.slice start stop = .ok text ∧
      t.slice stop (stop + trailing.width) = .ok trailing := by
  have hsource := h.source_eq
  simp only [← List.append_assoc] at hsource
  refine ⟨slice_eq (by simpa only [List.append_assoc] using hsource), ?_, ?_⟩
  · rw [← Text.width_append]
    exact slice_eq (by simpa only [List.append_assoc] using hsource)
  · rw [← Text.width_append, ← Text.width_append]
    exact slice_eq hsource

/-- A token is scanned as without a cursor, and the cursor is reset behind it. -/
theorem IsAt.next_eq (h : t.IsAt before rest) (hpieces : t.pieces = []) :
    t.next = (Scanner.next ⟨rest, before.width⟩).map fun step =>
      (t.current, { t with
        cursor := .ofText step.after.rest
        current := step.token
        pieces := []
        pending := t.pending ++ step.diagnostics }) := by
  obtain ⟨hbefore, hfound, hbehind⟩ := h.stages
  have hspells := (Scanner.anatomy_fits ⟨rest, before.width⟩).spells
  rw [Scanner.next_eq_anatomy]
  generalize (Scanner.mk rest before.width).anatomy = parts at hbefore hfound hbehind hspells ⊢
  simp only at hbefore hfound hbehind hspells
  rw [hspells] at h
  obtain ⟨hleading, htext, htrailing⟩ := h.slices
  generalize hafter : t.moved parts.behind.cut.back (parts.before.pieces ++ parts.behind.pieces)
    (parts.before.diagnostics ++ parts.problems ++ parts.behind.diagnostics) = after at hbehind
  have hstop : after.offset = before.width + parts.before.cut.front.width +
      parts.cut.front.width + parts.behind.cut.front.width := by
    have hend : after.IsAt (before ++ parts.before.cut.front ++ parts.cut.front ++
        parts.behind.cut.front) parts.behind.cut.back := by
      rw [← hafter]
      exact ⟨h.source_eq.trans (by simp only [List.append_assoc]), rfl⟩
    simp only [hend.offset_eq, Text.width_append]
  -- The buffer was empty, so the pieces in front of the token are those that came first.
  have hsplit : after.pieces.splitAt
      (t.moved parts.before.cut.back parts.before.pieces parts.before.diagnostics).pieces.length =
        (parts.before.pieces, parts.behind.pieces) := by
    rw [← hafter]
    simp [Tokenizer.moved, hpieces]
  simp only [next, hbefore, hfound, hbehind, hsplit, h.offset_eq, hstop, hleading, htext,
    htrailing, bind, Except.bind]
  cases TriviaList.ofPieces parts.before.cut.front parts.before.pieces with
  | error fault => rfl
  | ok leading =>
      cases TriviaList.ofPieces parts.behind.cut.front parts.behind.pieces with
      | error fault => rfl
      | ok trailing =>
          rw [← hafter]
          rfl

/-! ## Calls -/

/-- The tokenizer that knows what a session knows, with a cursor that has been reset and an
empty buffer. -/
def ofSession (source : Text) (s : ScanSession) : Tokenizer :=
  ⟨source, .ofText s.place.rest, s.current, [], s.pending⟩

variable {source : Text} {s : ScanSession}

/-- The calls of a tokenizer. -/
def form : SessionForm Tokenizer :=
  ⟨peek, next, takeDiagnostics⟩

theorem next_ofSession (h : s.place.At source before) :
    (ofSession source s).next = s.next.map (Prod.map id (ofSession source)) := by
  have hat : (ofSession source s).IsAt before s.place.rest := ⟨h.source_eq, rfl⟩
  rw [hat.next_eq rfl, ScanSession.next, ← h.offset_eq]
  cases s.place.next <;> rfl

/-- One call is answered as by the session, and leaves the tokenizer of the session behind
it. -/
theorem call_ofSession (h : s.place.At source before) (c : SessionCall) :
    form.call (ofSession source s) c =
      (s.call c).map (Prod.map id (ofSession source)) := by
  cases c with
  | peek | take => rfl
  | next =>
      rw [ScanSession.call_next]
      simp only [SessionForm.call, form, next_ofSession h]
      cases s.next <;> rfl

end Tokenizer

namespace ScanSession

variable {source before : Text} {s after : ScanSession}

theorem at_of_start (h : start source = .ok s) : ∃ front, s.place.At source front := by
  rw [start] at h
  cases hstep : (Scanner.start source).next with
  | error fault =>
      rw [hstep] at h
      cases h
  | ok step =>
      rw [hstep] at h
      cases h
      exact ⟨_, (Scanner.at_start source).next hstep⟩

/-- Behind a call, a session is again at a place of its source. -/
theorem at_of_call (h : s.place.At source before) {c : SessionCall} {a : SessionAnswer}
    (hcall : s.call c = .ok (a, after)) : ∃ front, after.place.At source front := by
  cases c with
  | peek | take =>
      cases hcall
      exact ⟨before, h⟩
  | next =>
      rw [call_next, next] at hcall
      cases hstep : s.place.next with
      | error fault =>
          rw [hstep] at hcall
          cases hcall
      | ok step =>
          rw [hstep] at hcall
          cases hcall
          exact ⟨_, h.next hstep⟩

end ScanSession

namespace Tokenizer

variable {source before : Text} {s : ScanSession}

/-- Any calls are answered as by the session. -/
theorem callAll_ofSession (h : s.place.At source before) (calls : List SessionCall) :
    form.callAll (ofSession source s) calls =
      (s.callAll calls).map (Prod.map id (ofSession source)) := by
  induction calls generalizing s before with
  | nil => rfl
  | cons c calls ih =>
      rw [SessionForm.callAll, ScanSession.callAll_cons, call_ofSession h]
      cases hcall : s.call c with
      | error fault => rfl
      | ok found =>
          obtain ⟨a, after⟩ := found
          obtain ⟨front, hafter⟩ := ScanSession.at_of_call h hcall
          have hrest := ih hafter
          simp only [Except.map, Prod.map, bind, Except.bind, hrest]
          cases after.callAll calls <;> rfl

theorem start_eq (source : Text) :
    start source = (ScanSession.start source).map (ofSession source) := by
  have hfresh : (fresh source).IsAt [] source := ⟨rfl, rfl⟩
  rw [start, hfresh.next_eq rfl, ScanSession.start, Scanner.start, Text.width_nil]
  cases Scanner.next ⟨source, 0⟩ <;> rfl

/-- A tokenizer with a cursor and a buffer does what a scan session does: it starts with the
same token and the same problems, or the same fault, and from there on any calls have the
same answers. -/
theorem start_callAll_eq (source : Text) (calls : List SessionCall) :
    (do form.callAll (← start source) calls) =
      (do (← ScanSession.start source).callAll calls).map (Prod.map id (ofSession source)) := by
  rw [start_eq]
  cases hfirst : ScanSession.start source with
  | error fault => rfl
  | ok first =>
      obtain ⟨front, hat⟩ := ScanSession.at_of_start hfirst
      exact callAll_ofSession hat calls

end Tokenizer

end Verbatim
