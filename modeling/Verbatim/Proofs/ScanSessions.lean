/-
  What a scan session answers.

  A session can be asked at any time for the token that comes next, with or without handing
  it out, and for the problems found so far.  The steps of the whole scan, and behind them
  the end of the file again and again, number all tokens.  A session that has handed out `n`
  tokens holds the token with the number `n` and stands behind its step, and the problems that
  have been taken, with those that have not, are those of the first `n + 1` steps.  One call
  keeps this, so it holds behind any calls.
-/
import Verbatim.Proofs.ScanPartition
import Verbatim.Proofs.ScanRuns

set_option autoImplicit false

namespace Verbatim

/-! ## All steps by number -/

/-- The end of the file at an offset, without trivia. -/
def ScannedToken.endAt (offset : Nat) : ScannedToken :=
  ⟨.empty, .eof, offset, offset, [], .empty⟩

namespace Scanner

/-- The step that is made at the end of a text: it goes nowhere and reports nothing. -/
def endStep (stop : Nat) : ScanStep :=
  ⟨.endAt stop, [], ⟨[], stop⟩⟩

theorem next_endStep (stop : Nat) : (endStep stop).after.next = .ok (endStep stop) := rfl

/-- The step with a number: one of the given ones, or behind them that at the end of the
text. -/
def stepAt (steps : List ScanStep) (stop n : Nat) : ScanStep :=
  steps.getD n (endStep stop)

theorem stepAt_nil (stop n : Nat) : stepAt [] stop n = endStep stop := rfl

theorem stepAt_cons_zero (step : ScanStep) (steps : List ScanStep) (stop : Nat) :
    stepAt (step :: steps) stop 0 = step := rfl

theorem stepAt_cons_succ (step : ScanStep) (steps : List ScanStep) (stop n : Nat) :
    stepAt (step :: steps) stop (n + 1) = stepAt steps stop n := rfl

variable {source before : Text} {s : Scanner} {steps : List ScanStep}

/-- Behind the end of the file stands the end of the text. -/
theorem At.after_eq {step : ScanStep} (h : At source before s) (hnext : s.next = .ok step)
    (heof : step.token.kind = .eof) : step.after = (endStep source.width).after := by
  obtain ⟨hsource, hoffset⟩ := h.next hnext
  have hrest : step.after.rest = [] := (takes_of_next hnext).done heof
  rw [hrest, List.append_nil] at hsource
  rw [← hsource] at hoffset
  cases hafter : step.after with
  | mk rest offset =>
      rw [hafter] at hrest hoffset
      cases hrest
      cases hoffset
      rfl

/-- The steps of a run follow one another, and so do those behind them. -/
theorem Scans.next_stepAt (h : Scans s steps) (hs : At source before s) :
    s.next = .ok (stepAt steps source.width 0) ∧
      ∀ n, (stepAt steps source.width n).after.next =
        .ok (stepAt steps source.width (n + 1)) := by
  induction h generalizing before with
  | last hstep heof =>
      refine ⟨hstep, fun n => ?_⟩
      cases n with
      | zero =>
          rw [stepAt_cons_zero, stepAt_cons_succ, stepAt_nil, hs.after_eq hstep heof,
            next_endStep]
      | succ n => rw [stepAt_cons_succ, stepAt_cons_succ, stepAt_nil, next_endStep, stepAt_nil]
  | cons hstep _ _ ih =>
      obtain ⟨hfirst, hlater⟩ := ih (hs.next hstep)
      refine ⟨hstep, fun n => ?_⟩
      cases n with
      | zero => exact hfirst
      | succ n => exact hlater n

theorem token_stepAt (steps : List ScanStep) (stop n : Nat) :
    (stepAt steps stop n).token = (steps.map ScanStep.token).getD n (.endAt stop) := by
  rw [stepAt, List.getD_eq_getElem?_getD, List.getD_eq_getElem?_getD, List.getElem?_map]
  cases steps[n]? <;> rfl

/-- One more step reports what it found, and none does behind the run. -/
theorem flatMap_take_succ (steps : List ScanStep) (stop n : Nat) :
    (steps.take (n + 1)).flatMap ScanStep.diagnostics =
      (steps.take n).flatMap ScanStep.diagnostics ++ (stepAt steps stop n).diagnostics := by
  rw [List.take_add_one, List.flatMap_append, stepAt, List.getD_eq_getElem?_getD]
  cases steps[n]? <;> simp [endStep]

end Scanner

/-! ## Calls -/

/-- A call to a session. -/
inductive SessionCall where
  | peek | next | take
  deriving DecidableEq, Repr

/-- An answered call. -/
inductive SessionAnswer where
  /-- The token that comes next. -/
  | peeked (token : ScannedToken)
  /-- The token that came next. -/
  | handed (token : ScannedToken)
  /-- The problems that had not been taken. -/
  | taken (reports : List Diagnostic)
  deriving DecidableEq, Repr

namespace SessionAnswer

/-- The call that is answered. -/
def call : SessionAnswer → SessionCall
  | .peeked _ => .peek
  | .handed _ => .next
  | .taken _ => .take

/-- The token of an answer. -/
def token? : SessionAnswer → Option ScannedToken
  | .peeked t => some t
  | .handed t => some t
  | .taken _ => none

/-- The problems that an answer hands over. -/
def reports : SessionAnswer → List Diagnostic
  | .peeked _ => []
  | .handed _ => []
  | .taken ds => ds

/-- Number of tokens that answers hand out. -/
def handedCount (answers : List SessionAnswer) : Nat :=
  (answers.map call).count .next

end SessionAnswer

/-- What a scan in progress can be asked for, whatever it keeps. -/
structure SessionForm (σ : Type) where
  peek : σ → ScannedToken
  next : σ → Except Fault (ScannedToken × σ)
  take : σ → List Diagnostic × σ

namespace SessionForm

variable {σ : Type} (form : SessionForm σ)

/-- Makes a call. -/
def call (s : σ) : SessionCall → Except Fault (SessionAnswer × σ)
  | .peek => .ok (.peeked (form.peek s), s)
  | .next => do
      let (t, after) ← form.next s
      return (.handed t, after)
  | .take =>
      let (ds, after) := form.take s
      .ok (.taken ds, after)

/-- Makes calls one after the other.  The first fault ends them. -/
def callAll (s : σ) : List SessionCall → Except Fault (List SessionAnswer × σ)
  | [] => .ok ([], s)
  | c :: calls => do
      let (answer, after) ← form.call s c
      let (answers, last) ← callAll after calls
      return (answer :: answers, last)

end SessionForm

namespace ScanSession

/-- The calls of a scan session. -/
def form : SessionForm ScanSession :=
  ⟨peek, next, takeDiagnostics⟩

/-- Makes a call. -/
def call (s : ScanSession) (c : SessionCall) : Except Fault (SessionAnswer × ScanSession) :=
  form.call s c

/-- Makes calls one after the other.  The first fault ends them. -/
def callAll (s : ScanSession) (calls : List SessionCall) :
    Except Fault (List SessionAnswer × ScanSession) :=
  form.callAll s calls

theorem call_next (s : ScanSession) :
    s.call .next = (do
      let (t, after) ← s.next
      return (.handed t, after)) := rfl

theorem callAll_cons (s : ScanSession) (c : SessionCall) (calls : List SessionCall) :
    s.callAll (c :: calls) = (do
      let (answer, after) ← s.call c
      let (answers, last) ← after.callAll calls
      return (answer :: answers, last)) := rfl

/-- A session that has handed out so many tokens, of which these problems have been taken. -/
structure Follows (steps : List ScanStep) (stop n : Nat) (taken : List Diagnostic)
    (s : ScanSession) : Prop where
  current_eq : s.current = (Scanner.stepAt steps stop n).token
  place_eq : s.place = (Scanner.stepAt steps stop n).after
  reports_eq : taken ++ s.pending = (steps.take (n + 1)).flatMap ScanStep.diagnostics

/-- What calls are answered by a session that has handed out `n` tokens before them: every
token is that with the number of tokens handed out in front of it. -/
structure Answers (steps : List ScanStep) (stop n : Nat) (calls : List SessionCall)
    (answers : List SessionAnswer) : Prop where
  calls_eq : answers.map SessionAnswer.call = calls
  token_eq : ∀ before a after t, answers = before ++ a :: after → a.token? = some t →
    t = (Scanner.stepAt steps stop (n + SessionAnswer.handedCount before)).token

variable {steps : List ScanStep} {stop n : Nat} {taken : List Diagnostic} {s : ScanSession}

/-- A session can hand out the token that it shows. -/
theorem Follows.next_eq (h : s.Follows steps stop n taken)
    (hsteps : ∀ n, (Scanner.stepAt steps stop n).after.next =
      .ok (Scanner.stepAt steps stop (n + 1))) :
    ∃ after, s.next = .ok (s.peek, after) ∧ after.Follows steps stop (n + 1) taken := by
  have hnext : s.place.next = .ok (Scanner.stepAt steps stop (n + 1)) := by
    rw [h.place_eq]
    exact hsteps n
  refine ⟨⟨_, _, s.pending ++ (Scanner.stepAt steps stop (n + 1)).diagnostics⟩, ?_, rfl, rfl, ?_⟩
  · rw [next, hnext]
    rfl
  · rw [← List.append_assoc, h.reports_eq, Scanner.flatMap_take_succ steps stop (n + 1)]

/-- One call is answered in kind, with the token that comes next if it asks for one. -/
theorem Follows.call (h : s.Follows steps stop n taken)
    (hsteps : ∀ n, (Scanner.stepAt steps stop n).after.next =
      .ok (Scanner.stepAt steps stop (n + 1))) (c : SessionCall) :
    ∃ a after, s.call c = .ok (a, after) ∧ a.call = c ∧
      (∀ t, a.token? = some t → t = (Scanner.stepAt steps stop n).token) ∧
      after.Follows steps stop (n + [c].count .next) (taken ++ a.reports) := by
  cases c with
  | peek =>
      refine ⟨.peeked s.current, s, rfl, rfl, fun t ht => ?_, ?_⟩
      · rw [← h.current_eq]
        exact (Option.some.inj ht).symm
      · have hcount : [SessionCall.peek].count .next = 0 := rfl
        rw [SessionAnswer.reports, List.append_nil, hcount, Nat.add_zero]
        exact h
  | next =>
      obtain ⟨after, hnext, hafter⟩ := h.next_eq hsteps
      refine ⟨.handed s.current, after, ?_, rfl, fun t ht => ?_, ?_⟩
      · rw [call_next, hnext]
        rfl
      · rw [← h.current_eq]
        exact (Option.some.inj ht).symm
      · have hcount : [SessionCall.next].count .next = 1 := rfl
        rw [SessionAnswer.reports, List.append_nil, hcount]
        exact hafter
  | take =>
      have hcount : [SessionCall.take].count .next = 0 := rfl
      refine ⟨.taken s.pending, { s with pending := [] }, rfl, rfl, fun t ht => ?_, ?_⟩
      · exact absurd ht.symm (Option.some_ne_none t)
      · rw [hcount, Nat.add_zero]
        exact ⟨h.current_eq, h.place_eq, (List.append_nil _).trans h.reports_eq⟩

/-- The first answer comes in front of those that follow it. -/
theorem Answers.cons {calls : List SessionCall} {answers : List SessionAnswer}
    {a : SessionAnswer} (htoken : ∀ t, a.token? = some t → t = (Scanner.stepAt steps stop n).token)
    (h : Answers steps stop (n + [a.call].count .next) calls answers) :
    Answers steps stop n (a.call :: calls) (a :: answers) where
  calls_eq := congrArg (a.call :: ·) h.calls_eq
  token_eq := by
    intro before b after t hsplit ht
    cases before with
    | nil =>
        cases hsplit
        exact htoken t ht
    | cons _ before =>
        cases hsplit
        have hlater := h.token_eq before b after t rfl ht
        rwa [Nat.add_assoc, SessionAnswer.handedCount, ← List.count_append] at hlater

/-- Any calls are answered, and leave a session of which the same is known. -/
theorem Follows.callAll (h : s.Follows steps stop n taken)
    (hsteps : ∀ n, (Scanner.stepAt steps stop n).after.next =
      .ok (Scanner.stepAt steps stop (n + 1))) (calls : List SessionCall) :
    ∃ answers last, s.callAll calls = .ok (answers, last) ∧
      Answers steps stop n calls answers ∧
      last.Follows steps stop (n + calls.count .next)
        (taken ++ answers.flatMap SessionAnswer.reports) := by
  induction calls generalizing s n taken with
  | nil =>
      refine ⟨[], s, rfl, ⟨rfl, ?_⟩, ?_⟩
      · intro before a after t hsplit
        cases before <;> cases hsplit
      · rwa [List.flatMap_nil, List.append_nil]
  | cons c calls ih =>
      obtain ⟨a, after, hcall, rfl, htoken, hafter⟩ := h.call hsteps c
      obtain ⟨answers, last, hcalls, hanswers, hlast⟩ := ih hafter
      refine ⟨a :: answers, last, ?_, hanswers.cons htoken, ?_⟩
      · rw [callAll_cons, hcall]
        simp only [bind, Except.bind, hcalls]
        rfl
      · rwa [List.flatMap_cons, ← List.append_assoc, ← List.singleton_append, List.count_append,
          ← Nat.add_assoc]

/-- A session starts in front of the first token. -/
theorem exists_follows {source : Text} (h : (Scanner.start source).next =
    .ok (Scanner.stepAt steps stop 0)) :
    ∃ first, start source = .ok first ∧ first.Follows steps stop 0 [] := by
  refine ⟨⟨_, _, (Scanner.stepAt steps stop 0).diagnostics⟩, ?_, rfl, rfl, ?_⟩
  · rw [start, h]
    rfl
  · exact (Scanner.flatMap_take_succ steps stop 0).symm

end ScanSession

/-! ## Sessions against the whole scan -/

/-- A session can be called in any order.  The tokens it shows and hands out are those of the
whole scan by number, and behind them the end of the file at the end of the text, and what it
shows is what it hands out next.  All that has been taken, with what has not, are the problems
of one token more than have been handed out. -/
theorem scanSession_serves_scan (source : Text) (h : source.width < Offset.limit) :
    ∃ scanned steps first,
      scan source = .ok scanned ∧ Scanner.Scans (.start source) steps ∧
      scanned.tokens = steps.map ScanStep.token ∧
      scanned.diagnostics = steps.flatMap ScanStep.diagnostics ∧
      ScanSession.start source = .ok first ∧
      ∀ calls, ∃ answers last, first.callAll calls = .ok (answers, last) ∧
        answers.map SessionAnswer.call = calls ∧
        (∀ before a after t, answers = before ++ a :: after → a.token? = some t →
          t = scanned.tokens.getD (SessionAnswer.handedCount before) (.endAt source.width)) ∧
        (∃ after, last.next = .ok (last.peek, after)) ∧
        answers.flatMap SessionAnswer.reports ++ last.takeDiagnostics.1 =
          (steps.take (calls.count .next + 1)).flatMap ScanStep.diagnostics := by
  obtain ⟨scanned, steps, hscan, hscans, htokens, hreports⟩ := exists_scans source h
  obtain ⟨hstart, hsteps⟩ := hscans.next_stepAt (Scanner.at_start source)
  obtain ⟨first, hfirst, hfollows⟩ := ScanSession.exists_follows hstart
  refine ⟨scanned, steps, first, hscan, hscans, htokens, hreports, hfirst, fun calls => ?_⟩
  obtain ⟨answers, last, hcalls, hanswers, hlast⟩ := hfollows.callAll hsteps calls
  obtain ⟨after, hnext, _⟩ := hlast.next_eq hsteps
  rw [Nat.zero_add] at hlast
  refine ⟨answers, last, hcalls, hanswers.calls_eq, ?_, ⟨after, hnext⟩, hlast.reports_eq⟩
  intro before a later t hsplit ht
  rw [hanswers.token_eq before a later t hsplit ht, Nat.zero_add, htokens, Scanner.token_stepAt]

theorem scanSession_serves_raggedSource :
    raggedSource.width < Offset.limit ∧
      ∃ scanned steps first,
        scan raggedSource = .ok scanned ∧ Scanner.Scans (.start raggedSource) steps ∧
        scanned.tokens = steps.map ScanStep.token ∧
        scanned.diagnostics = steps.flatMap ScanStep.diagnostics ∧
        ScanSession.start raggedSource = .ok first ∧
        ∀ calls, ∃ answers last, first.callAll calls = .ok (answers, last) ∧
          answers.map SessionAnswer.call = calls ∧
          (∀ before a after t, answers = before ++ a :: after → a.token? = some t →
            t = scanned.tokens.getD (SessionAnswer.handedCount before)
              (.endAt raggedSource.width)) ∧
          (∃ after, last.next = .ok (last.peek, after)) ∧
          answers.flatMap SessionAnswer.reports ++ last.takeDiagnostics.1 =
            (steps.take (calls.count .next + 1)).flatMap ScanStep.diagnostics :=
  ⟨width_raggedSource, scanSession_serves_scan raggedSource width_raggedSource⟩

end Verbatim
