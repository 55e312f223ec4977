/-
  What a parser does to its state, one action at a time.

  Whatever a production does, it does by five actions: it reads the next token,
  it supplies a token that the source does not have, with a report or without one
  of its own, it skips the next token with a report, and it complains about the end
  of the file.  A run of a production is a sequence of such actions.  An action
  decides what becomes of the state and which tokens go into the tree, so a fact
  about whole runs follows from what one action does.
-/
import Verbatim.Parse.State
import Verbatim.Proofs.ScanTiling

set_option autoImplicit false

namespace Verbatim

/-! ## Actions -/

/-- One thing that a parser does. -/
inductive Action where
  /-- The next token goes into the tree. -/
  | read
  /-- A token that the source does not have goes into the tree and is reported. -/
  | supply (kind : Kind) (report : Diagnostic)
  /-- A token that the source does not have goes into the tree without a report. -/
  | fill (kind : Kind)
  /-- The next token is reported and becomes skipped text. -/
  | skip (message : String)
  /-- The end of the file is reported and stays where it is. -/
  | complain (message : String)
  deriving DecidableEq, Repr

namespace Action

/-- Takes a token off the sequence. -/
def consumes : Action → Bool
  | .read | .skip _ => true
  | _ => false

def isSupply : Action → Bool
  | .supply .. => true
  | _ => false

def isFill : Action → Bool
  | .fill _ => true
  | _ => false

def isComplaint : Action → Bool
  | .complain _ => true
  | _ => false

end Action

/-- The complaint about a body that the file ends in front of. -/
def statementExpected : String := "expected a statement"

/-- The token that stands in for one that the source does not have. -/
def Token.standIn (kind : Kind) : Token :=
  .make kind [] .empty .empty

namespace ParseState

/-- The next token, with the trivia that waits for it. -/
def nextToken (s : ParseState) : ScannedToken :=
  { s.peek with leading := s.skipped.concat s.peek.leading }

/-- The next token as a leaf of the tree. -/
def nextLeaf (s : ParseState) : Token :=
  .make s.peek.kind s.peek.text (s.skipped.concat s.peek.leading) s.peek.trailing

/-- The trivia that waits for a token once the next token is skipped, too. -/
def skippedWithNext (s : ParseState) : TriviaList :=
  ((s.skipped.concat s.peek.leading).concat (.ofList [⟨.skippedText, s.peek.text⟩])).concat
    s.peek.trailing

/-- The state after an action. -/
def act (s : ParseState) : Action → ParseState
  | .read => { s.consume with skipped := .empty }
  | .supply _ d => { s with diagnostics := s.diagnostics ++ [d] }
  | .fill _ => s
  | .skip message =>
      { (s.report s.peek.start s.peek.stop message).consume with skipped := s.skippedWithNext }
  | .complain message => s.report s.peek.start s.peek.stop message

/-- The tokens that an action puts into the tree. -/
def leavesOf (s : ParseState) : Action → List Token
  | .read => [s.nextLeaf]
  | .supply kind _ => [.standIn kind]
  | .fill kind => [.standIn kind]
  | .skip _ => []
  | .complain _ => []

/-- The action is one that a parser takes in the state. -/
def Allows (s : ParseState) : Action → Prop
  | .read => s.peekKind ≠ .eof
  | .supply kind d =>
      kind ≠ .eof ∧ d.message ≠ statementExpected ∧
        ((d.start = s.lastEnd ∧ d.stop = s.lastEnd) ∨
          (d.start = s.peek.start ∧ d.stop = s.peek.stop))
  | .fill kind => kind ≠ .eof
  | .skip _ => s.peekKind ≠ .eof
  | .complain message => s.peekKind = .eof ∧ message = statementExpected

/-- Only the end of the file lacks text. -/
def Textual (s : ParseState) : Prop :=
  ∀ t ∈ s.tokens, t.text = [] → t.kind = .eof

/-- The trivia that waits for a token is regular, and the tokens are well-formed. -/
structure Regular (s : ParseState) : Prop where
  skipped : s.skipped.Regular
  tokens : ∀ t ∈ s.tokens, t.WellFormed

/-- The end of the file comes last and only there. -/
def Ended (s : ParseState) : Prop :=
  ∃ front last, s.tokens = front ++ [last] ∧ last.kind = .eof ∧ ∀ t ∈ front, t.kind ≠ .eof

theorem tokens_of_peekKind_ne {s : ParseState} (h : s.peekKind ≠ .eof) :
    s.tokens = s.peek :: s.tokens.tail := by
  unfold peekKind peek at h
  unfold peek
  split at h
  · rename_i t rest htokens
    simp [htokens]
  · exact absurd rfl h

theorem peek_mem_of_peekKind_ne {s : ParseState} (h : s.peekKind ≠ .eof) : s.peek ∈ s.tokens := by
  rw [tokens_of_peekKind_ne h]
  exact List.mem_cons_self

/-- A token that has been peeked at is not the end of the file if it has another kind. -/
theorem length_tail {s : ParseState} (h : s.peekKind ≠ .eof) :
    s.tokens.tail.length + 1 = s.tokens.length := by
  have htokens := congrArg List.length (tokens_of_peekKind_ne h)
  rw [List.length_cons] at htokens
  exact htokens.symm

/-- In front of the end of the file nothing else is left. -/
theorem Ended.tokens_eq {s : ParseState} (h : s.Ended) (hpeek : s.peekKind = .eof) :
    s.tokens = [s.peek] := by
  obtain ⟨front, last, htokens, _, hfront⟩ := h
  cases front with
  | nil => rw [peek, htokens, List.nil_append]
  | cons t front =>
      rw [peekKind, peek, htokens] at hpeek
      exact absurd hpeek (hfront t List.mem_cons_self)

/-! ## Facts that one action keeps -/

theorem tokens_act (s : ParseState) (a : Action) :
    (s.act a).tokens = if a.consumes then s.tokens.tail else s.tokens := by
  cases a <;> rfl

theorem Textual.act {s : ParseState} (h : s.Textual) (a : Action) : (s.act a).Textual := by
  intro t ht
  rw [tokens_act] at ht
  split at ht
  · exact h t (List.mem_of_mem_tail ht)
  · exact h t ht

/-- Actions that take a token off the sequence take another one than the end of the file. -/
theorem Allows.peekKind_ne {s : ParseState} {a : Action} (h : s.Allows a)
    (ha : a.consumes = true) : s.peekKind ≠ .eof := by
  cases a with
  | read => exact h
  | skip _ => exact h
  | supply _ _ => cases ha
  | fill _ => cases ha
  | complain _ => cases ha

theorem Regular.regular_nextLeaf_leading {s : ParseState} (h : s.Regular)
    (hpeek : s.peek ∈ s.tokens) :
    s.nextLeaf.leading.Regular :=
  h.skipped.concat (h.tokens _ hpeek).leading

theorem Regular.regular_skippedWithNext {s : ParseState} (h : s.Regular)
    (hpeek : s.peek ∈ s.tokens) :
    s.skippedWithNext.Regular :=
  ((h.regular_nextLeaf_leading hpeek).concat (TriviaList.regular_ofList _)).concat
    (h.tokens _ hpeek).trailing

theorem Allows.regular_act {s : ParseState} {a : Action} (h : s.Allows a) (hs : s.Regular) :
    (s.act a).Regular := by
  cases a with
  | read => exact ⟨TriviaList.regular_empty, fun t ht => hs.tokens t (List.mem_of_mem_tail ht)⟩
  | skip _ =>
      exact ⟨hs.regular_skippedWithNext (peek_mem_of_peekKind_ne h),
        fun t ht => hs.tokens t (List.mem_of_mem_tail ht)⟩
  | supply _ _ => exact ⟨hs.skipped, hs.tokens⟩
  | fill _ => exact hs
  | complain _ => exact ⟨hs.skipped, hs.tokens⟩

theorem Allows.length_act {s : ParseState} {a : Action} (h : s.Allows a) :
    (s.act a).tokens.length + (if a.consumes then 1 else 0) = s.tokens.length := by
  rw [tokens_act]
  by_cases ha : a.consumes = true
  · rw [if_pos ha, if_pos ha, length_tail (h.peekKind_ne ha)]
  · rw [if_neg ha, if_neg ha, Nat.add_zero]

theorem Allows.ended_act {s : ParseState} {a : Action} (h : s.Allows a) (hs : s.Ended) :
    (s.act a).Ended := by
  obtain ⟨front, last, htokens, hlast, hfront⟩ := hs
  unfold Ended
  rw [tokens_act]
  by_cases ha : a.consumes = true
  · have hne := h.peekKind_ne ha
    rw [if_pos ha]
    cases front with
    | nil =>
        rw [List.nil_append] at htokens
        exact absurd (by simp [peekKind, peek, htokens, hlast]) hne
    | cons t front =>
        exact ⟨front, last, by simp [htokens], hlast, (List.forall_mem_cons.mp hfront).2⟩
  · rw [if_neg ha]
    exact ⟨front, last, htokens, hlast, hfront⟩

/-- At the end of the file no action moves on. -/
theorem Allows.peekKind_act {s : ParseState} {a : Action} (h : s.Allows a)
    (hs : s.peekKind = .eof) : (s.act a).peekKind = .eof := by
  cases a with
  | read => exact absurd hs h
  | skip _ => exact absurd hs h
  | supply _ _ => exact hs
  | fill _ => exact hs
  | complain _ => exact hs

/-- The tree takes no end of the file from an action. -/
theorem Allows.leaf_kind_ne {s : ParseState} {a : Action} (h : s.Allows a) :
    ∀ t ∈ s.leavesOf a, t.kind ≠ .eof := by
  cases a with
  | read => exact List.forall_mem_singleton.mpr h
  | supply _ _ => exact List.forall_mem_singleton.mpr h.1
  | fill _ => exact List.forall_mem_singleton.mpr h
  | skip _ => exact List.forall_mem_nil _
  | complain _ => exact List.forall_mem_nil _

end ParseState

/-! ## Runs -/

/-- A run of actions from one state to another, with the tokens that it puts into
the tree. -/
inductive Steps : ParseState → List Action → List Token → ParseState → Prop where
  | refl (s : ParseState) : Steps s [] [] s
  | cons {s t : ParseState} {a : Action} {actions : List Action} {leaves : List Token} :
      s.Allows a → Steps (s.act a) actions leaves t →
        Steps s (a :: actions) (s.leavesOf a ++ leaves) t

namespace Steps

theorem single {s : ParseState} {a : Action} (h : s.Allows a) :
    Steps s [a] (s.leavesOf a) (s.act a) := by
  have hone := Steps.cons h (.refl (s.act a))
  rwa [List.append_nil] at hone

theorem trans {s t u : ParseState} {as bs : List Action} {xs ys : List Token}
    (h : Steps s as xs t) (h' : Steps t bs ys u) : Steps s (as ++ bs) (xs ++ ys) u := by
  induction h with
  | refl s => exact h'
  | cons ha _ ih =>
      rw [List.cons_append, List.append_assoc]
      exact .cons ha (ih h')

variable {s t : ParseState} {actions : List Action} {leaves : List Token}

/-- Every token that a run takes off the sequence is counted once. -/
theorem length_eq (h : Steps s actions leaves t) :
    t.tokens.length + actions.countP Action.consumes = s.tokens.length := by
  induction h with
  | refl s => rfl
  | cons ha _ ih =>
      have hact := ha.length_act
      rw [List.countP_cons]
      omega

theorem length_le (h : Steps s actions leaves t) : t.tokens.length ≤ s.tokens.length := by
  have hlength := h.length_eq
  omega

/-- A run takes tokens off the front of the sequence. -/
theorem tokens_eq (h : Steps s actions leaves t) :
    t.tokens = s.tokens.drop (actions.countP Action.consumes) := by
  induction h with
  | refl s => rfl
  | @cons s t a actions leaves ha _ ih =>
      rw [ih, ParseState.tokens_act, List.countP_cons]
      by_cases hconsumes : a.consumes = true
      · rw [if_pos hconsumes, if_pos hconsumes, List.drop_tail]
      · rw [if_neg hconsumes, if_neg hconsumes]
        rfl

/-- Where a run takes no token off the sequence, the same token comes next. -/
theorem peekKind_eq (h : Steps s actions leaves t)
    (hlength : t.tokens.length = s.tokens.length) : t.peekKind = s.peekKind := by
  have hnone : actions.countP Action.consumes = 0 := by
    have hcount := h.length_eq
    omega
  have htokens := h.tokens_eq
  rw [hnone, List.drop_zero] at htokens
  unfold ParseState.peekKind ParseState.peek
  rw [htokens]
  split <;> rfl

theorem textual (h : Steps s actions leaves t) (hs : s.Textual) : t.Textual := by
  induction h with
  | refl s => exact hs
  | cons _ _ ih => exact ih (hs.act _)

theorem regular (h : Steps s actions leaves t) (hs : s.Regular) : t.Regular := by
  induction h with
  | refl s => exact hs
  | cons ha _ ih => exact ih (ha.regular_act hs)

theorem ended (h : Steps s actions leaves t) (hs : s.Ended) : t.Ended := by
  induction h with
  | refl s => exact hs
  | cons ha _ ih => exact ih (ha.ended_act hs)

theorem peekKind_eof (h : Steps s actions leaves t) (hs : s.peekKind = .eof) :
    t.peekKind = .eof := by
  induction h with
  | refl s => exact hs
  | cons ha _ ih => exact ih (ha.peekKind_act hs)

theorem leaf_kind_ne (h : Steps s actions leaves t) : ∀ leaf ∈ leaves, leaf.kind ≠ .eof := by
  induction h with
  | refl s => exact List.forall_mem_nil _
  | cons ha _ ih =>
      intro leaf hleaf
      rcases List.mem_append.mp hleaf with hleaf | hleaf
      · exact ha.leaf_kind_ne leaf hleaf
      · exact ih leaf hleaf

end Steps

/-! ## Complaints -/

/-- Nothing in the run complains about the end of the file. -/
def Quiet (actions : List Action) : Prop :=
  actions.countP Action.isComplaint = 0

/-- The run complains about the end of the file at most once, and then it is there. -/
def Settled (actions : List Action) (t : ParseState) : Prop :=
  Quiet actions ∨ (actions.countP Action.isComplaint = 1 ∧ t.peekKind = .eof)

theorem quiet_nil : Quiet [] := rfl

theorem Quiet.append {as bs : List Action} (ha : Quiet as) (hb : Quiet bs) :
    Quiet (as ++ bs) := by
  unfold Quiet at *
  rw [List.countP_append, ha, hb]

theorem Quiet.settled {as : List Action} (h : Quiet as) (t : ParseState) : Settled as t :=
  .inl h

theorem Quiet.append_settled {as bs : List Action} {t : ParseState} (ha : Quiet as)
    (hb : Settled bs t) : Settled (as ++ bs) t := by
  rcases hb with hb | ⟨hb, ht⟩
  · exact .inl (ha.append hb)
  · refine .inr ⟨?_, ht⟩
    rw [List.countP_append, ha, hb]

/-- A run that has not come to the end of the file has not complained. -/
theorem Settled.quiet {as : List Action} {t : ParseState} (h : Settled as t)
    (ht : t.peekKind ≠ .eof) : Quiet as := by
  rcases h with h | ⟨_, heof⟩
  · exact h
  · exact absurd heof ht

theorem Settled.append_quiet {as bs : List Action} {t u : ParseState} {leaves : List Token}
    (ha : Settled as t) (hsteps : Steps t bs leaves u) (hb : Quiet bs) :
    Settled (as ++ bs) u := by
  rcases ha with ha | ⟨ha, ht⟩
  · exact .inl (ha.append hb)
  · refine .inr ⟨?_, hsteps.peekKind_eof ht⟩
    rw [List.countP_append, ha, hb]

end Verbatim
