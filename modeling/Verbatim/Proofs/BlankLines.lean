/-
  Where a blank line separates two tokens.

  The trivia behind one token and the trivia in front of the next are read as one run, with
  one fact kept: that nothing but white space has come since the last line break.  The fact
  is about the pieces that have been read, so a blank line is found exactly if the run has a
  line break whose nearest earlier piece, white space apart, is a line break too, or which
  only white space comes before in a run that starts a line.
-/
import Verbatim.Format.BlankLine
import Verbatim.Proofs.Construction

set_option autoImplicit false

namespace Verbatim

/-! ## Pieces in front of a line break -/

/-- All pieces are white space. -/
def OnlyBlanks (pieces : List Trivia) : Prop :=
  ∀ p ∈ pieces, p.kind = .whitespace

/-- The last piece that is not white space is a line break. -/
def EndsBehindBreak (pieces : List Trivia) : Prop :=
  ∃ front lineBreak blanks, pieces = front ++ lineBreak :: blanks ∧
    lineBreak.kind = .newline ∧ OnlyBlanks blanks

theorem onlyBlanks_cons {p : Trivia} {rest : List Trivia} :
    OnlyBlanks (p :: rest) ↔ p.kind = .whitespace ∧ OnlyBlanks rest :=
  List.forall_mem_cons

theorem not_endsBehindBreak_nil : ¬ EndsBehindBreak [] := by
  rintro ⟨front, _, blanks, hsplit, _⟩
  exact List.append_ne_nil_of_right_ne_nil front (List.cons_ne_nil _ _) hsplit.symm

/-- One more piece in front counts only if it is the line break itself. -/
theorem endsBehindBreak_cons {p : Trivia} {rest : List Trivia} :
    EndsBehindBreak (p :: rest) ↔
      EndsBehindBreak rest ∨ (p.kind = .newline ∧ OnlyBlanks rest) := by
  constructor
  · rintro ⟨front, lineBreak, blanks, hsplit, hkind, hblanks⟩
    cases front with
    | nil =>
        obtain ⟨rfl, rfl⟩ := List.cons.inj hsplit
        exact .inr ⟨hkind, hblanks⟩
    | cons _ front =>
        obtain ⟨rfl, rfl⟩ := List.cons.inj hsplit
        exact .inl ⟨front, lineBreak, blanks, rfl, hkind, hblanks⟩
  · rintro (⟨front, lineBreak, blanks, rfl, hkind, hblanks⟩ | ⟨hkind, hblanks⟩)
    · exact ⟨p :: front, lineBreak, blanks, rfl, hkind, hblanks⟩
    · exact ⟨[], p, rest, rfl, hkind, hblanks⟩

/-! ## Reading a run -/

/-- A line break ends a blank line of a run.  Whether the first line of the run has been
blank so far depends on what comes before the run. -/
def HasBlankLine (atLineStart : Prop) (pieces : List Trivia) : Prop :=
  ∃ before lineBreak after, pieces = before ++ lineBreak :: after ∧ lineBreak.kind = .newline ∧
    (EndsBehindBreak before ∨ (atLineStart ∧ OnlyBlanks before))

theorem not_hasBlankLine_nil {atLineStart : Prop} : ¬ HasBlankLine atLineStart [] := by
  rintro ⟨before, _, after, hsplit, _⟩
  exact List.append_ne_nil_of_right_ne_nil before (List.cons_ne_nil _ _) hsplit.symm

/-- Either the first piece ends a blank line, or a later one does; for the later ones the
first piece settles whether their line has been blank so far. -/
theorem hasBlankLine_cons {atLineStart : Prop} {p : Trivia} {rest : List Trivia} :
    HasBlankLine atLineStart (p :: rest) ↔
      (p.kind = .newline ∧ atLineStart) ∨
        HasBlankLine (p.kind = .newline ∨ (p.kind = .whitespace ∧ atLineStart)) rest := by
  constructor
  · rintro ⟨before, lineBreak, after, hsplit, hkind, hline⟩
    cases before with
    | nil =>
        obtain ⟨rfl, rfl⟩ := List.cons.inj hsplit
        rcases hline with hbreak | ⟨hstart, _⟩
        · exact absurd hbreak not_endsBehindBreak_nil
        · exact .inl ⟨hkind, hstart⟩
    | cons _ before =>
        obtain ⟨rfl, rfl⟩ := List.cons.inj hsplit
        refine .inr ⟨before, lineBreak, after, rfl, hkind, ?_⟩
        rw [endsBehindBreak_cons, onlyBlanks_cons] at hline
        rcases hline with (hbreak | ⟨hfirst, hblanks⟩) | ⟨hstart, hfirst, hblanks⟩
        · exact .inl hbreak
        · exact .inr ⟨.inl hfirst, hblanks⟩
        · exact .inr ⟨.inr ⟨hfirst, hstart⟩, hblanks⟩
  · rintro (⟨hkind, hstart⟩ | ⟨before, lineBreak, after, rfl, hkind, hline⟩)
    · exact ⟨[], p, rest, rfl, hkind, .inr ⟨hstart, List.forall_mem_nil _⟩⟩
    · refine ⟨p :: before, lineBreak, after, rfl, hkind, ?_⟩
      rw [endsBehindBreak_cons, onlyBlanks_cons]
      rcases hline with hbreak | ⟨hfirst | ⟨hfirst, hstart⟩, hblanks⟩
      · exact .inl (.inl hbreak)
      · exact .inl (.inr ⟨hfirst, hblanks⟩)
      · exact .inr ⟨hstart, hfirst, hblanks⟩

/-- One step of the reader: the first piece may end a blank line, and it settles what is kept
for the rest. -/
theorem hasBlankLine_step (atLineStart : Bool) (k : TriviaKind) (rest : List TriviaKind) :
    hasBlankLine atLineStart (k :: rest) =
      ((k == .newline && atLineStart) ||
        hasBlankLine (k == .newline || (k == .whitespace && atLineStart)) rest) := by
  cases k <;> rfl

/-- The reader finds a blank line exactly where there is one. -/
theorem hasBlankLine_iff (atLineStart : Bool) (pieces : List Trivia) :
    hasBlankLine atLineStart (pieces.map Trivia.kind) = true ↔
      HasBlankLine (atLineStart = true) pieces := by
  induction pieces generalizing atLineStart with
  | nil => exact iff_of_false Bool.false_ne_true not_hasBlankLine_nil
  | cons p rest ih =>
      rw [List.map_cons, hasBlankLine_step, Bool.or_eq_true, ih, hasBlankLine_cons]
      simp only [Bool.or_eq_true, Bool.and_eq_true, beq_iff_eq]

/-! ## Between two tokens -/

namespace Token

/-- The pieces behind the previous token, if there is one, and those in front of a token. -/
def piecesBefore (t : Token) (previous : Option Token) : List Trivia :=
  (previous.elim [] fun p => p.trailing.toList) ++ t.leading.toList

/-- The trivia on both sides is read as one run, which starts a line if there is no token
before it. -/
theorem Regular.blankLineBefore_eq {t : Token} {previous : Option Token} (h : t.Regular)
    (hprevious : ∀ p, previous = some p → p.Regular) :
    t.blankLineBefore previous =
      hasBlankLine previous.isNone ((t.piecesBefore previous).map Trivia.kind) := by
  cases previous with
  | none => rfl
  | some p =>
      obtain ⟨behind, hbehind⟩ := (hprevious p rfl).trailing
      obtain ⟨front, hfront⟩ := h.leading
      rw [blankLineBefore, piecesBefore]
      simp only [Option.elim_some, hbehind, hfront, TriviaList.concat_ofList,
        TriviaList.toList_ofList]

/-- A blank line separates a token from the one before it exactly if, among the pieces between
them, the nearest piece in front of a line break that is not white space is a line break too,
or, where no token comes before, nothing but white space stands in front of a line break. -/
theorem blankLineBefore_iff (t : Token) (previous : Option Token)
    (ht : (Element.token t).Constructed)
    (hprevious : ∀ p, previous = some p → (Element.token p).Constructed) :
    t.blankLineBefore previous = true ↔
      ∃ before lineBreak after,
        t.piecesBefore previous = before ++ lineBreak :: after ∧ lineBreak.kind = .newline ∧
          (EndsBehindBreak before ∨ (previous = none ∧ OnlyBlanks before)) := by
  have hregular : t.Regular := ht.regular.of_token
  rw [hregular.blankLineBefore_eq fun p hp => (hprevious p hp).regular.of_token,
    hasBlankLine_iff, Option.isNone_iff_eq_none]
  rfl

/-- A name whose line ends behind a blank. -/
def endedName : Token :=
  .make .identifier "a".toList .empty
    (.ofList [⟨.whitespace, " ".toList⟩, ⟨.newline, "\r\n".toList⟩])

/-- A name behind a line of its own white space and skipped text on the line of the name. -/
def strayedName : Token :=
  .make .identifier "b".toList
    (.ofList [⟨.whitespace, "\t".toList⟩, ⟨.newline, "\n".toList⟩, ⟨.skippedText, "@".toList⟩])
    .empty

/-- The blank line starts behind the one name and ends in front of the other, and without the
first name it is the first line. -/
theorem blankLineBefore_strayedName :
    (Element.token strayedName).Constructed ∧ (Element.token endedName).Constructed ∧
      (∃ before lineBreak after,
        strayedName.piecesBefore (some endedName) = before ++ lineBreak :: after ∧
          lineBreak.kind = .newline ∧
          (EndsBehindBreak before ∨ (some endedName = none ∧ OnlyBlanks before))) ∧
      ∃ before lineBreak after,
        strayedName.piecesBefore none = before ++ lineBreak :: after ∧
          lineBreak.kind = .newline ∧
          (EndsBehindBreak before ∨ ((none : Option Token) = none ∧ OnlyBlanks before)) := by
  have hstrayed : (Element.token strayedName).Constructed :=
    .of_make .identifier rfl _ (.ofList _) .empty
  have hended : (Element.token endedName).Constructed :=
    .of_make .identifier rfl _ .empty (.ofList _)
  have hbehind := blankLineBefore_iff strayedName (some endedName) hstrayed
    fun p hp => Option.some.inj hp ▸ hended
  have hfirst := blankLineBefore_iff strayedName none hstrayed
    fun p hp => absurd hp.symm (Option.some_ne_none p)
  exact ⟨hstrayed, hended, hbehind.mp (by decide), hfirst.mp (by decide)⟩

end Token

end Verbatim
