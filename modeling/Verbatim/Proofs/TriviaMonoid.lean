/-
  Runs of trivia form a monoid.

  A run comes about piece by piece from a list of trivia, by cutting a text, or from two runs
  whose facts are put together, and the run without pieces has a form of its own.  All of these
  give the run of a list, and to concatenate runs is to append their lists, so the laws are
  those of lists.
-/
import Verbatim.Proofs.TriviaCursor

set_option autoImplicit false

namespace Verbatim

attribute [ext] Trivia

/-- The text and the pieces determine what is cut out. -/
theorem SlicesOf.unique {text : Text} {pieces : List TriviaPiece} {items others : List Trivia}
    (h : SlicesOf text pieces items) (h' : SlicesOf text pieces others) : items = others := by
  refine List.ext_getElem (h.length_eq.trans h'.length_eq.symm) fun i hi hi' => ?_
  obtain ⟨p, hp, hkind, hslice⟩ := h.slice i items[i] (List.getElem?_eq_getElem hi)
  obtain ⟨p', hp', hkind', hslice'⟩ := h'.slice i others[i] (List.getElem?_eq_getElem hi')
  rw [hp] at hp'
  cases hp'
  rw [hslice] at hslice'
  exact Trivia.ext (hkind.trans hkind'.symm) (Option.some.inj hslice')

/-- The facts about a run are those that its pieces show. -/
structure TriviaFlags.TellsOf (flags : TriviaFlags) (items : List Trivia) : Prop where
  comment : flags.comment = true ↔ ∃ t ∈ items, t.kind.isComment = true
  newline : flags.newline = true ↔ ∃ t ∈ items, t.hasNewline = true
  skippedText : flags.skippedText = true ↔ ∃ t ∈ items, t.kind = .skippedText

theorem TriviaFlags.tellsOf_gather (items : List Trivia) : (gather items).TellsOf items where
  comment := by rw [gather_comment, List.any_eq_true]
  newline := by rw [gather_newline, List.any_eq_true]
  skippedText := by simp only [gather_skippedText, List.any_eq_true, beq_iff_eq]

namespace TriviaList

variable {a b c : TriviaList}

theorem Regular.concat_assoc (ha : a.Regular) (hb : b.Regular) (hc : c.Regular) :
    (a.concat b).concat c = a.concat (b.concat c) := by
  obtain ⟨xs, rfl⟩ := ha
  obtain ⟨ys, rfl⟩ := hb
  obtain ⟨zs, rfl⟩ := hc
  simp only [concat_ofList, List.append_assoc]

theorem Regular.empty_concat (ha : a.Regular) : empty.concat a = a := by
  obtain ⟨items, rfl⟩ := ha
  rw [← ofList_nil, concat_ofList, List.nil_append]

theorem concat_empty (a : TriviaList) : a.concat empty = a :=
  if_pos rfl

theorem slicesOf_ofList (items : List Trivia) :
    SlicesOf (ofList items).text (ofList items).pieces items :=
  (readsAs_ofList items).slices

/-- Concatenation appends, is associative, and has the empty run as its unit on both sides.
Cutting a text gives the run of what is cut out, and the facts about a run are those of what
its pieces cut out of its text. -/
theorem monoid_laws :
    (∀ xs ys, (ofList xs).concat (ofList ys) = ofList (xs ++ ys)) ∧
      (∀ a b c : TriviaList, a.Constructed → b.Constructed → c.Constructed →
        (a.concat b).concat c = a.concat (b.concat c)) ∧
      (∀ a : TriviaList, a.Constructed → empty.concat a = a ∧ a.concat empty = a) ∧
      (∀ text pieces l, ofPieces text pieces = .ok l →
        ∃ items, SlicesOf text pieces items ∧ l = ofList items) ∧
      ∀ l : TriviaList, l.Constructed → (∃ items, SlicesOf l.text l.pieces items) ∧
        ∀ items, SlicesOf l.text l.pieces items → l.flags.TellsOf items := by
  refine ⟨concat_ofList, ?_, ?_, ?_, ?_⟩
  · exact fun a b c ha hb hc => ha.regular.concat_assoc hb.regular hc.regular
  · exact fun a ha => ⟨ha.regular.empty_concat, a.concat_empty⟩
  · intro text pieces l hl
    obtain ⟨items, rfl, rfl, rfl⟩ := exists_of_ofPieces hl
    exact ⟨items, slicesOf_map_piece items, rfl⟩
  · intro l hl
    obtain ⟨items, rfl⟩ := hl.regular
    refine ⟨⟨items, slicesOf_ofList items⟩, fun others hothers => ?_⟩
    rw [hothers.unique (slicesOf_ofList items), ofList_flags]
    exact TriviaFlags.tellsOf_gather items

/-- A comment that holds a line break, behind skipped text and in front of a piece without
text: put together from both sides and cut from its text, the run is the same. -/
theorem monoid_laws_of_broken_comment :
    let skipped := ofList [⟨.skippedText, "@".toList⟩]
    let comment := ofList [⟨.multiLineComment, "/*\n*/".toList⟩]
    let blank := ofList [⟨.whitespace, []⟩]
    let run := (skipped.concat comment).concat blank
    skipped.Constructed ∧ comment.Constructed ∧ blank.Constructed ∧ run.Constructed ∧
      run = skipped.concat (comment.concat blank) ∧
      ofPieces "@/*\n*/".toList [⟨.skippedText, 1⟩, ⟨.multiLineComment, 5⟩, ⟨.whitespace, 0⟩] =
        .ok run ∧
      (∃ items, SlicesOf run.text run.pieces items) ∧
      ∀ items, SlicesOf run.text run.pieces items → run.flags.TellsOf items := by
  intro skipped comment blank run
  have hskipped : skipped.Constructed := .ofList _
  have hcomment : comment.Constructed := .ofList _
  have hblank : blank.Constructed := .ofList _
  have hrun : run.Constructed := (hskipped.concat hcomment).concat hblank
  obtain ⟨_, hassoc, _, _, hfacts⟩ := monoid_laws
  have hagree := hassoc _ _ _ hskipped hcomment hblank
  exact ⟨hskipped, hcomment, hblank, hrun, hagree, rfl, hfacts run hrun⟩

end TriviaList

end Verbatim
