/-
  Handing out the pieces of a run from both ends.

  A cursor cuts pieces off the text that is left, on the one end by their length and on the
  other by what their length leaves of the width.  Both cuts are on a seam as long as what is
  left of the text is the text of the pieces that are left.  Every call keeps this, so under
  any calls a cursor is a queue that is open at both ends.
-/
import Verbatim.Trivia.Cursor
import Verbatim.Proofs.Construction
import Verbatim.Proofs.TextParts

set_option autoImplicit false

namespace Verbatim

open Text

/-! ## Pieces and slices -/

/-- What pieces cut out of a text: trivia of the kinds of the pieces, each with the slice of
the text that starts behind the pieces in front of it. -/
structure SlicesOf (text : Text) (pieces : List TriviaPiece) (items : List Trivia) : Prop where
  length_eq : items.length = pieces.length
  slice : ∀ i t, items[i]? = some t → ∃ p, pieces[i]? = some p ∧ t.kind = p.kind ∧
    text.slice? (TriviaPiece.widthAll (pieces.take i))
      (TriviaPiece.widthAll (pieces.take i) + p.length) = some t.text

/-- Pieces cover a text, and each of their seams falls between two characters of it. -/
structure PiecesFit (text : Text) (pieces : List TriviaPiece) : Prop where
  covers : TriviaPiece.widthAll pieces = text.width
  seams : ∀ n ≤ pieces.length, text.IsBoundary (TriviaPiece.widthAll (pieces.take n))

theorem widthAll_take_map_piece (items : List Trivia) (n : Nat) :
    TriviaPiece.widthAll ((items.map Trivia.piece).take n) =
      width ((items.take n).flatMap Trivia.text) := by
  rw [← List.map_take, width_flatMap_text]

theorem slicesOf_map_piece (items : List Trivia) :
    SlicesOf (items.flatMap Trivia.text) (items.map Trivia.piece) items where
  length_eq := (List.length_map _).symm
  slice := by
    intro i t ht
    obtain ⟨hi, rfl⟩ := List.getElem?_eq_some_iff.mp ht
    have hsplit : items.flatMap Trivia.text =
        (items.take i).flatMap Trivia.text ++ items[i].text ++
          (items.drop (i + 1)).flatMap Trivia.text := by
      rw [List.append_assoc, ← List.flatMap_cons, ← List.drop_eq_getElem_cons hi,
        ← List.flatMap_append, List.take_append_drop]
    refine ⟨items[i].piece, by rw [List.getElem?_map, ht]; rfl, rfl, ?_⟩
    rw [widthAll_take_map_piece, hsplit]
    exact slice?_append _ _ _

/-- Every seam between the pieces of a run falls between two characters. -/
theorem isBoundary_widthAll_take (items : List Trivia) (n : Nat) :
    IsBoundary (items.flatMap Trivia.text)
      (TriviaPiece.widthAll ((items.map Trivia.piece).take n)) := by
  have hsplit : items.flatMap Trivia.text =
      (items.take n).flatMap Trivia.text ++ (items.drop n).flatMap Trivia.text := by
    rw [← List.flatMap_append, List.take_append_drop]
  rw [widthAll_take_map_piece, hsplit]
  exact isBoundary_append _ _

/-- A text can be cut where all seams are boundaries. -/
theorem exists_cutPieces {t : Text} {pieces : List TriviaPiece}
    (h : ∀ n ≤ pieces.length, t.IsBoundary (TriviaPiece.widthAll (pieces.take n))) :
    ∃ items, cutPieces t pieces = .ok items := by
  induction pieces generalizing t with
  | nil => exact ⟨[], rfl⟩
  | cons p rest ih =>
      obtain ⟨front, back, rfl, hfront⟩ : ∃ front back, t = front ++ back ∧
          width front = p.length := isBoundary_iff.mp (h 1 (by simp))
      have hcut : splitAt? (front ++ back) p.length = some (front, back) := by
        rw [← hfront]
        exact splitAt?_append front back
      have hrest : ∀ n ≤ rest.length,
          back.IsBoundary (TriviaPiece.widthAll (rest.take n)) := by
        intro n hn
        have hseam := h (n + 1) (Nat.succ_le_succ hn)
        rw [List.take_succ_cons, TriviaPiece.widthAll, ← hfront] at hseam
        exact isBoundary_append_iff.mp hseam
      -- Behind the first piece, the seams are those of the rest.
      obtain ⟨items, hitems⟩ := ih hrest
      exact ⟨⟨p.kind, front⟩ :: items, by rw [cutPieces, hcut]; simp only [hitems]⟩

namespace TriviaList

theorem exists_ofPieces_iff {text : Text} (hlimit : text.width < Offset.limit)
    (pieces : List TriviaPiece) :
    (∃ l, ofPieces text pieces = .ok l) ↔ PiecesFit text pieces := by
  constructor
  · rintro ⟨l, hl⟩
    obtain ⟨items, rfl, rfl, _⟩ := exists_of_ofPieces hl
    exact ⟨(width_flatMap_text items).symm, fun n _ => isBoundary_widthAll_take items n⟩
  · rintro ⟨hcovers, hseams⟩
    obtain ⟨items, hitems⟩ := exists_cutPieces hseams
    have hsum : Offset.sum (pieces.map TriviaPiece.length) = .ok text.width := by
      rw [← hcovers] at hlimit ⊢
      exact Offset.sum_eq_ok hlimit
    refine ⟨ofParts text pieces (.gather items), ?_⟩
    simp only [ofPieces, hsum, hitems, ne_eq, not_true_eq_false, if_false, bind, Except.bind]
    rfl

end TriviaList

/-! ## A queue that is open at both ends -/

/-- The ends of a run. -/
inductive RunEnd where
  | front | back
  deriving DecidableEq, Repr

namespace RunEnd

/-- Takes what is at an end. -/
def draw {α : Type} : RunEnd → List α → Option α × List α
  | .front, items => (items.head?, items.tail)
  | .back, items => (items.getLast?, items.dropLast)

/-- Either nothing is left, or the end loses what is at it. -/
theorem draw_cases {α : Type} (side : RunEnd) (items : List α) :
    (items = [] ∧ side.draw items = (none, [])) ∨
      ∃ t rest, side.draw items = (some t, rest) ∧
        (side = .front ∧ items = t :: rest ∨ side = .back ∧ items = rest ++ [t]) := by
  cases side with
  | front =>
      cases items with
      | nil => exact .inl ⟨rfl, rfl⟩
      | cons t rest => exact .inr ⟨t, rest, rfl, .inl ⟨rfl, rfl⟩⟩
  | back =>
      rcases List.eq_nil_or_concat items with rfl | ⟨rest, t, rfl⟩
      · exact .inl ⟨rfl, rfl⟩
      · exact .inr ⟨t, rest, by simp [draw], .inr ⟨rfl, by simp⟩⟩

end RunEnd

/-- An answered call: the end that it was for, its answer, and the number of pieces that are
left behind it. -/
structure Handed where
  side : RunEnd
  piece : Option Trivia
  remaining : Nat
  deriving DecidableEq, Repr

namespace Handed

/-- The answer, if the call was for the given end. -/
def pieceAt (side : RunEnd) (h : Handed) : Option Trivia :=
  if h.side = side then h.piece else none

end Handed

/-- Draws from ends one after the other. -/
def drawAll : List RunEnd → List Trivia → List Handed × List Trivia
  | [], items => ([], items)
  | side :: sides, items =>
      let (piece, rest) := side.draw items
      let (handed, left) := drawAll sides rest
      (⟨side, piece, rest.length⟩ :: handed, left)

/-- What calls for ends hand out: from the front in order, from the back in reverse order, each
piece once and some left between them.  The number of pieces left is exact behind each call,
and there is no answer exactly if all have been handed out before. -/
structure HandsOut (items : List Trivia) (sides : List RunEnd) (handed : List Handed)
    (left : List Trivia) : Prop where
  sides_eq : handed.map Handed.side = sides
  covers : items = handed.filterMap (Handed.pieceAt .front) ++ left ++
    (handed.filterMap (Handed.pieceAt .back)).reverse
  remaining : ∀ before h after, handed = before ++ h :: after →
    h.remaining + ((before ++ [h]).filterMap Handed.piece).length = items.length
  exhausted : ∀ before h after, handed = before ++ h :: after →
    (h.piece = none ↔ (before.filterMap Handed.piece).length = items.length)

namespace HandsOut

theorem nil (items : List Trivia) : HandsOut items [] [] items where
  sides_eq := rfl
  covers := (List.append_nil items).symm
  remaining := by
    intro before h after hsplit
    cases before <;> cases hsplit
  exhausted := by
    intro before h after hsplit
    cases before <;> cases hsplit

theorem filterMap_cons_eq {α β : Type} (f : α → Option β) (a : α) (as : List α) :
    (a :: as).filterMap f = (f a).toList ++ as.filterMap f := by
  cases h : f a <;> simp [h]

/-- One more call in front of those on what it leaves. -/
theorem cons {items rest left : List Trivia} {sides : List RunEnd} {handed : List Handed}
    (first : Handed) (hremaining : first.remaining = rest.length)
    (hcovers : items = (first.pieceAt .front).toList ++ rest ++ (first.pieceAt .back).toList)
    (hcount : items.length = first.piece.toList.length + rest.length)
    (hnone : first.piece = none ↔ items.length = 0) (h : HandsOut rest sides handed left) :
    HandsOut items (first.side :: sides) (first :: handed) left where
  sides_eq := congrArg (first.side :: ·) h.sides_eq
  covers := by
    have hsingle (piece : Option Trivia) : piece.toList.reverse = piece.toList := by
      cases piece <;> rfl
    calc items = (first.pieceAt .front).toList ++ (handed.filterMap (Handed.pieceAt .front) ++
          left ++ (handed.filterMap (Handed.pieceAt .back)).reverse) ++
          (first.pieceAt .back).toList := by rw [← h.covers, hcovers]
      _ = _ := by simp only [filterMap_cons_eq, List.reverse_append, hsingle, List.append_assoc]
  remaining := by
    intro before next after hsplit
    cases before with
    | nil =>
        cases hsplit
        rw [List.nil_append, filterMap_cons_eq, hremaining, hcount, List.filterMap_nil,
          List.append_nil, Nat.add_comm]
    | cons _ before =>
        cases hsplit
        have hbehind := h.remaining before next after rfl
        rw [List.cons_append, filterMap_cons_eq, List.length_append, hcount]
        omega
  exhausted := by
    intro before next after hsplit
    cases before with
    | nil =>
        cases hsplit
        exact hnone.trans eq_comm
    | cons _ before =>
        cases hsplit
        have hbehind := h.exhausted before next after rfl
        rw [hbehind, filterMap_cons_eq, List.length_append, hcount]
        omega

/-- One more draw in front of those on what it leaves. -/
theorem draw {items left : List Trivia} {sides : List RunEnd} {handed : List Handed}
    {side : RunEnd} (h : HandsOut (side.draw items).2 sides handed left) :
    HandsOut items (side :: sides)
      (⟨side, (side.draw items).1, (side.draw items).2.length⟩ :: handed) left := by
  rcases side.draw_cases items with ⟨rfl, hdraw⟩ | ⟨t, rest, hdraw, hend⟩
  · rw [hdraw] at h ⊢
    exact cons ⟨side, none, 0⟩ rfl (by simp [Handed.pieceAt]) rfl (by simp) h
  · rw [hdraw] at h ⊢
    refine cons ⟨side, some t, rest.length⟩ rfl ?_ ?_ ?_ h
    all_goals rcases hend with ⟨rfl, rfl⟩ | ⟨rfl, rfl⟩ <;> simp [Handed.pieceAt, Nat.add_comm]

end HandsOut

/-- Draws hand out what is asked for. -/
theorem handsOut_drawAll (sides : List RunEnd) (items : List Trivia) :
    HandsOut items sides (drawAll sides items).1 (drawAll sides items).2 := by
  induction sides generalizing items with
  | nil => exact .nil items
  | cons side sides ih => exact .draw (ih (side.draw items).2)

/-! ## Cursors -/

namespace TriviaCursor

/-- Makes a call for an end. -/
def call (c : TriviaCursor) : RunEnd → Except Fault (Option Trivia × TriviaCursor)
  | .front => c.next
  | .back => c.nextBack

/-- Makes calls one after the other.  The first fault ends them. -/
def callAll (c : TriviaCursor) : List RunEnd → Except Fault (List Handed × TriviaCursor)
  | [] => .ok ([], c)
  | side :: sides => do
      let (piece, after) ← c.call side
      let (handed, last) ← after.callAll sides
      return (⟨side, piece, after.remaining⟩ :: handed, last)

/-- The cursor that has a list of trivia left. -/
def ofItems (items : List Trivia) : TriviaCursor :=
  ⟨items.flatMap Trivia.text, items.map Trivia.piece⟩

theorem remaining_ofItems (items : List Trivia) : (ofItems items).remaining = items.length :=
  List.length_map _

theorem next_ofItems_cons (t : Trivia) (rest : List Trivia) :
    (ofItems (t :: rest)).next = .ok (some t, ofItems rest) := by
  have hcut : splitAt? (t.text ++ rest.flatMap Trivia.text) t.piece.length =
      some (t.text, rest.flatMap Trivia.text) := splitAt?_append _ _
  simp only [next, ofItems, List.map_cons, List.flatMap_cons, hcut]
  rfl

theorem nextBack_ofItems_concat (rest : List Trivia) (t : Trivia) :
    (ofItems (rest ++ [t])).nextBack = .ok (some t, ofItems rest) := by
  have htext : (rest ++ [t]).flatMap Trivia.text = rest.flatMap Trivia.text ++ t.text := by
    rw [List.flatMap_append, List.flatMap_singleton]
  have hwidth : width (rest.flatMap Trivia.text ++ t.text) - t.piece.length =
      width (rest.flatMap Trivia.text) := by
    rw [width_append]
    exact Nat.add_sub_cancel _ _
  have hfits : t.piece.length ≤ width (rest.flatMap Trivia.text ++ t.text) := by
    rw [width_append]
    exact Nat.le_add_left _ _
  simp only [nextBack, ofItems, htext, List.map_append, List.map_cons, List.map_nil,
    List.getLast?_concat, List.dropLast_concat, if_pos hfits, hwidth, splitAt?_append]
  rfl

/-- A call draws from the end that it is for. -/
theorem call_ofItems (side : RunEnd) (items : List Trivia) :
    (ofItems items).call side = .ok ((side.draw items).1, ofItems (side.draw items).2) := by
  rcases side.draw_cases items with ⟨rfl, hdraw⟩ | ⟨t, rest, hdraw, hend⟩
  · rw [hdraw]
    cases side <;> rfl
  · rw [hdraw]
    rcases hend with ⟨rfl, rfl⟩ | ⟨rfl, rfl⟩
    · exact next_ofItems_cons t rest
    · exact nextBack_ofItems_concat rest t

theorem callAll_ofItems (sides : List RunEnd) (items : List Trivia) :
    (ofItems items).callAll sides =
      .ok ((drawAll sides items).1, ofItems (drawAll sides items).2) := by
  induction sides generalizing items with
  | nil => rfl
  | cons side sides ih =>
      simp only [callAll, call_ofItems, ih, remaining_ofItems, drawAll, bind, Except.bind]
      rfl

end TriviaCursor

/-! ## Reading a run -/

namespace TriviaList

theorem cursor_ofList (items : List Trivia) : (ofList items).cursor = .ofItems items := by
  rw [cursor, ofList_text, ofList_pieces]
  rfl

theorem count_ofList (items : List Trivia) : (ofList items).count = items.length := by
  rw [count, ofList_pieces, List.length_map]

theorem last?_ofList (items : List Trivia) : (ofList items).last? = items.getLast? := by
  have hcall : (TriviaCursor.ofItems items).nextBack =
      .ok (items.getLast?, .ofItems items.dropLast) := TriviaCursor.call_ofItems .back items
  rw [last?, cursor_ofList, hcall]

/-- A run reads as a list of trivia: its pieces cut the list out of its text, calls for its
ends hand the list out, and each piece can be asked for. -/
structure ReadsAs (l : TriviaList) (items : List Trivia) : Prop where
  slices : SlicesOf l.text l.pieces items
  start : l.cursor.remaining = items.length
  calls : ∀ sides, ∃ handed left last, l.cursor.callAll sides = .ok (handed, last) ∧
    last.remaining = left.length ∧ HandsOut items sides handed left
  get_ok : ∀ i t, l.get i = .ok t ↔ items[i]? = some t
  get_error : ∀ i e, l.get i = .error e ↔ e = .indexOutOfRange i l.count ∧ l.count ≤ i
  last : l.last? = items.getLast?

theorem readsAs_ofList (items : List Trivia) : (ofList items).ReadsAs items where
  slices := by
    rw [ofList_text, ofList_pieces]
    exact slicesOf_map_piece items
  start := count_ofList items
  calls := by
    intro sides
    refine ⟨_, _, _, ?_, TriviaCursor.remaining_ofItems _, handsOut_drawAll sides items⟩
    rw [cursor_ofList, TriviaCursor.callAll_ofItems]
  get_ok := by
    intro i t
    rw [get, toList_ofList]
    cases items[i]? <;> simp
  get_error := by
    intro i e
    rw [get, toList_ofList, count_ofList, ← List.getElem?_eq_none_iff]
    cases items[i]? <;> simp [eq_comm]
  last := last?_ofList items

/-- Pieces make a run of a text exactly if they fit it, and every run that can be obtained
reads from both ends as what its pieces cut out of its text. -/
theorem reads_from_both_ends :
    (∀ text pieces, Text.width text < Offset.limit →
      ((∃ l, ofPieces text pieces = .ok l) ↔ PiecesFit text pieces) ∧
        ((∃ fault, ofPieces text pieces = .error fault) ↔ ¬ PiecesFit text pieces)) ∧
      ∀ l : TriviaList, l.Constructed → ∃ items, l.ReadsAs items := by
  refine ⟨fun text pieces hlimit => ?_, fun l hl => ?_⟩
  · have hfit := exists_ofPieces_iff hlimit pieces
    refine ⟨hfit, ?_⟩
    rw [← hfit]
    cases ofPieces text pieces <;> simp
  · obtain ⟨items, rfl⟩ := hl.regular
    exact ⟨items, readsAs_ofList items⟩

/-- A character of two bytes between pieces without text.  A seam inside of it is refused, and
calls for both ends meet there. -/
theorem reads_from_both_ends_of_wide_character :
    let text := "é/**/".toList
    let run := concat (ofList [⟨.whitespace, []⟩, ⟨.skippedText, "é".toList⟩])
      (ofList [⟨.multiLineComment, "/**/".toList⟩, ⟨.whitespace, []⟩])
    Text.width text < Offset.limit ∧
      (∃ l, ofPieces text [⟨.whitespace, 0⟩, ⟨.skippedText, 2⟩, ⟨.multiLineComment, 4⟩] = .ok l) ∧
      (∃ fault, ofPieces text [⟨.skippedText, 1⟩, ⟨.multiLineComment, 5⟩] = .error fault) ∧
      run.Constructed ∧ (∃ items, run.ReadsAs items) ∧
      run.cursor.callAll [.back, .front, .back, .front, .back, .front] = .ok
        ([⟨.back, some ⟨.whitespace, []⟩, 3⟩, ⟨.front, some ⟨.whitespace, []⟩, 2⟩,
          ⟨.back, some ⟨.multiLineComment, "/**/".toList⟩, 1⟩,
          ⟨.front, some ⟨.skippedText, "é".toList⟩, 0⟩, ⟨.back, none, 0⟩, ⟨.front, none, 0⟩],
        ⟨[], []⟩) := by
  intro text run
  have hlimit : Text.width text < Offset.limit := by decide
  have hrun : run.Constructed := .concat (.ofList _) (.ofList _)
  refine ⟨hlimit, ?_, ?_, hrun, reads_from_both_ends.2 run hrun, rfl⟩
  · exact (reads_from_both_ends.1 text _ hlimit).1.mpr ⟨by decide, by decide⟩
  · exact (reads_from_both_ends.1 text _ hlimit).2.mpr fun hfit =>
      absurd (hfit.seams 1 (by decide)) (by decide)

end TriviaList

end Verbatim
