/-
  Runs of trivia as lists of pieces.

  A run keeps the text of all its pieces in one place, so a run can be
  inconsistent: its pieces need not cover its text, and its facts need not be
  those of its pieces.  A run is regular if it is the run of some list of trivia.
  Regular runs are closed under concatenation, cutting a text into the pieces of
  a list of trivia gives the regular run of that list, and of a regular run the
  width and the facts can be read off the pieces.
-/
import Verbatim.Trivia.Basic

set_option autoImplicit false

namespace Verbatim

/-! ## Widths of pieces -/

/-- Width of the pieces of a run together. -/
def TriviaPiece.widthAll : List TriviaPiece → Nat
  | [] => 0
  | p :: rest => p.length + widthAll rest

namespace Offset

/-- Pieces that stay below the limit are added up without a fault. -/
theorem foldlM_add_eq (pieces : List TriviaPiece) (start : Nat)
    (h : start + TriviaPiece.widthAll pieces < limit) :
    (pieces.map TriviaPiece.length).foldlM add start =
      .ok (start + TriviaPiece.widthAll pieces) := by
  induction pieces generalizing start with
  | nil => rfl
  | cons p rest ih =>
      rw [TriviaPiece.widthAll] at h ⊢
      have hp : add start p.length = .ok (start + p.length) := by
        unfold add
        exact if_pos (by omega)
      rw [List.map_cons, List.foldlM_cons, hp]
      change (rest.map TriviaPiece.length).foldlM add (start + p.length) = _
      rw [ih (start + p.length) (by omega), Nat.add_assoc]

theorem sum_eq_ok {pieces : List TriviaPiece} (h : TriviaPiece.widthAll pieces < limit) :
    sum (pieces.map TriviaPiece.length) = .ok (TriviaPiece.widthAll pieces) := by
  have hsum := foldlM_add_eq pieces 0 (by omega)
  rwa [Nat.zero_add] at hsum

theorem foldlM_add_ok {pieces : List TriviaPiece} {start total : Nat}
    (h : (pieces.map TriviaPiece.length).foldlM add start = .ok total) :
    total = start + TriviaPiece.widthAll pieces := by
  induction pieces generalizing start with
  | nil => exact (Except.ok.inj h).symm
  | cons p rest ih =>
      rw [List.map_cons, List.foldlM_cons] at h
      by_cases hp : start + p.length < limit
      · have hadd : add start p.length = .ok (start + p.length) := if_pos hp
        rw [hadd] at h
        rw [ih h, TriviaPiece.widthAll, Nat.add_assoc]
      · have hadd : add start p.length = .error .sumTooLarge := if_neg hp
        rw [hadd] at h
        cases h

/-- Where pieces can be added up, the sum is their width. -/
theorem eq_widthAll_of_sum {pieces : List TriviaPiece} {total : Nat}
    (h : sum (pieces.map TriviaPiece.length) = .ok total) :
    total = TriviaPiece.widthAll pieces := by
  rw [foldlM_add_ok h, Nat.zero_add]

end Offset

/-! ## Facts about a run -/

namespace TriviaFlags

theorem union_assoc (a b c : TriviaFlags) : (a.union b).union c = a.union (b.union c) := by
  simp [union, Bool.or_assoc]

@[simp] theorem empty_union (a : TriviaFlags) : empty.union a = a := by
  simp [union, empty]

@[simp] theorem union_empty (a : TriviaFlags) : a.union empty = a := by
  simp [union, empty]

/-- The facts about the pieces of a run together. -/
def gather (items : List Trivia) : TriviaFlags :=
  items.foldl (fun flags t => flags.union t.flags) .empty

theorem foldl_union (items : List Trivia) (start : TriviaFlags) :
    items.foldl (fun flags t => flags.union t.flags) start = start.union (gather items) := by
  induction items generalizing start with
  | nil => simp [gather]
  | cons t rest ih =>
      rw [gather, List.foldl_cons, List.foldl_cons, ih, ih, empty_union, union_assoc]

@[simp] theorem gather_cons (t : Trivia) (rest : List Trivia) :
    gather (t :: rest) = t.flags.union (gather rest) := by
  rw [gather, List.foldl_cons, foldl_union, empty_union]

theorem gather_append (a b : List Trivia) : gather (a ++ b) = (gather a).union (gather b) := by
  rw [gather, List.foldl_append, foldl_union]
  rfl

/-- A fact that an empty run lacks and two runs have if one of them has it holds of a run
exactly if it holds of one of the pieces. -/
theorem gather_any {fact : TriviaFlags → Bool} (hempty : fact empty = false)
    (hunion : ∀ a b, fact (union a b) = (fact a || fact b)) (items : List Trivia) :
    fact (gather items) = items.any fun t => fact t.flags := by
  induction items with
  | nil => exact hempty
  | cons t rest ih => rw [gather_cons, hunion, List.any_cons, ih]

/-- A run has a comment exactly if one of its pieces is a comment. -/
theorem gather_comment (items : List Trivia) :
    (gather items).comment = items.any fun t => t.kind.isComment :=
  gather_any rfl (fun _ _ => rfl) items

/-- A run tells of a line break exactly if one of its pieces does. -/
theorem gather_newline (items : List Trivia) :
    (gather items).newline = items.any Trivia.hasNewline :=
  gather_any rfl (fun _ _ => rfl) items

/-- A run has skipped text exactly if one of its pieces is skipped text. -/
theorem gather_skippedText (items : List Trivia) :
    (gather items).skippedText = items.any fun t => t.kind == .skippedText :=
  gather_any rfl (fun _ _ => rfl) items

end TriviaFlags

/-! ## Runs of a list of trivia -/

namespace TriviaList

theorem ofList_text (items : List Trivia) : (ofList items).text = items.flatMap Trivia.text := by
  cases items <;> rfl

theorem ofList_pieces (items : List Trivia) : (ofList items).pieces = items.map Trivia.piece := by
  cases items <;> rfl

theorem ofList_flags (items : List Trivia) : (ofList items).flags = .gather items := by
  cases items <;> rfl

@[simp] theorem ofList_nil : ofList [] = empty := rfl

/-- The run of neighbouring lists is the concatenation of their runs. -/
theorem concat_ofList (a b : List Trivia) : (ofList a).concat (ofList b) = ofList (a ++ b) := by
  cases b with
  | nil => simp [concat, isEmpty, empty]
  | cons y b =>
      cases a with
      | nil => simp [concat, isEmpty, ofList, ofParts, empty]
      | cons x a =>
          have ha : (ofList (x :: a)).isEmpty = false := by simp [isEmpty, ofList_pieces]
          have hb : (ofList (y :: b)).isEmpty = false := by simp [isEmpty, ofList_pieces]
          unfold concat
          rw [if_neg (by simp [hb]), if_neg (by simp [ha]), ofList_text, ofList_text,
            ofList_pieces, ofList_pieces, ofList_flags, ofList_flags,
            ← TriviaFlags.gather_append, ← List.flatMap_append, ← List.map_append]
          rfl

end TriviaList

/-- A text that starts with the pieces of a list of trivia is cut into them. -/
theorem cutPieces_map_piece (items : List Trivia) (rest : Text) :
    cutPieces (items.flatMap Trivia.text ++ rest) (items.map Trivia.piece) = .ok items := by
  induction items with
  | nil => rfl
  | cons t items ih =>
      have hcut := Text.splitAt?_append t.text (items.flatMap Trivia.text ++ rest)
      simp only [List.flatMap_cons, List.map_cons, List.append_assoc, cutPieces]
      rw [show t.piece.length = t.text.width from rfl, hcut]
      simp only [ih]
      rfl

theorem width_flatMap_text (items : List Trivia) :
    Text.width (items.flatMap Trivia.text) =
      TriviaPiece.widthAll (items.map Trivia.piece) := by
  induction items with
  | nil => rfl
  | cons t rest ih =>
      simp only [List.flatMap_cons, Text.width_append, ih, List.map_cons, TriviaPiece.widthAll]
      rfl

/-- Cutting a text into the pieces of a list of trivia gives the run of the list,
as long as offsets can count the text. -/
theorem TriviaList.ofPieces_map_piece (items : List Trivia)
    (h : Text.width (items.flatMap Trivia.text) < Offset.limit) :
    ofPieces (items.flatMap Trivia.text) (items.map Trivia.piece) = .ok (ofList items) := by
  have hsum := Offset.sum_eq_ok (by rwa [width_flatMap_text] at h)
  have hcut := cutPieces_map_piece items []
  rw [List.append_nil] at hcut
  unfold ofPieces
  rw [hsum]
  simp only [bind, Except.bind, ← width_flatMap_text, ne_eq, not_true_eq_false, if_false, hcut]
  rfl

/-- The pieces that a text is cut into spell the front of it. -/
theorem exists_of_cutPieces {t : Text} {pieces : List TriviaPiece} {items : List Trivia}
    (h : cutPieces t pieces = .ok items) :
    items.map Trivia.piece = pieces ∧ ∃ rest, t = items.flatMap Trivia.text ++ rest := by
  induction pieces generalizing t items with
  | nil =>
      cases h
      exact ⟨rfl, t, rfl⟩
  | cons p pieces ih =>
      rw [cutPieces] at h
      split at h
      · cases h
      · rename_i front back hcut
        obtain ⟨rfl, hwidth⟩ := Text.eq_append_of_splitAt? hcut
        split at h
        · cases h
        · rename_i more hmore
          obtain ⟨hpieces, rest, rfl⟩ := ih hmore
          cases h
          refine ⟨?_, rest, by simp [List.append_assoc]⟩
          rw [List.map_cons, hpieces]
          simp [Trivia.piece, Trivia.width, hwidth]

/-- Where a text can be cut into pieces that cover it, the run is that of the pieces. -/
theorem TriviaList.exists_of_ofPieces {text : Text} {pieces : List TriviaPiece} {l : TriviaList}
    (h : ofPieces text pieces = .ok l) :
    ∃ items, text = items.flatMap Trivia.text ∧ pieces = items.map Trivia.piece ∧
      l = ofList items := by
  unfold ofPieces at h
  cases hsum : Offset.sum (pieces.map TriviaPiece.length) with
  | error e =>
      rw [hsum] at h
      cases h
  | ok total =>
      rw [hsum] at h
      simp only [bind, Except.bind] at h
      split at h
      · cases h
      · rename_i hcovers
        cases hcut : cutPieces text pieces with
        | error e =>
            rw [hcut] at h
            cases h
        | ok items =>
            rw [hcut] at h
            obtain ⟨rfl, rest, rfl⟩ := exists_of_cutPieces hcut
            -- The pieces have the width of the whole text, so nothing is left of it.
            have hwidth := Offset.eq_widthAll_of_sum hsum
            have hrest : rest.width = 0 := by
              rw [ne_eq, Decidable.not_not, Text.width_append, width_flatMap_text] at hcovers
              omega
            rw [Text.width_eq_zero_iff.mp hrest, List.append_nil] at h ⊢
            exact ⟨items, rfl, rfl, (Except.ok.inj h).symm⟩

/-- The pieces of a run that is made of a text are told by the text and their lengths. -/
theorem TriviaList.eq_ofList_of_ofPieces {text : Text} {pieces : List TriviaPiece}
    {l : TriviaList} {items : List Trivia} (h : ofPieces text pieces = .ok l)
    (htext : text = items.flatMap Trivia.text) (hpieces : pieces = items.map Trivia.piece) :
    l = ofList items := by
  obtain ⟨found, hfound, hfoundPieces, rfl⟩ := exists_of_ofPieces h
  have hcut := cutPieces_map_piece items []
  have hcut' := cutPieces_map_piece found []
  rw [List.append_nil, ← htext, ← hpieces] at hcut
  rw [List.append_nil, ← hfound, ← hfoundPieces, hcut] at hcut'
  rw [Except.ok.inj hcut']

/-! ## Regular runs -/

/-- A run that a list of trivia makes. -/
def TriviaList.Regular (l : TriviaList) : Prop :=
  ∃ items, l = ofList items

namespace TriviaList

theorem regular_ofList (items : List Trivia) : (ofList items).Regular :=
  ⟨items, rfl⟩

theorem regular_empty : empty.Regular :=
  ⟨[], rfl⟩

/-- The pieces of the run of a list of trivia are the list again. -/
theorem toList_ofList (items : List Trivia) : (ofList items).toList = items := by
  have hcut := cutPieces_map_piece items []
  rw [List.append_nil] at hcut
  unfold toList
  rw [ofList_text, ofList_pieces, hcut]

/-- A regular run is the run of its own pieces. -/
theorem Regular.ofList_toList {l : TriviaList} (h : l.Regular) : ofList l.toList = l := by
  obtain ⟨items, rfl⟩ := h
  rw [toList_ofList]

theorem Regular.map_piece_toList {l : TriviaList} (h : l.Regular) :
    l.toList.map Trivia.piece = l.pieces := by
  rw [← ofList_pieces, h.ofList_toList]

theorem Regular.flatMap_text_toList {l : TriviaList} (h : l.Regular) :
    l.toList.flatMap Trivia.text = l.text := by
  rw [← ofList_text, h.ofList_toList]

theorem Regular.concat {a b : TriviaList} (ha : a.Regular) (hb : b.Regular) :
    (a.concat b).Regular := by
  obtain ⟨xs, rfl⟩ := ha
  obtain ⟨ys, rfl⟩ := hb
  exact ⟨xs ++ ys, concat_ofList xs ys⟩

theorem Regular.concat_text {a b : TriviaList} (ha : a.Regular) (hb : b.Regular) :
    (a.concat b).text = a.text ++ b.text := by
  obtain ⟨xs, rfl⟩ := ha
  obtain ⟨ys, rfl⟩ := hb
  rw [concat_ofList, ofList_text, ofList_text, ofList_text, List.flatMap_append]

theorem Regular.concat_pieces {a b : TriviaList} (ha : a.Regular) (hb : b.Regular) :
    (a.concat b).pieces = a.pieces ++ b.pieces := by
  obtain ⟨xs, rfl⟩ := ha
  obtain ⟨ys, rfl⟩ := hb
  rw [concat_ofList, ofList_pieces, ofList_pieces, ofList_pieces, List.map_append]

theorem Regular.concat_width {a b : TriviaList} (ha : a.Regular) (hb : b.Regular) :
    (a.concat b).width = a.width + b.width := by
  rw [width, ha.concat_text hb, Text.width_append]
  rfl

/-- The pieces of a regular run cover its text. -/
theorem Regular.width_eq {l : TriviaList} (h : l.Regular) :
    l.width = TriviaPiece.widthAll l.pieces := by
  obtain ⟨items, rfl⟩ := h
  rw [width, ofList_text, ofList_pieces, width_flatMap_text]

/-- A regular run has skipped text exactly if one of its pieces is skipped text. -/
theorem Regular.skippedText_eq {l : TriviaList} (h : l.Regular) :
    l.flags.skippedText = l.pieces.any fun p => p.kind == .skippedText := by
  obtain ⟨items, rfl⟩ := h
  rw [ofList_flags, TriviaFlags.gather_skippedText, ofList_pieces, List.any_map]
  rfl

end TriviaList

/-! ## Where skipped text lies -/

/-- Byte ranges of the skipped pieces of a run that starts at an offset. -/
def skippedRanges : Nat → List TriviaPiece → List (Nat × Nat)
  | _, [] => []
  | offset, p :: rest =>
      (if p.kind = .skippedText then [(offset, offset + p.length)] else []) ++
        skippedRanges (offset + p.length) rest

theorem skippedRanges_append (offset : Nat) (a b : List TriviaPiece) :
    skippedRanges offset (a ++ b) =
      skippedRanges offset a ++ skippedRanges (offset + TriviaPiece.widthAll a) b := by
  induction a generalizing offset with
  | nil => rfl
  | cons p rest ih =>
      simp only [List.cons_append, skippedRanges, ih, TriviaPiece.widthAll, List.append_assoc,
        Nat.add_assoc]

/-- Every skipped piece has one range. -/
theorem length_skippedRanges (offset : Nat) (pieces : List TriviaPiece) :
    (skippedRanges offset pieces).length = pieces.countP fun p => p.kind == .skippedText := by
  induction pieces generalizing offset with
  | nil => rfl
  | cons p rest ih =>
      rw [skippedRanges, List.length_append, ih, List.countP_cons, Nat.add_comm]
      by_cases hp : p.kind = .skippedText <;> simp [hp]

/-- Behind a regular run, the ranges of a second run start where the first one ends. -/
theorem TriviaList.Regular.skippedRanges_concat {a b : TriviaList} (ha : a.Regular)
    (hb : b.Regular) (offset : Nat) :
    skippedRanges offset (a.concat b).pieces =
      skippedRanges offset a.pieces ++ skippedRanges (offset + a.width) b.pieces := by
  rw [ha.concat_pieces hb, skippedRanges_append, ha.width_eq]

end Verbatim
