/-
  What a tree keeps about itself is true of it.

  An element keeps its width and three facts about its subtree, and these are settled
  once, from the summaries of the children.  The summary of an element is that of its
  kind added to those of its children, so the width is a sum and each fact is a
  disjunction; by induction the sums reach the text, and the disjunctions reach the
  tokens and the nodes of the whole subtree.  An edit settles the summary anew, so a
  fact also goes when the only part that it holds of goes.
-/
import Mathlib.Algebra.GroupWithZero.Nat
import Verbatim.Tree.Coherence
import Verbatim.Proofs.Construction

set_option autoImplicit false

namespace Verbatim

/-! ## Adding summaries -/

namespace Measure

theorem zero_add (m : Measure) : zero.add m = m := by
  simp [zero, add, Flags.union, Flags.empty]

theorem add_assoc (a b c : Measure) : (a.add b).add c = a.add (b.add c) := by
  simp [add, Flags.union, Nat.add_assoc, Bool.or_assoc]

end Measure

namespace Element

/-- Neighbours are added to what is there already. -/
theorem foldl_measure (start : Measure) (es : List Element) :
    es.foldl (fun m e => m.add e.measure) start = start.add (measureAll es) := by
  induction es generalizing start with
  | nil => simp [measureAll, Measure.add, Measure.zero, Flags.union, Flags.empty]
  | cons e rest ih =>
      rw [measureAll, List.foldl_cons, List.foldl_cons, ih, ih (Measure.zero.add _),
        Measure.zero_add, Measure.add_assoc]

theorem measureAll_cons (e : Element) (rest : List Element) :
    measureAll (e :: rest) = e.measure.add (measureAll rest) := by
  rw [measureAll, List.foldl_cons, foldl_measure, Measure.zero_add]

theorem width_measureAll (es : List Element) :
    (measureAll es).width = (es.map Element.width).sum := by
  induction es with
  | nil => rfl
  | cons e rest ih =>
      rw [measureAll_cons, List.map_cons, List.sum_cons, ← ih]
      rfl

theorem typeScript_measureAll (es : List Element) :
    (measureAll es).flags.typeScript = es.any fun e => e.flags.typeScript := by
  induction es with
  | nil => rfl
  | cons e rest ih =>
      rw [measureAll_cons, List.any_cons, ← ih]
      rfl

/-- What an element that is no token keeps is what its kind adds to what its children
keep. -/
theorem Made.measure_eq {e : Element} (h : e.Made) (htoken : e.isToken = false) :
    e.measure = Measure.add ⟨0, ownFlags e.kind⟩ (measureAll e.children) := by
  cases h with
  | token kind text leading trailing => cases htoken
  | node kind children _ => exact foldl_measure _ children
  | list nodes _ => exact (Measure.zero_add _).symm
  | separated slots _ => exact (Measure.zero_add _).symm

theorem Made.width_eq_sum {e : Element} (h : e.Made) (htoken : e.isToken = false) :
    e.width = (e.children.map Element.width).sum := by
  have hwidth := congrArg Measure.width (h.measure_eq htoken)
  rw [← width_measureAll]
  exact hwidth.trans (Nat.zero_add _)

theorem Made.flags_eq {e : Element} (h : e.Made) (htoken : e.isToken = false) :
    e.flags = (ownFlags e.kind).union (measureAll e.children).flags :=
  congrArg Measure.flags (h.measure_eq htoken)

/-! ## The facts -/

/-- The nodes of an element that is no token are itself, if it is a node, and those of
its children. -/
theorem mem_nodes_iff {e n : Element} :
    n ∈ e.nodes ↔ (e.isNode = true ∧ n = e) ∨ ∃ c ∈ e.children, n ∈ c.nodes := by
  cases e with
  | token t => simp [nodes, isNode, category, children]
  | node kind measure cs =>
      rw [nodes, List.mem_cons, nodesAll_eq_flatMap, List.mem_flatMap]
      simp [isNode, category, children]
  | list measure cs =>
      rw [nodes, nodesAll_eq_flatMap, List.mem_flatMap]
      simp [isNode, category, children]
  | separated measure cs =>
      rw [nodes, nodesAll_eq_flatMap, List.mem_flatMap]
      simp [isNode, category, children]

/-- Only nodes are of kinds that are specific to typed sources. -/
theorem isNode_of_isTypeScriptSpecific {e : Element} (htoken : e.isToken = false)
    (h : e.kind.isTypeScriptSpecific = true) : e.isNode = true := by
  cases e with
  | token t => cases htoken
  | node _ _ _ => rfl
  | list _ _ => cases h
  | separated _ _ => cases h

theorem Made.typeScript_iff {e : Element} (h : e.Made) :
    e.flags.typeScript = true ↔ ∃ n ∈ e.nodes, n.kind.isTypeScriptSpecific = true := by
  induction e using Element.induction with
  | token t =>
      cases h with
      | token kind text leading trailing => simp [nodes, Element.flags, Token.make]
  | node kind measure children ih | list measure children ih | separated measure children ih =>
      have hflag := congrArg Flags.typeScript (h.flags_eq rfl)
      simp only [Flags.union, ownFlags, typeScript_measureAll] at hflag
      rw [hflag, Bool.or_eq_true, List.any_eq_true]
      constructor
      · rintro (hkind | ⟨c, hc, hflag⟩)
        · exact ⟨_, mem_nodes_iff.mpr (.inl ⟨isNode_of_isTypeScriptSpecific rfl hkind, rfl⟩), hkind⟩
        · obtain ⟨n, hn, hkind⟩ := (ih c hc (h.children c hc)).mp hflag
          exact ⟨n, mem_nodes_of_child hc hn, hkind⟩
      · rintro ⟨n, hn, hkind⟩
        rcases mem_nodes_iff.mp hn with ⟨_, rfl⟩ | ⟨c, hc, hn⟩
        · exact .inl hkind
        · exact .inr ⟨c, hc, (ih c hc (h.children c hc)).mpr ⟨n, hn, hkind⟩⟩

end Element

/-- A piece of skipped text stands in front of the token or behind it. -/
def Token.HoldsSkippedText (t : Token) : Prop :=
  ∃ p ∈ t.leading.pieces ++ t.trailing.pieces, p.kind = .skippedText

namespace Element

theorem Regular.leaves {e : Element} (h : e.Regular) :
    ∀ t ∈ e.leaves, (Element.token t).Regular := by
  induction h with
  | token kind text hleading htrailing =>
      exact List.forall_mem_singleton.mpr (.token kind text hleading htrailing)
  | node _ _ ih => exact forall_mem_leavesAll.mpr ih
  | list _ _ ih => exact forall_mem_leavesAll.mpr ih
  | separated _ _ _ ih => exact forall_mem_leavesAll.mpr ih

/-- A regular token keeps whether a piece of its trivia is skipped text. -/
theorem Regular.token_skippedText_iff {t : Token} (h : (Element.token t).Regular) :
    t.flags.skippedText = true ↔ t.HoldsSkippedText := by
  cases h with
  | token kind text hleading htrailing =>
      unfold Token.HoldsSkippedText
      simp only [Token.make, hleading.skippedText_eq, htrailing.skippedText_eq, ← List.any_append,
        List.any_eq_true, beq_iff_eq]

/-- A regular token keeps whether it lacks text that it should have. -/
theorem Regular.token_zeroWidth_iff {t : Token} (h : (Element.token t).Regular) :
    t.isZeroWidth = true ↔ t.text = [] ∧ t.kind ≠ .eof := by
  cases h with
  | token kind text _ _ => simp [Token.isZeroWidth, Token.make]

theorem Regular.skippedText_iff {e : Element} (h : e.Regular) :
    e.flags.skippedText = true ↔ ∃ t ∈ e.leaves, t.HoldsSkippedText := by
  have hwitnessed : e.flags.skippedText = e.leaves.any fun t => t.flags.skippedText :=
    h.made.witnessed.skippedText
  rw [hwitnessed, List.any_eq_true]
  exact exists_congr fun t =>
    and_congr_right fun ht => (h.leaves t ht).token_skippedText_iff

theorem Regular.zeroWidth_iff {e : Element} (h : e.Regular) :
    e.flags.zeroWidth = true ↔ ∃ t ∈ e.leaves, t.text = [] ∧ t.kind ≠ .eof := by
  have hwitnessed : e.flags.zeroWidth = e.leaves.any Token.isZeroWidth :=
    h.made.witnessed.zeroWidth
  rw [hwitnessed, List.any_eq_true]
  exact exists_congr fun t => and_congr_right fun ht => (h.leaves t ht).token_zeroWidth_iff

/-! ## The check -/

theorem Regular.checkToken_eq {t : Token} (h : (Element.token t).Regular) (start : Nat) :
    checkToken t start = .ok () := by
  cases h with
  | token kind text _ _ =>
      unfold checkToken
      rw [if_neg (not_not_intro (Token.width_fullText _))]
      exact if_neg (not_not_intro rfl)

theorem Made.checkMeasure_eq {e : Element} (h : e.Made) (htoken : e.isToken = false)
    (start : Nat) : e.checkMeasure start = .ok () := by
  have hwidth : e.width = (measureAll e.children).width := by
    rw [h.width_eq_sum htoken, width_measureAll]
  simp only [checkMeasure]
  rw [if_neg (not_not_intro hwidth), if_neg (not_not_intro (h.flags_eq htoken))]

theorem checkAlternation_eq {e : Element} (h : checkSlots 0 e.children = .ok ()) (start : Nat) :
    e.checkAlternation start = .ok () := by
  unfold checkAlternation
  rw [h]

/-- Neighbours pass the check, and it goes on behind them. -/
theorem checkAllFrom_eq {es : List Element}
    (h : ∀ e ∈ es, ∀ start, e.checkFrom start = .ok (start + e.width)) (start : Nat) :
    checkAllFrom es start = .ok (start + (es.map Element.width).sum) := by
  induction es generalizing start with
  | nil => rfl
  | cons e rest ih =>
      obtain ⟨he, hrest⟩ := List.forall_mem_cons.mp h
      rw [checkAllFrom, he start, List.map_cons, List.sum_cons, ← Nat.add_assoc]
      exact ih hrest _

/-- A regular element passes the check, and it goes on behind the element. -/
theorem Regular.checkFrom_eq {e : Element} (h : e.Regular) (start : Nat) :
    e.checkFrom start = .ok (start + e.width) := by
  have hmade := h.made
  induction h generalizing start with
  | token kind text hleading htrailing =>
      rw [checkFrom, Regular.checkToken_eq (.token kind text hleading htrailing)]
      rfl
  | node kind hchildren ih =>
      have hall := checkAllFrom_eq (fun c hc start => ih c hc start (hchildren c hc).made) start
      rw [hmade.width_eq_sum rfl, makeNode, checkFrom]
      rw [makeNode] at hmade
      rw [hmade.checkMeasure_eq rfl]
      exact hall
  | list hnodes _ ih =>
      have hall := checkAllFrom_eq (fun c hc start => ih c hc start (hnodes c hc).made) start
      rw [hmade.width_eq_sum rfl, makeList, checkFrom]
      rw [makeList] at hmade
      rw [hmade.checkMeasure_eq rfl]
      exact hall
  | @separated slots hslots _ hcheck ih =>
      have hall := checkAllFrom_eq (fun c hc start => ih c hc start (hslots c hc).made) start
      have halternate :=
        checkAlternation_eq (e := .separated (measureAll slots) slots) hcheck start
      rw [hmade.width_eq_sum rfl, checkFrom, hmade.checkMeasure_eq rfl, halternate]
      exact hall

/-! ## Faithful elements -/

/-- What the element keeps is true of it: the width is that of its text and the sum over
its children, each fact holds exactly if some token or node of the subtree bears it
out, and the check of the whole tree finds nothing. -/
structure Faithful (e : Element) : Prop where
  width_text : e.width = e.fullText.width
  width_children : e.isToken = false → e.width = (e.children.map Element.width).sum
  skippedText : e.flags.skippedText = true ↔ ∃ t ∈ e.leaves, t.HoldsSkippedText
  zeroWidth : e.flags.zeroWidth = true ↔ ∃ t ∈ e.leaves, t.text = [] ∧ t.kind ≠ .eof
  typeScript : e.flags.typeScript = true ↔ ∃ n ∈ e.nodes, n.kind.isTypeScriptSpecific = true
  check : e.check = .ok ()

/-- Whatever is obtained through the operations of the library keeps the truth about
itself. -/
theorem faithful_of_constructed {e : Element} (h : e.Constructed) : e.Faithful where
  width_text := h.regular.made.width_eq
  width_children := h.regular.made.width_eq_sum
  skippedText := h.regular.skippedText_iff
  zeroWidth := h.regular.zeroWidth_iff
  typeScript := h.regular.made.typeScript_iff
  check := by rw [Element.check, h.regular.checkFrom_eq]; rfl

/-- A name with skipped text in front of it, and a type without a colon. -/
def flaggedDeclarator : Element :=
  makeNode .variableDeclarator
    [.token (.make .identifier "x".toList (.ofList [⟨.skippedText, ")".toList⟩]) .empty),
      makeNode .typeAscription [.token (.make .colon [] .empty .empty)]]

theorem constructed_flaggedDeclarator : flaggedDeclarator.Constructed := by
  have hname := Constructed.of_make .identifier rfl "x".toList
    (.ofList [⟨.skippedText, ")".toList⟩]) .empty
  have hcolon := Constructed.of_make .colon rfl [] .empty .empty
  have hascription := Constructed.of_makeNode .typeAscription rfl
    (List.forall_mem_singleton.mpr hcolon)
  refine .of_makeNode .variableDeclarator rfl ?_
  simp only [List.forall_mem_cons]
  exact ⟨hname, hascription, List.forall_mem_nil _⟩

/-- An edit that takes out the only type and the only token without text. -/
theorem faithful_of_replaceChild_flaggedDeclarator :
    flaggedDeclarator.flags = ⟨true, true, true⟩ ∧
      ∃ edited, flaggedDeclarator.replaceChild 1 (makeList []) = .ok edited ∧
        edited.flags = ⟨true, false, false⟩ ∧ edited.Constructed ∧ edited.Faithful := by
  obtain ⟨edited, hedited, hflags⟩ :
      ∃ edited, flaggedDeclarator.replaceChild 1 (makeList []) = .ok edited ∧
        edited.flags = ⟨true, false, false⟩ := ⟨_, rfl, by decide⟩
  have hempty : (makeList []).Constructed := .list (List.forall_mem_nil _) (List.forall_mem_nil _)
  have hconstructed : edited.Constructed :=
    .replaceChild constructed_flaggedDeclarator rfl hempty hedited
  exact ⟨by decide, edited, hedited, hflags, hconstructed, faithful_of_constructed hconstructed⟩

end Element

end Verbatim
