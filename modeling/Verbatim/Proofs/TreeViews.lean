/-
  Views of a tree: its leaves, its nodes, and the summary that it keeps.

  The text of an element is the text of its leaves.  An element that was put
  together from finished tokens by the constructors of the library keeps a
  summary that its leaves bear out: the width is the sum of their widths, and the
  two facts about skipped text and absent tokens hold if they hold of a leaf.
-/
import Verbatim.Tree.Basic

set_option autoImplicit false

namespace Verbatim.Element

/-! ## Leaves and text -/

theorem leavesAll_eq_flatMap (es : List Element) : leavesAll es = es.flatMap leaves := by
  induction es with
  | nil => rfl
  | cons e rest ih => rw [leavesAll, ih, List.flatMap_cons]

@[simp] theorem leavesAll_append (a b : List Element) :
    leavesAll (a ++ b) = leavesAll a ++ leavesAll b := by
  simp only [leavesAll_eq_flatMap, List.flatMap_append]

@[simp] theorem leavesAll_singleton (e : Element) : leavesAll [e] = e.leaves := by
  simp [leavesAll]

theorem fullTextAll_eq_flatMap (es : List Element) : fullTextAll es = es.flatMap fullText := by
  induction es with
  | nil => rfl
  | cons e rest ih => rw [fullTextAll, ih, List.flatMap_cons]

theorem fullTextAll_append (a b : List Element) :
    fullTextAll (a ++ b) = fullTextAll a ++ fullTextAll b := by
  simp only [fullTextAll_eq_flatMap, List.flatMap_append]

/-- The text of neighbours is the text of their leaves, if it is so for each one. -/
theorem fullTextAll_eq_leavesAll {es : List Element}
    (h : ∀ e ∈ es, e.fullText = e.leaves.flatMap Token.fullText) :
    fullTextAll es = (leavesAll es).flatMap Token.fullText := by
  induction es with
  | nil => rfl
  | cons e rest ih =>
      obtain ⟨he, hrest⟩ := List.forall_mem_cons.mp h
      rw [fullTextAll, leavesAll, List.flatMap_append, he, ih hrest]

theorem fullText_eq_leaves (e : Element) : e.fullText = e.leaves.flatMap Token.fullText := by
  induction e using Element.induction with
  | token t => simp [fullText, leaves]
  | node kind measure children ih => exact fullTextAll_eq_leavesAll ih
  | list measure nodes ih => exact fullTextAll_eq_leavesAll ih
  | separated measure slots ih => exact fullTextAll_eq_leavesAll ih

/-! ## Nodes -/

mutual

/-- The nodes of the subtree, each one before those below it. -/
def nodes : Element → List Element
  | .token _ => []
  | .node k m cs => .node k m cs :: nodesAll cs
  | .list _ cs => nodesAll cs
  | .separated _ cs => nodesAll cs

/-- The nodes of neighbours from left to right. -/
def nodesAll : List Element → List Element
  | [] => []
  | e :: rest => e.nodes ++ nodesAll rest

end

@[simp] theorem nodesAll_append (a b : List Element) :
    nodesAll (a ++ b) = nodesAll a ++ nodesAll b := by
  induction a with
  | nil => rfl
  | cons e rest ih => simp only [List.cons_append, nodesAll, ih, List.append_assoc]

@[simp] theorem nodesAll_singleton (e : Element) : nodesAll [e] = e.nodes := by
  simp [nodesAll]

/-- A token of the kind that the source does not have. -/
def isAbsent (kind : Kind) : Element → Bool
  | .token t => t.kind == kind && t.isZeroWidth
  | _ => false

/-- A block whose opening brace the source does not have. -/
def lacksBrace (e : Element) : Bool :=
  e.kind == .block && e.children.any (isAbsent .openBrace)

theorem lacksBrace_makeNode {kind : Kind} (h : (kind == .block) = false) (es : List Element) :
    (makeNode kind es).lacksBrace = false := by
  simp only [lacksBrace, makeNode, Element.kind, h, Bool.false_and]

/-! ## Summaries -/

/-- Elements that are put together by the constructors. -/
inductive Made : Element → Prop where
  | token (kind : Kind) (text : Text) (leading trailing : TriviaList) :
      Made (.token (.make kind text leading trailing))
  | node (kind : Kind) (children : List Element) :
      (∀ c ∈ children, Made c) → Made (makeNode kind children)
  | list (nodes : List Element) : (∀ c ∈ nodes, Made c) → Made (makeList nodes)
  | separated (slots : List Element) :
      (∀ c ∈ slots, Made c) → Made (.separated (measureAll slots) slots)

/-- What the leaves say about the width and the facts of a subtree. -/
structure Witnessed (measure : Measure) (tokens : List Token) : Prop where
  width : measure.width = Text.width (tokens.flatMap Token.fullText)
  skippedText : measure.flags.skippedText = tokens.any fun t => t.flags.skippedText
  zeroWidth : measure.flags.zeroWidth = tokens.any Token.isZeroWidth

theorem Witnessed.add {a b : Measure} {ts us : List Token} (ha : Witnessed a ts)
    (hb : Witnessed b us) : Witnessed (a.add b) (ts ++ us) where
  width := by simp [Measure.add, ha.width, hb.width]
  skippedText := by simp [Measure.add, Flags.union, ha.skippedText, hb.skippedText]
  zeroWidth := by simp [Measure.add, Flags.union, ha.zeroWidth, hb.zeroWidth]

/-- Adding up neighbours from the left keeps the summary true to the leaves. -/
theorem Witnessed.foldl {es : List Element} (h : ∀ e ∈ es, Witnessed e.measure e.leaves)
    {start : Measure} {ts : List Token} (hstart : Witnessed start ts) :
    Witnessed (es.foldl (fun m e => m.add e.measure) start) (ts ++ leavesAll es) := by
  induction es generalizing start ts with
  | nil => simpa [leavesAll] using hstart
  | cons e rest ih =>
      obtain ⟨he, hrest⟩ := List.forall_mem_cons.mp h
      rw [List.foldl_cons, leavesAll, ← List.append_assoc]
      exact ih hrest (hstart.add he)

/-- A summary without width and facts is that of no leaves. -/
theorem witnessed_nil (typeScript : Bool) : Witnessed ⟨0, ⟨false, false, typeScript⟩⟩ [] :=
  ⟨rfl, rfl, rfl⟩

/-- The summary that a made element keeps is that of its leaves. -/
theorem Made.witnessed {e : Element} (h : e.Made) : Witnessed e.measure e.leaves := by
  induction h with
  | token kind text leading trailing =>
      exact ⟨by simp [measure, Element.width, leaves, Token.width_fullText],
        by simp [measure, Element.flags, leaves],
        by simp [measure, Element.flags, leaves, Token.isZeroWidth]⟩
  | node kind children _ ih => exact Witnessed.foldl ih (witnessed_nil kind.isTypeScriptSpecific)
  | list nodes _ ih => exact Witnessed.foldl ih (witnessed_nil false)
  | separated slots _ ih => exact Witnessed.foldl ih (witnessed_nil false)

/-- A made element is as wide as its text. -/
theorem Made.width_eq {e : Element} (h : e.Made) : e.width = e.fullText.width := by
  rw [fullText_eq_leaves]
  exact h.witnessed.width

end Verbatim.Element
