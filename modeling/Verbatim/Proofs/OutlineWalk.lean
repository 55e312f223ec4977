/-
  What a walk that writes an outline does.

  The placements of a tree are its elements in preorder, lists included, each with its level
  and with the start that the texts in front of it give it.  They are read off the tree, with
  no counter that is moved along.  The walk does move its position and its level, going on
  behind a failure of the writer as well; still it comes to one step for each placement, and
  a step neither reads nor changes anything but the failure that is kept.
-/
import Verbatim.Format.Emit
import Verbatim.Proofs.Representation
import Verbatim.Proofs.TextParts

set_option autoImplicit false

namespace Verbatim

/-! ## Placements -/

/-- An element of a tree with its level and its absolute start. -/
structure Placement where
  depth : Nat
  item : Element
  start : Nat

namespace Element

mutual

/-- An element and what is below it, each before what it holds. -/
def placements : Element → Nat → Nat → List Placement
  | .token t, depth, start => [⟨depth, .token t, start⟩]
  | .node k m cs, depth, start =>
      ⟨depth, .node k m cs, start⟩ :: placementsAll cs (depth + 1) start
  | .list m cs, depth, start => ⟨depth, .list m cs, start⟩ :: placementsAll cs (depth + 1) start
  | .separated m cs, depth, start =>
      ⟨depth, .separated m cs, start⟩ :: placementsAll cs (depth + 1) start

/-- Neighbours on a level and what is below them. -/
def placementsAll : List Element → Nat → Nat → List Placement
  | [], _, _ => []
  | e :: rest, depth, start =>
      e.placements depth start ++ placementsAll rest depth (start + e.fullText.width)

end

theorem hasAt_of_mem_placementsAll {es : List Element}
    (h : ∀ e ∈ es, ∀ depth start, ∀ p ∈ e.placements depth start,
      e.fullText.HasAt start p.start p.item.fullText) (depth start : Nat) :
    ∀ p ∈ placementsAll es depth start,
      (fullTextAll es).HasAt start p.start p.item.fullText := by
  induction es generalizing start with
  | nil => exact List.forall_mem_nil _
  | cons e rest ih =>
      obtain ⟨he, hrest⟩ := List.forall_mem_cons.mp h
      rw [fullTextAll]
      exact List.forall_mem_append.mpr
        ⟨fun p hp => (he depth start p hp).append_right _,
          fun p hp => (ih hrest _ p hp).append_left _⟩

/-- Each element stands in the text at its place. -/
theorem hasAt_of_mem_placements (e : Element) (depth start : Nat) :
    ∀ p ∈ e.placements depth start, e.fullText.HasAt start p.start p.item.fullText := by
  induction e using Element.induction generalizing depth start with
  | token t => exact List.forall_mem_singleton.mpr (Text.hasAt_whole _ _)
  | node kind measure children ih | list measure children ih | separated measure children ih =>
      exact List.forall_mem_cons.mpr
        ⟨Text.hasAt_whole _ _, hasAt_of_mem_placementsAll ih (depth + 1) start⟩

theorem regular_of_mem_placementsAll {es : List Element}
    (h : ∀ e ∈ es, ∀ depth start, ∀ p ∈ e.placements depth start, p.item.Regular)
    (depth start : Nat) : ∀ p ∈ placementsAll es depth start, p.item.Regular := by
  induction es generalizing start with
  | nil => exact List.forall_mem_nil _
  | cons e rest ih =>
      obtain ⟨he, hrest⟩ := List.forall_mem_cons.mp h
      exact List.forall_mem_append.mpr ⟨he depth start, ih hrest _⟩

theorem Regular.of_mem_placements {e : Element} (h : e.Regular) (depth start : Nat) :
    ∀ p ∈ e.placements depth start, p.item.Regular := by
  induction e using Element.induction generalizing depth start with
  | token t => exact List.forall_mem_singleton.mpr h
  | node kind measure children ih | list measure children ih | separated measure children ih =>
      exact List.forall_mem_cons.mpr
        ⟨h, regular_of_mem_placementsAll (fun c hc => ih c hc (h.children c hc)) (depth + 1) start⟩

end Element

/-! ## One step for each placement -/

namespace TextWriter

variable {σ ε : Type} (w : TextWriter σ ε) (options : FormatOptions)

/-- What a walk does at a placement, behind the failure that it keeps. -/
def placeLine (error : Option ε) (p : Placement) : Writing σ Fault (Option ε) := do
  let walk ← w.walkLine options p.item ⟨p.start, p.depth, error⟩
  return walk.error

/-- A line changes nothing but the failure that a walk keeps. -/
theorem walkLine_eq (e : Element) (walk : OutlineWalk ε) :
    w.walkLine options e walk = do
      let error ← w.placeLine options walk.error ⟨walk.depth, e, walk.position⟩
      return { walk with error } := by
  obtain ⟨position, depth, error⟩ := walk
  simp only [placeLine, walkLine, bind_assoc, pure_bind]
  split
  · rfl
  · simp only [bind_assoc]
    congr 1
    funext line
    congr 1
    funext result
    cases result with
    | ok _ => rfl
    | error cause => rfl

/-- The steps at placements, one after the other. -/
def placeLines (error : Option ε) (ps : List Placement) : Writing σ Fault (Option ε) :=
  ps.foldlM (w.placeLine options) error

theorem placeLines_cons (error : Option ε) (p : Placement) (ps : List Placement) :
    w.placeLines options error (p :: ps) =
      w.placeLine options error p >>= fun error => w.placeLines options error ps :=
  List.foldlM_cons

theorem placeLines_append (error : Option ε) (ps qs : List Placement) :
    w.placeLines options error (ps ++ qs) =
      w.placeLines options error ps >>= fun error => w.placeLines options error qs :=
  List.foldlM_append

/-- A walk comes to the steps at the placements: it ends behind the text, on the level that it
has started on. -/
def WalksAs (e : Element) : Prop :=
  ∀ walk : OutlineWalk ε, walk.position + e.fullText.width < Offset.limit →
    w.walkOutline options e walk = do
      let error ← w.placeLines options walk.error (e.placements walk.depth walk.position)
      return ⟨walk.position + e.fullText.width, walk.depth, error⟩

variable {w options}

theorem walkOutlineAll_eq {es : List Element} (h : ∀ e ∈ es, w.WalksAs options e)
    (walk : OutlineWalk ε)
    (hlimit : walk.position + (Element.fullTextAll es).width < Offset.limit) :
    w.walkOutlineAll options es walk = do
      let error ← w.placeLines options walk.error
        (Element.placementsAll es walk.depth walk.position)
      return ⟨walk.position + (Element.fullTextAll es).width, walk.depth, error⟩ := by
  induction es generalizing walk with
  | nil => rfl
  | cons e rest ih =>
      obtain ⟨he, hrest⟩ := List.forall_mem_cons.mp h
      rw [Element.fullTextAll, Text.width_append] at hlimit ⊢
      rw [walkOutlineAll, he walk (by omega), Element.placementsAll, placeLines_append]
      simp only [bind_assoc, pure_bind]
      congr 1
      funext error
      have hbehind : walk.position + e.fullText.width + (Element.fullTextAll rest).width <
          Offset.limit := by omega
      rw [ih hrest ⟨_, walk.depth, error⟩ hbehind, Nat.add_assoc]

/-- The line of an element, and what it holds one level down. -/
theorem walkNested_eq {es : List Element} (h : ∀ e ∈ es, w.WalksAs options e) (e : Element)
    (walk : OutlineWalk ε)
    (hlimit : walk.position + (Element.fullTextAll es).width < Offset.limit) :
    (do
      let walk ← w.walkLine options e walk
      let walk ← w.walkOutlineAll options es { walk with depth := walk.depth + 1 }
      return { walk with depth := walk.depth - 1 }) = do
      let error ← w.placeLines options walk.error
        (⟨walk.depth, e, walk.position⟩ ::
          Element.placementsAll es (walk.depth + 1) walk.position)
      return ⟨walk.position + (Element.fullTextAll es).width, walk.depth, error⟩ := by
  rw [walkLine_eq, placeLines_cons]
  simp only [bind_assoc, pure_bind]
  congr 1
  funext error
  rw [walkOutlineAll_eq h ⟨walk.position, walk.depth + 1, error⟩ hlimit]
  simp only [bind_assoc, pure_bind, Nat.add_sub_cancel]

theorem walksAs (e : Element) : w.WalksAs options e := by
  induction e using Element.induction with
  | token t =>
      intro walk hlimit
      rw [Element.fullText, Token.width_fullText] at hlimit ⊢
      have hadd : Offset.add walk.position t.fullWidth = .ok (walk.position + t.fullWidth) :=
        if_pos hlimit
      rw [walkOutline, walkLine_eq, Element.placements, placeLines_cons]
      simp only [bind_assoc, pure_bind, hadd]
      rfl
  | node kind measure children ih | list measure children ih | separated measure children ih =>
      exact fun walk hlimit => walkNested_eq ih _ walk hlimit

end TextWriter

end Verbatim
