/-
  Finding a token by position is a search in the flat sequence of tokens.

  On one level, the scan over the children picks the child that spans the position; at
  the end of the span it picks the last child with a width, and where nothing has a
  width the first child that holds a token.  The token picked from the leaves of that
  child is then the one picked from all leaves, so by induction the descent to a token
  and the search in the flat sequence agree.  A child never starts behind the position,
  so no level is asked for a position in front of it.
-/
import Mathlib.Algebra.GroupWithZero.Nat
import Verbatim.Tree.Position
import Verbatim.Proofs.Representation
import Verbatim.Proofs.Traversal

set_option autoImplicit false

namespace Verbatim

/-! ## Widths -/

/-- Of things with widths that stand in a row, at most one spans a position. -/
theorem eq_of_spans {α : Type} (width : α → Nat) {before after before' after' : List α} {a b : α}
    {position : Nat} (hstart : (before.map width).sum ≤ position)
    (hstop : position < (before.map width).sum + width a)
    (hstart' : (before'.map width).sum ≤ position)
    (hstop' : position < (before'.map width).sum + width b)
    (heq : before ++ a :: after = before' ++ b :: after') : before = before' ∧ a = b := by
  rcases List.append_eq_append_iff.mp heq with ⟨between, rfl, htail⟩ | ⟨between, rfl, htail⟩
  · cases between with
    | nil => exact ⟨(List.append_nil _).symm, (List.cons.inj htail).1⟩
    | cons first rest =>
        cases (List.cons.inj htail).1
        rw [List.map_append, List.sum_append, List.map_cons, List.sum_cons] at hstart'
        omega
  · cases between with
    | nil => exact ⟨List.append_nil _, (List.cons.inj htail).1.symm⟩
    | cons first rest =>
        cases (List.cons.inj htail).1
        rw [List.map_append, List.sum_append, List.map_cons, List.sum_cons] at hstart
        omega

/-- Total width of neighbouring tokens. -/
def Token.widthAll (ts : List Token) : Nat :=
  (ts.map Token.fullWidth).sum

namespace Token

@[simp] theorem widthAll_nil : widthAll [] = 0 := rfl

@[simp] theorem widthAll_cons (t : Token) (rest : List Token) :
    widthAll (t :: rest) = t.fullWidth + widthAll rest := by
  simp [widthAll]

@[simp] theorem widthAll_append (a b : List Token) :
    widthAll (a ++ b) = widthAll a + widthAll b := by
  simp [widthAll]

theorem widthAll_eq_zero_iff {ts : List Token} :
    widthAll ts = 0 ↔ ∀ t ∈ ts, t.fullWidth = 0 := by
  simp [widthAll, List.sum_eq_zero_iff_forall_eq_nat]

theorem width_flatMap_fullText (ts : List Token) :
    Text.width (ts.flatMap Token.fullText) = widthAll ts := by
  induction ts with
  | nil => rfl
  | cons t rest ih =>
      rw [List.flatMap_cons, Text.width_append, ih, width_fullText, widthAll_cons]

end Token

namespace Element

/-- Total width of neighbours. -/
def widthAll (es : List Element) : Nat :=
  (es.map Element.width).sum

@[simp] theorem widthAll_nil : widthAll [] = 0 := rfl

@[simp] theorem widthAll_cons (e : Element) (rest : List Element) :
    widthAll (e :: rest) = e.width + widthAll rest := by
  simp [widthAll]

@[simp] theorem widthAll_append (a b : List Element) :
    widthAll (a ++ b) = widthAll a + widthAll b := by
  simp [widthAll]

theorem widthAll_eq_zero_iff {es : List Element} : widthAll es = 0 ↔ ∀ e ∈ es, e.width = 0 := by
  simp [widthAll, List.sum_eq_zero_iff_forall_eq_nat]

theorem Made.width_eq_leaves {e : Element} (h : e.Made) : e.width = Token.widthAll e.leaves :=
  h.witnessed.width.trans (Token.width_flatMap_fullText _)

theorem Made.leaves_ne_nil_of_width {e : Element} (h : e.Made) (hwidth : 0 < e.width) :
    e.leaves ≠ [] := by
  intro hnil
  have hzero := h.width_eq_leaves
  rw [hnil] at hzero
  exact Nat.ne_of_gt hwidth hzero

/-- Neighbours are as wide as their leaves. -/
theorem widthAll_eq_leavesAll {es : List Element} (h : ∀ e ∈ es, e.Made) :
    widthAll es = Token.widthAll (leavesAll es) := by
  induction es with
  | nil => rfl
  | cons e rest ih =>
      obtain ⟨he, hrest⟩ := List.forall_mem_cons.mp h
      rw [widthAll_cons, leavesAll, Token.widthAll_append, ih hrest, he.width_eq_leaves]

/-! ## Elements that hold tokens -/

theorem containsTokenAny_eq_any (es : List Element) :
    containsTokenAny es = es.any containsToken := by
  induction es with
  | nil => rfl
  | cons e rest ih => rw [containsTokenAny, ih, List.any_cons]

theorem containsTokenAny_iff {es : List Element}
    (h : ∀ e ∈ es, (e.containsToken = true ↔ e.leaves ≠ [])) :
    containsTokenAny es = true ↔ leavesAll es ≠ [] := by
  induction es with
  | nil => simp [containsTokenAny, leavesAll]
  | cons e rest ih =>
      obtain ⟨he, hrest⟩ := List.forall_mem_cons.mp h
      simp only [containsTokenAny, Bool.or_eq_true, he, ih hrest, leavesAll, ne_eq,
        List.append_eq_nil_iff, Classical.not_and_iff_not_or_not]

/-- An element holds a token exactly if it has leaves; a width is only a shortcut. -/
theorem Made.containsToken_iff {e : Element} (h : e.Made) :
    e.containsToken = true ↔ e.leaves ≠ [] := by
  induction e using Element.induction with
  | token t => simp [containsToken, leaves]
  | list measure nodes ih => exact containsTokenAny_iff fun c hc => ih c hc (h.children c hc)
  | separated measure slots ih => exact containsTokenAny_iff fun c hc => ih c hc (h.children c hc)
  | node kind measure children ih =>
      have hany := containsTokenAny_iff fun c hc => ih c hc (h.children c hc)
      rw [containsToken, Bool.or_eq_true, decide_eq_true_eq, hany]
      exact ⟨fun hor => hor.elim h.leaves_ne_nil_of_width id, .inr⟩

/-- A made element with a width holds a token. -/
theorem Made.containsToken_of_width {e : Element} (h : e.Made) (hwidth : 0 < e.width) :
    e.containsToken = true :=
  h.containsToken_iff.mpr (h.leaves_ne_nil_of_width hwidth)

/-! ## One level -/

section Scan

variable {cs : List Element}

/-- Inside of the span, the scan stops at the child that spans the position. -/
theorem scanChildren_of_lt {position offset : Nat} (lastWide firstZero : Option (Element × Nat))
    (hle : offset ≤ position) (hlt : position < offset + widthAll cs) :
    ∃ before c after start, cs = before ++ c :: after ∧ start = offset + widthAll before ∧
      start ≤ position ∧ position < start + c.width ∧
      scanChildren position cs offset lastWide firstZero = some (c, start) := by
  induction cs generalizing offset lastWide firstZero with
  | nil => exact absurd hlt (Nat.not_lt.mpr hle)
  | cons c rest ih =>
      rw [widthAll_cons] at hlt
      rw [scanChildren]
      split
      · rename_i hzero
        obtain ⟨before, d, after, start, rfl, hstart, hspans⟩ := ih _ _ hle (by omega)
        exact ⟨c :: before, d, after, start, rfl, by rw [widthAll_cons]; omega, hspans⟩
      · split
        · rename_i hspans
          exact ⟨[], c, rest, offset, rfl, rfl, hspans.1, hspans.2, rfl⟩
        · have hbehind : offset + c.width ≤ position := by omega
          obtain ⟨before, d, after, start, rfl, hstart, hspans⟩ := ih _ _ hbehind (by omega)
          exact ⟨c :: before, d, after, start, rfl, by rw [widthAll_cons]; omega, hspans⟩

/-- Where no child has a width, the scan ends with the first child that holds a token. -/
theorem scanChildren_of_zero (position offset : Nat) (lastWide firstZero : Option (Element × Nat))
    (hzero : ∀ c ∈ cs, c.width = 0) :
    scanChildren position cs offset lastWide firstZero =
      lastWide.or (firstZero.or ((cs.find? containsToken).map fun c => (c, offset))) := by
  induction cs generalizing firstZero with
  | nil => simp [scanChildren]
  | cons c rest ih =>
      obtain ⟨hc, hrest⟩ := List.forall_mem_cons.mp hzero
      rw [scanChildren, if_pos hc, ih _ hrest, List.find?_cons]
      cases firstZero with
      | some found => rfl
      | none => cases hholds : c.containsToken <;> simp

/-- Behind the span, the scan ends with the last child that has a width. -/
theorem scanChildren_of_le {position offset : Nat} (lastWide firstZero : Option (Element × Nat))
    (hle : offset + widthAll cs ≤ position) (hpos : 0 < widthAll cs) :
    ∃ before c after start, cs = before ++ c :: after ∧ start = offset + widthAll before ∧
      0 < c.width ∧ (∀ d ∈ after, d.width = 0) ∧
      scanChildren position cs offset lastWide firstZero = some (c, start) := by
  induction cs generalizing offset lastWide firstZero with
  | nil => exact absurd hpos (Nat.lt_irrefl 0)
  | cons c rest ih =>
      rw [widthAll_cons] at hle hpos
      rw [scanChildren]
      split
      · rename_i hzero
        have hstill : offset + widthAll rest ≤ position := by omega
        obtain ⟨before, d, after, start, rfl, hstart, hlast⟩ := ih _ _ hstill (by omega)
        exact ⟨c :: before, d, after, start, rfl, by rw [widthAll_cons]; omega, hlast⟩
      · rename_i hwide
        rw [if_neg fun hspans => by omega]
        by_cases hrest : 0 < widthAll rest
        · have hbehind : offset + c.width + widthAll rest ≤ position := by omega
          obtain ⟨before, d, after, start, rfl, hstart, hlast⟩ := ih _ _ hbehind hrest
          exact ⟨c :: before, d, after, start, rfl, by rw [widthAll_cons]; omega, hlast⟩
        · have hzero := widthAll_eq_zero_iff.mp (Nat.eq_zero_of_not_pos hrest)
          exact ⟨[], c, rest, offset, rfl, rfl, Nat.pos_of_ne_zero hwide, hzero,
            scanChildren_of_zero _ _ _ _ hzero⟩

end Scan

/-- The child that a position inside of an element belongs to, and its start. -/
structure Picks (e : Element) (position : Nat) (before : List Element) (c : Element)
    (after : List Element) : Prop where
  children_eq : e.children = before ++ c :: after
  inside : position < e.width →
    widthAll before ≤ position ∧ position < widthAll before + c.width
  atEnd : position = e.width → 0 < e.width → 0 < c.width ∧ ∀ d ∈ after, d.width = 0
  atZero : e.width = 0 → ∀ d ∈ before, d.containsToken = false
  holds : c.containsToken = true

section Child

variable {e : Element} {position : Nat}

/-- A token has no children to pick from. -/
theorem Picks.isToken_eq_false {before after : List Element} {c : Element}
    (h : e.Picks position before c after) : e.isToken = false := by
  cases e with
  | token t =>
      have hchildren : [] = before ++ c :: after := h.children_eq
      simp at hchildren
  | node _ _ _ | list _ _ | separated _ _ => rfl

theorem Made.width_eq_widthAll (h : e.Made) (htoken : e.isToken = false) :
    e.width = widthAll e.children :=
  h.width_eq_sum htoken

theorem childAt_of_scanChildren {found : Element × Nat} (hposition : position ≤ e.width)
    (h : scanChildren position e.children 0 none none = some found) :
    e.childAt position = .ok found := by
  unfold childAt
  rw [if_neg (Nat.not_lt.mpr hposition), h]

theorem Made.childAt_of_lt (h : e.Made) (htoken : e.isToken = false) (hlt : position < e.width) :
    ∃ before c after, e.childAt position = .ok (c, widthAll before) ∧
      e.Picks position before c after := by
  have hwidth := h.width_eq_widthAll htoken
  have hspan : position < 0 + widthAll e.children := by omega
  obtain ⟨before, c, after, start, hchildren, hstart, hle, hstop, hscan⟩ :=
    scanChildren_of_lt none none (Nat.zero_le position) hspan
  rw [Nat.zero_add] at hstart
  subst hstart
  refine ⟨before, c, after, childAt_of_scanChildren (Nat.le_of_lt hlt) hscan,
    ⟨hchildren, ?_, ?_, ?_, ?_⟩⟩
  · exact fun _ => ⟨hle, hstop⟩
  · exact fun heq => absurd heq (Nat.ne_of_lt hlt)
  · exact fun hzero => absurd hlt (by omega)
  · exact (h.children c (by simp [hchildren])).containsToken_of_width (by omega)

theorem Made.childAt_of_eq (h : e.Made) (htoken : e.isToken = false) (hpos : 0 < e.width) :
    ∃ before c after, e.childAt e.width = .ok (c, widthAll before) ∧
      e.Picks e.width before c after := by
  have hwidth := h.width_eq_widthAll htoken
  have hspan : 0 + widthAll e.children ≤ e.width := by omega
  obtain ⟨before, c, after, start, hchildren, hstart, hc, hafter, hscan⟩ :=
    scanChildren_of_le none none hspan (hwidth ▸ hpos)
  rw [Nat.zero_add] at hstart
  subst hstart
  refine ⟨before, c, after, childAt_of_scanChildren (Nat.le_refl _) hscan,
    ⟨hchildren, ?_, ?_, ?_, ?_⟩⟩
  · exact fun hlt => absurd hlt (Nat.lt_irrefl _)
  · exact fun _ _ => ⟨hc, hafter⟩
  · exact fun hzero => absurd hpos (by omega)
  · exact (h.children c (by simp [hchildren])).containsToken_of_width hc

theorem Made.scanChildren_of_zero (h : e.Made) (htoken : e.isToken = false) (hzero : e.width = 0) :
    scanChildren 0 e.children 0 none none =
      (e.children.find? containsToken).map fun c => (c, 0) := by
  have hwidth := h.width_eq_widthAll htoken
  exact Element.scanChildren_of_zero 0 0 none none (widthAll_eq_zero_iff.mp (hwidth ▸ hzero))

theorem Made.childAt_of_zero (h : e.Made) (htoken : e.isToken = false) (hzero : e.width = 0)
    (hleaves : e.leaves ≠ []) :
    ∃ before c after, e.childAt 0 = .ok (c, widthAll before) ∧ e.Picks 0 before c after := by
  have hscan := h.scanChildren_of_zero htoken hzero
  have hzeros := widthAll_eq_zero_iff.mp ((h.width_eq_widthAll htoken).symm.trans hzero)
  have hholds := (containsTokenAny_iff fun c hc => (h.children c hc).containsToken_iff).mpr
    (leaves_eq_children htoken ▸ hleaves)
  rw [containsTokenAny_eq_any, List.any_eq_true] at hholds
  obtain ⟨c, hfind⟩ := Option.isSome_iff_exists.mp (List.find?_isSome.mpr hholds)
  obtain ⟨hc, before, after, hchildren, hbefore⟩ := List.find?_eq_some_iff_append.mp hfind
  have hstart : widthAll before = 0 :=
    widthAll_eq_zero_iff.mpr fun d hd => hzeros d (by simp [hchildren, hd])
  rw [hfind, Option.map_some] at hscan
  refine ⟨before, c, after, ?_, ⟨hchildren, ?_, ?_, ?_, hc⟩⟩
  · rw [hstart]
    exact childAt_of_scanChildren (Nat.zero_le _) hscan
  · exact fun hlt => absurd hlt (by omega)
  · exact fun _ hpos => absurd hpos (by omega)
  · exact fun _ d hd => by simpa using hbefore d hd

/-- Inside of an element that holds a token, a position belongs to a child. -/
theorem Made.exists_picks (h : e.Made) (htoken : e.isToken = false)
    (hposition : position ≤ e.width) (hleaves : e.leaves ≠ []) :
    ∃ before c after, e.childAt position = .ok (c, widthAll before) ∧
      e.Picks position before c after := by
  rcases Nat.lt_or_eq_of_le hposition with hlt | rfl
  · exact h.childAt_of_lt htoken hlt
  · rcases Nat.eq_zero_or_pos e.width with hzero | hpos
    · rw [hzero]
      exact h.childAt_of_zero htoken hzero hleaves
    · exact h.childAt_of_eq htoken hpos

/-- Behind an element, or in an element that holds no token, there is no child to find. -/
theorem Made.childAt_eq_error (h : e.Made) (htoken : e.isToken = false)
    (hnone : e.width < position ∨ e.leaves = []) :
    e.childAt position = .error (.positionOutOfRange position e.width) := by
  unfold childAt
  split
  · rfl
  · rename_i hposition
    have hleaves := hnone.resolve_left hposition
    have hzero : e.width = 0 := by rw [h.width_eq_leaves, hleaves]; rfl
    have hat : position = 0 := by omega
    have hfind : e.children.find? containsToken = none := by
      refine List.find?_eq_none.mpr fun c hc hholds => ?_
      have hc' := (h.children c hc).containsToken_iff.mp hholds
      rw [leaves_eq_children htoken, leavesAll_eq_flatMap, List.flatMap_eq_nil_iff] at hleaves
      exact hc' (hleaves c hc)
    rw [hat, h.scanChildren_of_zero htoken hzero, hfind]
    rfl

end Child

end Element

/-! ## The flat sequence -/

namespace Token

/-- The token behind the others spans the position. -/
structure SpansAt (before : List Token) (k : Token) (position : Nat) : Prop where
  start_le : widthAll before ≤ position
  lt_stop : position < widthAll before + k.fullWidth

/-- A token of a sequence spans no position behind it. -/
theorem SpansAt.lt_widthAll {ts before after : List Token} {k : Token} {position : Nat}
    (h : SpansAt before k position) (heq : ts = before ++ k :: after) : position < widthAll ts := by
  have hstop := h.lt_stop
  rw [heq, widthAll_append, widthAll_cons]
  omega

/-- At most one token of a sequence spans a position. -/
theorem SpansAt.unique {before after before' after' : List Token} {k k' : Token} {position : Nat}
    (h : SpansAt before k position) (h' : SpansAt before' k' position)
    (heq : before ++ k :: after = before' ++ k' :: after') : before = before' ∧ k = k' :=
  eq_of_spans Token.fullWidth h.start_le h.lt_stop h'.start_le h'.lt_stop heq

/-- The token that a position up to the end picks from a sequence: the one that spans it,
at the end the last one with a width, and the first one where nothing has a width. -/
structure Picked (ts : List Token) (position : Nat) (before : List Token) (k : Token)
    (after : List Token) : Prop where
  tokens_eq : ts = before ++ k :: after
  inside : position < widthAll ts → SpansAt before k position
  atEnd : position = widthAll ts → 0 < widthAll ts →
    0 < k.fullWidth ∧ ∀ t ∈ after, t.fullWidth = 0
  atZero : widthAll ts = 0 → before = []

/-- The token itself is picked from a sequence of one token. -/
theorem picked_singleton (t : Token) (position : Nat) :
    Picked [t] position [] t [] where
  tokens_eq := rfl
  inside := fun hlt => ⟨Nat.zero_le _, by simpa using hlt⟩
  atEnd := fun _ hpos => ⟨by simpa using hpos, List.forall_mem_nil _⟩
  atZero := fun _ => rfl

/-- The token that is picked from a part is picked from the whole, if the position
belongs to the part. -/
theorem Picked.extend {xs ys zs before after : List Token} {k : Token} {position : Nat}
    (h : Picked ys (position - widthAll xs) before k after) (hle : widthAll xs ≤ position)
    (hinside : position < widthAll (xs ++ (ys ++ zs)) → position < widthAll xs + widthAll ys)
    (hend : position = widthAll (xs ++ (ys ++ zs)) → 0 < widthAll (xs ++ (ys ++ zs)) →
      0 < widthAll ys ∧ widthAll zs = 0)
    (hzero : widthAll (xs ++ (ys ++ zs)) = 0 → xs = []) :
    Picked (xs ++ (ys ++ zs)) position (xs ++ before) k (after ++ zs) where
  tokens_eq := by simp [h.tokens_eq]
  inside := by
    intro hlt
    have hspan := hinside hlt
    obtain ⟨hstart, hstop⟩ := h.inside (by omega)
    constructor
    · rw [widthAll_append]
      omega
    · rw [widthAll_append]
      omega
  atEnd := by
    intro heq hpos
    obtain ⟨hys, hzs⟩ := hend heq hpos
    rw [widthAll_append, widthAll_append] at heq
    obtain ⟨hk, hafter⟩ := h.atEnd (by omega) hys
    exact ⟨hk, List.forall_mem_append.mpr ⟨hafter, widthAll_eq_zero_iff.mp hzs⟩⟩
  atZero := by
    intro htotal
    rw [hzero htotal, List.nil_append]
    rw [widthAll_append, widthAll_append] at htotal
    exact h.atZero (by omega)

end Token

namespace Element

/-! ## From a root down to a token -/

theorem height_lt_of_child {e c : Element} (h : c ∈ e.children) : c.height < e.height := by
  have hall : ∀ es : List Element, c ∈ es → c.height ≤ heightAll es := by
    intro es hc
    induction es with
    | nil => cases hc
    | cons first rest ih =>
        rw [heightAll]
        rcases List.mem_cons.mp hc with rfl | hc
        · exact Nat.le_max_left _ _
        · exact Nat.le_trans (ih hc) (Nat.le_max_right _ _)
  cases e with
  | token t => cases h
  | node _ _ cs | list _ cs | separated _ cs => exact Nat.lt_succ_of_le (hall cs h)

theorem descendFrom_succ {e : Element} (htoken : e.isToken = false) (budget position start : Nat) :
    descendFrom (budget + 1) e position start =
      match e.childAt (position - start) with
      | .error error => .error error
      | .ok (c, offset) =>
          match descendFrom budget c position (start + offset) with
          | .error error => .error error
          | .ok found =>
              .ok { found with nodes := if e.isNode then ⟨start, e⟩ :: found.nodes
                                        else found.nodes } := by
  cases e with
  | token t => cases htoken
  | node _ _ _ | list _ _ | separated _ _ => rfl

section Descent

variable {e c : Element} {position : Nat} {before after : List Element}

/-- The child that a position belongs to reaches from the position backwards and up to
it. -/
theorem Picks.bounds (h : e.Picks position before c after) (hmade : e.Made)
    (htoken : e.isToken = false) (hposition : position ≤ e.width) :
    widthAll before ≤ position ∧ position ≤ widthAll before + c.width := by
  have hwidth := hmade.width_eq_widthAll htoken
  rw [h.children_eq, widthAll_append, widthAll_cons] at hwidth
  rcases Nat.lt_or_eq_of_le hposition with hlt | heq
  · obtain ⟨hstart, hstop⟩ := h.inside hlt
    exact ⟨hstart, Nat.le_of_lt hstop⟩
  · rcases Nat.eq_zero_or_pos e.width with hzero | hpos
    · omega
    · have hafter := widthAll_eq_zero_iff.mpr (h.atEnd heq hpos).2
      omega

/-- What is picked from the leaves of the child is picked from all leaves. -/
theorem Picks.extend (h : e.Picks position before c after) (hmade : e.Made)
    (htoken : e.isToken = false) (hposition : position ≤ e.width) {front back : List Token}
    {k : Token} (hpicked : Token.Picked c.leaves (position - widthAll before) front k back) :
    Token.Picked e.leaves position (leavesAll before ++ front) k (back ++ leavesAll after) := by
  have hchildren := hmade.children
  rw [h.children_eq, List.forall_mem_append, List.forall_mem_cons] at hchildren
  obtain ⟨hbefore, hc, hafter⟩ := hchildren
  have hfront := widthAll_eq_leavesAll hbefore
  have hback := widthAll_eq_leavesAll hafter
  have hchild := hc.width_eq_leaves
  have hwidth := hmade.width_eq_leaves
  have hleaves : e.leaves = leavesAll before ++ (c.leaves ++ leavesAll after) := by
    rw [leaves_eq_children htoken, h.children_eq, leavesAll_append, leavesAll]
  rw [hleaves] at hwidth ⊢
  rw [hfront] at hpicked
  obtain ⟨hstart, hstop⟩ := h.bounds hmade htoken hposition
  refine hpicked.extend (by omega) ?_ ?_ ?_
  · intro hlt
    have hinside := h.inside (by omega)
    omega
  · intro heq hpos
    obtain ⟨hwide, hrest⟩ := h.atEnd (by omega) (by omega)
    have hnone := widthAll_eq_zero_iff.mpr hrest
    omega
  · intro hzero
    -- Nothing in front of the child holds a token, so there are no leaves in front.
    have hempty := h.atZero (by omega)
    rw [leavesAll_eq_flatMap, List.flatMap_eq_nil_iff]
    intro d hd
    refine Decidable.byContradiction fun hne => ?_
    have hholds := (hbefore d hd).containsToken_iff.mpr hne
    rw [hempty d hd] at hholds
    cases hholds

end Descent

/-- The descent ends at the token that is picked from the leaves. -/
theorem Made.descendFrom_eq {e : Element} (h : e.Made) {budget position start : Nat}
    (hbudget : e.height ≤ budget) (hstart : start ≤ position)
    (hstop : position ≤ start + e.width) (hleaves : e.leaves ≠ []) :
    ∃ found before k after, descendFrom budget e position start = .ok found ∧
      found.token = ⟨start + Token.widthAll before, k⟩ ∧
      Token.Picked e.leaves (position - start) before k after := by
  induction budget generalizing e start with
  | zero =>
      cases e with
      | token t => exact ⟨_, [], t, [], rfl, rfl, Token.picked_singleton t _⟩
      | node _ _ _ | list _ _ | separated _ _ => exact absurd hbudget (Nat.not_succ_le_zero _)
  | succ budget ih =>
      by_cases htoken : e.isToken = true
      · cases e with
        | token t => exact ⟨_, [], t, [], rfl, rfl, Token.picked_singleton t _⟩
        | node _ _ _ | list _ _ | separated _ _ => cases htoken
      · have htoken : e.isToken = false := Bool.not_eq_true _ ▸ htoken
        have hposition : position - start ≤ e.width := by omega
        obtain ⟨before, c, after, hchild, hpicks⟩ := h.exists_picks htoken hposition hleaves
        have hmem : c ∈ e.children := by simp [hpicks.children_eq]
        have hheight := height_lt_of_child hmem
        have hmade := h.children c hmem
        obtain ⟨hfrom, hto⟩ := hpicks.bounds h htoken hposition
        have hstart' : start + widthAll before ≤ position := by omega
        obtain ⟨found, front, k, back, hfound, htokenAt, hpicked⟩ :=
          ih hmade (by omega) hstart' (by omega) (hmade.containsToken_iff.mp hpicks.holds)
        rw [descendFrom_succ htoken, hchild]
        simp only [hfound]
        rw [Nat.sub_add_eq] at hpicked
        refine ⟨_, _, k, _, rfl, ?_, hpicks.extend h htoken hposition hpicked⟩
        have hbefore : widthAll before = Token.widthAll (leavesAll before) :=
          widthAll_eq_leavesAll fun d hd => h.children d (by simp [hpicks.children_eq, hd])
        rw [htokenAt, Token.widthAll_append, ← hbefore, Nat.add_assoc]

/-- Elements that the descent to a position comes to, with the starts it gives them. -/
inductive Reaches (root : Element) (position : Nat) : Element → Nat → Prop where
  | root : Reaches root position root 0
  | child {e c : Element} {start offset : Nat} : Reaches root position e start →
      e.childAt (position - start) = .ok (c, offset) → Reaches root position c (start + offset)

/-- The descent answers a token that it comes to. -/
theorem Reaches.descendFrom {root e : Element} {budget position start : Nat} {found : Descent}
    (h : Reaches root position e start) (hfound : descendFrom budget e position start = .ok found) :
    Reaches root position (.token found.token.item) found.token.start := by
  induction budget generalizing e start found with
  | zero =>
      cases e with
      | token t =>
          cases hfound
          exact h
      | node _ _ _ | list _ _ | separated _ _ => cases hfound
  | succ budget ih =>
      by_cases htoken : e.isToken = true
      · cases e with
        | token t =>
            cases hfound
            exact h
        | node _ _ _ | list _ _ | separated _ _ => cases htoken
      · rw [descendFrom_succ (Bool.not_eq_true _ ▸ htoken)] at hfound
        split at hfound
        · cases hfound
        · rename_i c offset hchild
          split at hfound
          · cases hfound
          · rename_i below hbelow
            cases hfound
            have hreach := ih (h.child hchild) hbelow
            exact hreach

theorem childAt_token (t : Token) (position : Nat) :
    ∃ error, (Element.token t).childAt position = .error error := by
  unfold childAt
  split
  · exact ⟨_, rfl⟩
  · exact ⟨_, rfl⟩

/-- The child that is found is the one that the position belongs to, with its start. -/
theorem Made.exists_picks_of_childAt {e c : Element} (h : e.Made) {position offset : Nat}
    (hchild : e.childAt position = .ok (c, offset)) :
    position ≤ e.width ∧
      ∃ before after, offset = widthAll before ∧ e.Picks position before c after := by
  have htoken : e.isToken = false := by
    cases e with
    | token t =>
        obtain ⟨error, herror⟩ := childAt_token t position
        rw [herror] at hchild
        cases hchild
    | node _ _ _ | list _ _ | separated _ _ => rfl
  by_cases hnone : e.width < position ∨ e.leaves = []
  · rw [h.childAt_eq_error htoken hnone] at hchild
    cases hchild
  · have hposition : position ≤ e.width := Nat.not_lt.mp fun hlt => hnone (.inl hlt)
    obtain ⟨before, d, after, hfound, hpicks⟩ :=
      h.exists_picks htoken hposition fun hnil => hnone (.inr hnil)
    rw [hfound] at hchild
    cases hchild
    exact ⟨hposition, before, after, rfl, hpicks⟩

/-- The child that is found reaches from the position backwards and up to it, and starts
behind the children in front of it. -/
theorem Made.exists_front_of_childAt {e c : Element} (h : e.Made) {position offset : Nat}
    (hchild : e.childAt position = .ok (c, offset)) :
    ∃ before after, e.children = before ++ c :: after ∧ offset = widthAll before ∧
      offset ≤ position ∧ position ≤ offset + c.width := by
  obtain ⟨hposition, before, after, rfl, hpicks⟩ := h.exists_picks_of_childAt hchild
  exact ⟨before, after, hpicks.children_eq, rfl, hpicks.bounds h hpicks.isToken_eq_false hposition⟩

/-- A child that is found does not start behind the position. -/
theorem Made.offset_le_of_childAt {e c : Element} (h : e.Made) {position offset : Nat}
    (hchild : e.childAt position = .ok (c, offset)) : c ∈ e.children ∧ offset ≤ position := by
  obtain ⟨before, after, hchildren, _, hle, _⟩ := h.exists_front_of_childAt hchild
  exact ⟨by simp [hchildren], hle⟩

/-- The descent stays at or in front of the position. -/
theorem Reaches.start_le {root : Element} (hmade : root.Made) {e : Element} {position start : Nat}
    (h : Reaches root position e start) : e.Made ∧ start ≤ position := by
  induction h with
  | root => exact ⟨hmade, Nat.zero_le _⟩
  | child _ hchild ih =>
      obtain ⟨hmem, hoffset⟩ := ih.1.offset_le_of_childAt hchild
      exact ⟨ih.1.children _ hmem, by omega⟩

/-! ## Lookup -/

/-- Where a root has no child at the position, the descent does not start. -/
theorem descend_of_childAt_error {root : Element} (htoken : root.isToken = false) {position : Nat}
    {error : LookupError} (h : root.childAt position = .error error) :
    root.descend position = .error error := by
  have hheight : root.height = root.height - 1 + 1 := by
    cases root with
    | token t => cases htoken
    | node _ _ _ | list _ _ | separated _ _ => rfl
  unfold descend
  rw [hheight, descendFrom_succ htoken, Nat.sub_zero, h]

theorem tokenAt_of_childAt_error {root : Element} (htoken : root.isToken = false) {position : Nat}
    {error : LookupError} (h : root.childAt position = .error error) :
    root.tokenAt position = .error error := by
  unfold tokenAt
  rw [descend_of_childAt_error htoken h]
  rfl

/-- Finding a token at a position is a search in the sequence of tokens. -/
structure FindsToken (root : Element) (position : Nat) : Prop where
  width_eq : root.width = Token.widthAll root.tokens
  /-- Behind the tree, and in a tree without tokens, there is nothing to find. -/
  outOfRange : root.width < position ∨ root.tokens = [] →
    root.tokenAt position = .error (.positionOutOfRange position root.width)
  /-- Elsewhere the token that the position picks is found, with its own start, and no
  other token of the sequence spans the position. -/
  found : position ≤ root.width → root.tokens ≠ [] →
    ∃ before k after, root.tokenAt position = .ok ⟨Token.widthAll before, k⟩ ∧
      Token.Picked root.tokens position before k after ∧
      (∀ before' k' after', root.tokens = before' ++ k' :: after' →
        Token.SpansAt before' k' position → before' = before ∧ k' = k) ∧
      Reaches root position (.token k) (Token.widthAll before)
  /-- On the way down no element starts behind the position. -/
  start_le : ∀ e start, Reaches root position e start → start ≤ position

/-- Every lookup in a tree searches the sequence of its tokens. -/
theorem tokenAt_searches_tokens {root : Element} (h : root.Constructed)
    (hnode : root.isNode = true) (position : Nat) : root.FindsToken position := by
  have hmade := h.regular.made
  have htoken := isToken_of_isNode hnode
  have htokens := tokens_eq_leaves htoken
  refine ⟨?_, ?_, ?_, fun e start hreach => (hreach.start_le hmade).2⟩
  · rw [htokens]
    exact hmade.width_eq_leaves
  · intro hnone
    rw [htokens] at hnone
    exact tokenAt_of_childAt_error htoken (hmade.childAt_eq_error htoken hnone)
  · intro hposition hleaves
    rw [htokens] at hleaves ⊢
    obtain ⟨found, before, k, after, hfound, htokenAt, hpicked⟩ :=
      hmade.descendFrom_eq (Nat.le_refl _) (Nat.zero_le position)
        (by rwa [Nat.zero_add]) hleaves
    rw [Nat.zero_add] at htokenAt
    rw [Nat.sub_zero] at hpicked
    refine ⟨before, k, after, ?_, hpicked, ?_, ?_⟩
    · unfold tokenAt descend
      rw [hfound, ← htokenAt]
      rfl
    · intro before' k' after' heq hspans
      have hinside := hpicked.inside (hspans.lt_widthAll heq)
      exact hspans.unique hinside (heq.symm.trans hpicked.tokens_eq)
    · have hroot : Reaches root position root 0 := .root
      have hreach := hroot.descendFrom hfound
      rwa [htokenAt] at hreach

/-- A block without braces, in which empty lists stand around the only token with text. -/
def sparseBlock : Element :=
  makeNode .block
    [makeList [], .token (.make .openBrace [] .empty .empty),
      .token (.make .identifier "x".toList .empty .empty), makeList [],
      .token (.make .closeBrace [] .empty .empty)]

theorem constructed_sparseBlock : sparseBlock.Constructed := by
  have hopen := Constructed.of_make .openBrace rfl [] .empty .empty
  have hname := Constructed.of_make .identifier rfl "x".toList .empty .empty
  have hclose := Constructed.of_make .closeBrace rfl [] .empty .empty
  refine .of_makeNode .block rfl ?_
  simp only [List.forall_mem_cons]
  exact ⟨constructed_makeList_nil, hopen, hname, constructed_makeList_nil, hclose,
    List.forall_mem_nil _⟩

/-- The end of the block belongs to the token with text, not to the missing brace. -/
theorem tokenAt_sparseBlock_end :
    sparseBlock.Constructed ∧ sparseBlock.isNode = true ∧
      sparseBlock.tokenAt 1 = .ok ⟨0, .make .identifier "x".toList .empty .empty⟩ ∧
      sparseBlock.FindsToken 1 :=
  ⟨constructed_sparseBlock, rfl, rfl,
    tokenAt_searches_tokens constructed_sparseBlock rfl 1⟩

end Element

end Verbatim
