/-
  The nodes around a position are a path of flattened children.

  The descent to a position goes through lists without recording them.  What it records
  is a path all the same: a list stands for what it holds among the flattened children of
  a node, and it is as wide as what it holds, so the start that the descent gives to a slot
  of a list is the start that the slot has among the flattened children.  Each step of the
  descent thus goes from a node to one of its flattened children that reaches from the
  position backwards and up to it, and the path ends with the token.
-/
import Mathlib.Data.List.Chain
import Verbatim.Proofs.PositionLookup

set_option autoImplicit false

namespace Verbatim.Element

/-! ## Flattened children -/

/-- What an element stands for among flattened children: what it holds if it is a list,
and itself otherwise. -/
def flattened : Element → List Element
  | .list _ nodes => nodes
  | .separated _ slots => slots
  | other => [other]

theorem flatChildren_eq (e : Element) : e.flatChildren = e.children.flatMap flattened :=
  rfl

theorem Made.widthAll_flattened {e : Element} (h : e.Made) : widthAll e.flattened = e.width := by
  cases e with
  | token _ | node _ _ _ => simp [flattened]
  | list _ _ | separated _ _ => exact (h.width_eq_widthAll rfl).symm

/-- Replacing lists by what they hold keeps the width. -/
theorem widthAll_flatMap_flattened {es : List Element} (h : ∀ e ∈ es, e.Made) :
    widthAll (es.flatMap flattened) = widthAll es := by
  induction es with
  | nil => rfl
  | cons e rest ih =>
      obtain ⟨he, hrest⟩ := List.forall_mem_cons.mp h
      rw [List.flatMap_cons, widthAll_append, widthAll_cons, ih hrest, he.widthAll_flattened]

/-- Only nodes and tokens are left among flattened children. -/
theorem Regular.isFlat_flattened {c : Element} (h : c.Regular) :
    ∀ d ∈ c.flattened, (d.isNode || d.isToken) = true := by
  cases h with
  | token _ _ _ _ => exact List.forall_mem_singleton.mpr rfl
  | node _ _ => exact List.forall_mem_singleton.mpr rfl
  | list _ hnodes => exact fun d hd => by rw [hnodes d hd, Bool.true_or]
  | separated _ hslots _ => exact hslots

/-! ## Paths -/

namespace Located

/-- The second element is one of the flattened children of the first, and starts behind
the flattened children in front of it. -/
def HasChild (parent child : Located Element) : Prop :=
  ∃ before after, parent.item.flatChildren = before ++ child.item :: after ∧
    child.start = parent.start + widthAll before

/-- The range of the second element lies in the range of the first. -/
structure Contains (parent child : Located Element) : Prop where
  start_le : parent.start ≤ child.start
  stop_le : child.stop ≤ parent.stop

/-- The position lies in the range of the element, whose end counts. -/
structure Spans (l : Located Element) (position : Nat) : Prop where
  start_le : l.start ≤ position
  le_stop : position ≤ l.stop

/-- A flattened child lies in the range of its parent. -/
theorem HasChild.contains {parent child : Located Element} (h : parent.HasChild child)
    (hmade : parent.item.Made) (hnode : parent.item.isNode = true) : parent.Contains child := by
  obtain ⟨before, after, hflat, hstart⟩ := h
  have hwidth := widthAll_flatMap_flattened hmade.children
  rw [← flatChildren_eq, hflat, widthAll_append, widthAll_cons,
    ← hmade.width_eq_widthAll (isToken_of_isNode hnode)] at hwidth
  constructor
  · omega
  · unfold Located.stop
    omega

end Located

/-- The path from an element to a token at a position: nodes, each of which spans the
position and contains the next one as a flattened child. -/
inductive PathTo (position : Nat) : Located Element → List (Located Element) → Located Token → Prop
  | token (start : Nat) (t : Token) : PathTo position ⟨start, .token t⟩ [] ⟨start, t⟩
  | node {parent child : Located Element} {below : List (Located Element)} {t : Located Token} :
      parent.item.isNode = true → parent.Spans position → parent.HasChild child →
        parent.Contains child → PathTo position child below t →
          PathTo position parent (parent :: below) t

/-! ## One step of the descent -/

section Descent

variable {e : Element} {budget position start : Nat} {found : Descent}

/-- What a descent that comes to its end did first. -/
theorem exists_of_descendFrom (htoken : e.isToken = false)
    (h : descendFrom budget e position start = .ok found) :
    ∃ less c offset below, budget = less + 1 ∧ e.childAt (position - start) = .ok (c, offset) ∧
      descendFrom less c position (start + offset) = .ok below ∧ found.token = below.token ∧
      found.nodes = if e.isNode then ⟨start, e⟩ :: below.nodes else below.nodes := by
  cases budget with
  | zero =>
      cases e with
      | token t => cases htoken
      | node _ _ _ | list _ _ | separated _ _ => cases h
  | succ less =>
      rw [descendFrom_succ htoken] at h
      split at h
      · cases h
      · rename_i c offset hchild
        split at h
        · cases h
        · rename_i below hbelow
          cases h
          exact ⟨less, c, offset, below, rfl, hchild, hbelow, rfl, rfl⟩

/-- A descent that goes on in an element goes on in one of those that the element stands
for among flattened children, at the start that it has there. -/
theorem Regular.descendFrom_flattened (h : e.Regular) (hstart : start ≤ position)
    (hstop : position ≤ start + e.width)
    (hfound : descendFrom budget e position start = .ok found) :
    ∃ before d after less, e.flattened = before ++ d :: after ∧ d.Regular ∧ less ≤ budget ∧
      start + widthAll before ≤ position ∧ position ≤ start + widthAll before + d.width ∧
      descendFrom less d position (start + widthAll before) = .ok found := by
  cases e with
  | token _ | node _ _ _ =>
      exact ⟨[], _, [], budget, rfl, h, Nat.le_refl _, hstart, hstop, hfound⟩
  | list _ _ | separated _ _ =>
      -- A list is not recorded, so the descent below it is the whole descent.
      obtain ⟨less, c, offset, below, rfl, hchild, hbelow, htoken, hnodes⟩ :=
        exists_of_descendFrom rfl hfound
      obtain ⟨before, after, hchildren, rfl, hle, hge⟩ := h.made.exists_front_of_childAt hchild
      have hsame : found = below := by
        cases found
        cases below
        cases htoken
        cases hnodes
        rfl
      have hc : c.Regular := h.children c (by simp [hchildren])
      rw [hsame]
      exact ⟨before, c, after, less, hchildren, hc, Nat.le_succ less, by omega, by omega, hbelow⟩

/-- A descent from a node goes on in one of its flattened children. -/
theorem Regular.exists_child_of_descendFrom (h : e.Regular) (hnode : e.isNode = true)
    (hstart : start ≤ position) (hfound : descendFrom budget e position start = .ok found) :
    ∃ child below less, Located.HasChild ⟨start, e⟩ child ∧ child.item.Regular ∧
      (child.item.isNode || child.item.isToken) = true ∧ child.Spans position ∧ less < budget ∧
      descendFrom less child.item position child.start = .ok below ∧
      found.token = below.token ∧ found.nodes = ⟨start, e⟩ :: below.nodes := by
  obtain ⟨less, c, offset, below, rfl, hchild, hbelow, htoken, hnodes⟩ :=
    exists_of_descendFrom (isToken_of_isNode hnode) hfound
  rw [if_pos hnode] at hnodes
  obtain ⟨front, back, hchildren, rfl, hle, hge⟩ := h.made.exists_front_of_childAt hchild
  have hc : c.Regular := h.children c (by simp [hchildren])
  obtain ⟨before, d, after, fewer, hflat, hd, hless, hfrom, hto, hrest⟩ :=
    hc.descendFrom_flattened (by omega) (by omega) hbelow
  have hfront : ∀ x ∈ front, x.Made := fun x hx => h.made.children x (by simp [hchildren, hx])
  have hdflat := hc.isFlat_flattened d (by simp [hflat])
  refine ⟨⟨start + widthAll front + widthAll before, d⟩, below, fewer, ?_, hd, hdflat,
    ⟨hfrom, hto⟩, Nat.lt_succ_of_le hless, hrest, htoken, hnodes⟩
  refine ⟨front.flatMap flattened ++ before, after ++ back.flatMap flattened, ?_, ?_⟩
  · simp [flatChildren_eq, hchildren, hflat]
  · rw [widthAll_append, widthAll_flatMap_flattened hfront]
    exact Nat.add_assoc _ _ _

/-- A descent that comes to its end follows a path. -/
theorem Regular.pathTo_of_descendFrom (h : e.Regular) (hflat : (e.isNode || e.isToken) = true)
    (hspans : Located.Spans ⟨start, e⟩ position)
    (hfound : descendFrom budget e position start = .ok found) :
    PathTo position ⟨start, e⟩ found.nodes found.token := by
  induction budget using Nat.strongRecOn generalizing e start found with
  | ind budget ih =>
      by_cases hnode : e.isNode = true
      · obtain ⟨child, below, less, hchild, hregular, hflat', hspans', hless, hbelow, htoken,
          hnodes⟩ := h.exists_child_of_descendFrom hnode hspans.start_le hfound
        rw [htoken, hnodes]
        exact .node hnode hspans hchild (hchild.contains h.made hnode)
          (ih less hless hregular hflat' hspans' hbelow)
      · cases e with
        | token t =>
            obtain rfl : found = ⟨[], ⟨start, t⟩⟩ := by
              cases budget <;> exact (Except.ok.inj hfound).symm
            exact .token start t
        | node _ _ _ => exact absurd rfl hnode
        | list _ _ | separated _ _ => cases hflat

end Descent

/-! ## Whole paths -/

/-- The nodes around a position, outermost first: they start with the root, each one spans
the position, and contains the next one as a flattened child; the token that is found is a
flattened child of the last one. -/
structure AncestorPath (root : Element) (position : Nat) (nodes : List (Located Element))
    (t : Located Token) : Prop where
  head : nodes.head? = some ⟨0, root⟩
  isNode : ∀ l ∈ nodes, l.item.isNode = true
  spans : ∀ l ∈ nodes, l.Spans position
  chain : nodes.IsChain fun parent child => parent.HasChild child ∧ parent.Contains child
  last : ∃ l, nodes.getLast? = some l ∧ l.HasChild ⟨t.start, .token t.item⟩

section Path

variable {position : Nat} {l : Located Element} {nodes : List (Located Element)} {t : Located Token}

/-- A path is empty at a token, and starts with the node that it starts at. -/
theorem PathTo.cases_head (h : PathTo position l nodes t) :
    (nodes = [] ∧ l = ⟨t.start, .token t.item⟩) ∨ nodes.head? = some l := by
  cases h with
  | token start t => exact .inl ⟨rfl, rfl⟩
  | node _ _ _ _ _ => exact .inr rfl

theorem PathTo.forall_mem (h : PathTo position l nodes t) :
    ∀ m ∈ nodes, m.item.isNode = true ∧ m.Spans position := by
  induction h with
  | token _ _ => exact List.forall_mem_nil _
  | node hnode hspans _ _ _ ih => exact List.forall_mem_cons.mpr ⟨⟨hnode, hspans⟩, ih⟩

theorem PathTo.isChain (h : PathTo position l nodes t) :
    nodes.IsChain fun parent child => parent.HasChild child ∧ parent.Contains child := by
  induction h with
  | token _ _ => exact .nil
  | node _ _ hchild hcontains hbelow ih =>
      refine List.isChain_cons.mpr ⟨fun next hnext => ?_, ih⟩
      rcases hbelow.cases_head with ⟨rfl, _⟩ | hhead
      · cases hnext
      · obtain rfl := Option.some.inj (hhead.symm.trans hnext)
        exact ⟨hchild, hcontains⟩

/-- The last node of a path that is not empty has the token as a flattened child. -/
theorem PathTo.exists_last (h : PathTo position l nodes t) (hne : nodes ≠ []) :
    ∃ last, nodes.getLast? = some last ∧ last.HasChild ⟨t.start, .token t.item⟩ := by
  induction h with
  | token _ _ => exact absurd rfl hne
  | @node parent child below _ _ _ hchild _ hbelow ih =>
      rcases hbelow.cases_head with ⟨rfl, rfl⟩ | hhead
      · exact ⟨parent, rfl, hchild⟩
      · have hne' : below ≠ [] := by
          rintro rfl
          cases hhead
        obtain ⟨last, hlast, htoken⟩ := ih hne'
        exact ⟨last, by rw [List.getLast?_cons, hlast]; rfl, htoken⟩

end Path

/-- The answer of a search for the last node that satisfies a predicate. -/
def IsLastMatch (pred : Element → Bool) (nodes : List (Located Element)) :
    Option (Located Element) → Prop
  | none => ∀ l ∈ nodes, pred l.item = false
  | some l => ∃ before after, nodes = before ++ l :: after ∧ pred l.item = true ∧
      ∀ m ∈ after, pred m.item = false

theorem isLastMatch_find?_reverse (pred : Element → Bool) (nodes : List (Located Element)) :
    IsLastMatch pred nodes (nodes.reverse.find? fun l => pred l.item) := by
  cases hfind : nodes.reverse.find? fun l => pred l.item with
  | none =>
      intro l hl
      have hnone := List.find?_eq_none.mp hfind l (List.mem_reverse.mpr hl)
      simpa using hnone
  | some l =>
      obtain ⟨hpred, before, after, hnodes, hbefore⟩ := List.find?_eq_some_iff_append.mp hfind
      refine ⟨after.reverse, before.reverse, ?_, hpred, fun m hm => ?_⟩
      · rw [← List.reverse_reverse nodes, hnodes]
        simp
      · simpa using hbefore m (List.mem_reverse.mp hm)

/-! ## Ancestors -/

/-- Finding the nodes around a position follows the search for the token there: both
succeed together, and then the nodes are the path from the root to the token.  The innermost
node that satisfies a predicate is the last one on the path that does. -/
structure FindsAncestors (root : Element) (position : Nat) : Prop where
  succeeds_iff : (∃ nodes, root.ancestorsAt position = .ok nodes) ↔
    ∃ t, root.tokenAt position = .ok t
  path : ∀ nodes, root.ancestorsAt position = .ok nodes →
    ∃ t, root.tokenAt position = .ok t ∧ root.AncestorPath position nodes t
  innermost : ∀ nodes, root.ancestorsAt position = .ok nodes → ∀ pred,
    ∃ found, root.innermostAt position pred = .ok found ∧ IsLastMatch pred nodes found

theorem ancestorsAt_eq_ok_iff {root : Element} {position : Nat} {nodes : List (Located Element)} :
    root.ancestorsAt position = .ok nodes ↔
      ∃ found, root.descend position = .ok found ∧ found.nodes = nodes := by
  unfold ancestorsAt
  cases root.descend position with
  | error _ => simp [Except.map]
  | ok found => simp [Except.map]

theorem tokenAt_eq_ok_iff {root : Element} {position : Nat} {t : Located Token} :
    root.tokenAt position = .ok t ↔
      ∃ found, root.descend position = .ok found ∧ found.token = t := by
  unfold tokenAt
  cases root.descend position with
  | error _ => simp [Except.map]
  | ok found => simp [Except.map]

/-- A descent from a root follows a path from the root. -/
theorem Regular.ancestorPath {root : Element} (h : root.Regular) (hnode : root.isNode = true)
    {position : Nat} {found : Descent} (hfound : root.descend position = .ok found) :
    root.AncestorPath position found.nodes found.token := by
  have htoken := isToken_of_isNode hnode
  obtain ⟨_, _, _, _, _, hchild, _⟩ := exists_of_descendFrom htoken hfound
  have hposition : position ≤ root.width := by
    refine Nat.not_lt.mp fun hlt => ?_
    rw [Nat.sub_zero, h.made.childAt_eq_error htoken (.inl hlt)] at hchild
    cases hchild
  have hspans : Located.Spans ⟨0, root⟩ position := ⟨Nat.zero_le _, by
    unfold Located.stop
    rwa [Nat.zero_add]⟩
  have hpath := h.pathTo_of_descendFrom (by rw [hnode, Bool.true_or]) hspans hfound
  have hhead : found.nodes.head? = some ⟨0, root⟩ := by
    refine hpath.cases_head.resolve_left fun ⟨_, heq⟩ => ?_
    have hitem : root = .token found.token.item := congrArg Located.item heq
    rw [hitem] at hnode
    cases hnode
  have hne : found.nodes ≠ [] := by
    intro hnil
    rw [hnil] at hhead
    cases hhead
  exact ⟨hhead, fun l hl => (hpath.forall_mem l hl).1, fun l hl => (hpath.forall_mem l hl).2,
    hpath.isChain, hpath.exists_last hne⟩

/-- In every tree and at every position, the nodes around the position are a path of
flattened children that leads to the token at the position. -/
theorem ancestorsAt_path_to_token {root : Element} (h : root.Constructed)
    (hnode : root.isNode = true) (position : Nat) : root.FindsAncestors position where
  succeeds_iff := by
    simp only [ancestorsAt_eq_ok_iff, tokenAt_eq_ok_iff]
    exact ⟨fun ⟨_, found, hfound, _⟩ => ⟨_, found, hfound, rfl⟩,
      fun ⟨_, found, hfound, _⟩ => ⟨_, found, hfound, rfl⟩⟩
  path := by
    intro nodes hnodes
    obtain ⟨found, hfound, rfl⟩ := ancestorsAt_eq_ok_iff.mp hnodes
    exact ⟨found.token, tokenAt_eq_ok_iff.mpr ⟨found, hfound, rfl⟩,
      h.regular.ancestorPath hnode hfound⟩
  innermost := by
    intro nodes hnodes pred
    refine ⟨_, ?_, isLastMatch_find?_reverse pred nodes⟩
    unfold innermostAt
    rw [hnodes]
    rfl

/-- The second argument of a call. -/
def laterArgument : Element :=
  makeNode .nameExpression [.token (.make .identifier "b".toList .empty .empty)]

/-- Two arguments with a comma and a space between them. -/
def spacedSlots : List Element :=
  [makeNode .nameExpression [.token (.make .identifier "a".toList .empty .empty)],
    .token (.make .comma ",".toList .empty (.ofList [⟨.whitespace, " ".toList⟩])), laterArgument]

/-- The arguments `(a, b)` of a call, with an empty list in front of them. -/
def spacedArguments : Element :=
  makeNode .argumentList
    [.token (.make .openParen "(".toList .empty .empty), makeList [],
      .separated (measureAll spacedSlots) spacedSlots,
      .token (.make .closeParen ")".toList .empty .empty)]

theorem constructed_spacedArguments : spacedArguments.Constructed := by
  have hname (text : Text) : Constructed
      (makeNode .nameExpression [.token (.make .identifier text .empty .empty)]) :=
    .of_makeNode .nameExpression rfl
      (List.forall_mem_singleton.mpr (.of_make .identifier rfl text .empty .empty))
  have hcomma := Constructed.of_make .comma rfl ",".toList .empty
    (.ofList [⟨.whitespace, " ".toList⟩])
  have hslots : ∀ c ∈ spacedSlots, c.Constructed := by
    simp only [spacedSlots, laterArgument, List.forall_mem_cons]
    exact ⟨hname _, hcomma, hname _, List.forall_mem_nil _⟩
  refine .of_makeNode .argumentList rfl ?_
  simp only [List.forall_mem_cons]
  exact ⟨.of_make .openParen rfl _ .empty .empty, constructed_makeList_nil,
    .separated hslots (by decide) rfl, .of_make .closeParen rfl _ .empty .empty,
    List.forall_mem_nil _⟩

/-- The path to the second argument goes through the list, which is not on it. -/
theorem ancestorsAt_spacedArguments :
    spacedArguments.Constructed ∧ spacedArguments.isNode = true ∧
      spacedArguments.ancestorsAt 4 = .ok [⟨0, spacedArguments⟩, ⟨4, laterArgument⟩] ∧
      spacedArguments.FindsAncestors 4 :=
  ⟨constructed_spacedArguments, rfl, rfl,
    ancestorsAt_path_to_token constructed_spacedArguments rfl 4⟩

end Verbatim.Element
