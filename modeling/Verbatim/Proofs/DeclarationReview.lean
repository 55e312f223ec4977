/-
  What a review reports about the declarations of a text.

  A review carries a position along, adds up widths inside of a declaration, and goes back
  from the end of a list to its last separator.  What it has to report is stated here without
  any of that.  The declarations of a tree are among the calls of a tracking walk, and what
  stands one behind the other is placed by the texts in front of it, so each report is the
  range of a token at its place.  No declaration stands inside of another one, since a value
  is an expression; the reports on one declaration therefore end before those on the next one
  start.  And a separator that ends a list is never one that the source does not have, so
  the report on it covers a comma.
-/
import Mathlib.Data.List.Basic
import Verbatim.Tree.Position
import Verbatim.Proofs.Conformance
import Verbatim.Proofs.ReportOrder
import Verbatim.Proofs.ReportRanges
import Verbatim.Proofs.TokenForms

set_option autoImplicit false

namespace Verbatim

open Element (Located)

/-! ## Places -/

section Placed

variable {α : Type} (text : α → Text)

/-- Things whose texts stand one behind the other, with the positions at which they start. -/
def placed : List α → Nat → List (Located α)
  | [], _ => []
  | a :: rest, start => ⟨start, a⟩ :: placed rest (start + (text a).width)

theorem placed_append (as bs : List α) (start : Nat) :
    placed text (as ++ bs) start =
      placed text as start ++ placed text bs (start + Text.width (as.flatMap text)) := by
  induction as generalizing start with
  | nil => rfl
  | cons a rest ih =>
      rw [List.cons_append, placed, placed, ih, List.flatMap_cons, Text.width_append,
        Nat.add_assoc, List.cons_append]

theorem map_item_placed (as : List α) (start : Nat) :
    (placed text as start).map Located.item = as := by
  induction as generalizing start with
  | nil => rfl
  | cons a rest ih => rw [placed, List.map_cons, ih]

variable {text}

theorem mem_of_mem_placed {as : List α} {start : Nat} {l : Located α}
    (h : l ∈ placed text as start) : l.item ∈ as := by
  have hitem := List.mem_map_of_mem (f := Located.item) h
  rwa [map_item_placed] at hitem

/-- What is placed stands in the text at its place. -/
theorem hasAt_of_mem_placed {as : List α} {start : Nat} {l : Located α}
    (h : l ∈ placed text as start) :
    Text.HasAt (as.flatMap text) start l.start (text l.item) := by
  induction as generalizing start with
  | nil => cases h
  | cons a rest ih =>
      rw [List.flatMap_cons]
      rcases List.mem_cons.mp h with rfl | h
      · exact (Text.hasAt_whole _ _).append_right _
      · exact (ih h).append_left _

/-- Each place ends in front of the later ones. -/
theorem pairwise_placed (as : List α) (start : Nat) :
    (placed text as start).Pairwise fun a b => a.start + (text a.item).width ≤ b.start := by
  induction as generalizing start with
  | nil => exact .nil
  | cons a rest ih =>
      refine .cons (fun l hl => ?_) (ih _)
      obtain ⟨before, _, _, hstart⟩ := hasAt_of_mem_placed hl
      rw [hstart]
      exact Nat.le_add_right _ _

end Placed

/-- A problem of a range. -/
def Diagnostic.ofRange (range : Nat × Nat) (message : String) : Diagnostic :=
  ⟨range.1, range.2, message⟩

/-- The significant text of a token stands behind the trivia in front of it. -/
theorem Token.hasAt_text (t : Token) (start : Nat) :
    t.fullText.HasAt start (start + t.leading.text.width) t.text :=
  ⟨t.leading.text, t.trailing.text, rfl, rfl⟩

/-- Tokens that the source does not have take no room, so the first token that it has starts
where all of them start. -/
theorem Token.find?_placed {ts : List Token}
    (h : ∀ t ∈ ts, t.isZeroWidth = true → t.fullText = []) (start : Nat) :
    ((placed Token.fullText ts start).find? fun l => !l.item.isZeroWidth) =
      ((ts.filter fun t => !t.isZeroWidth).head?).map fun t => ⟨start, t⟩ := by
  induction ts with
  | nil => rfl
  | cons t rest ih =>
      obtain ⟨ht, hrest⟩ := List.forall_mem_cons.mp h
      cases hzero : t.isZeroWidth with
      | false => simp [placed, hzero]
      | true =>
          have hempty := ht hzero
          simpa [placed, hzero, hempty] using ih hrest

namespace Element

theorem trackCallsAll_eq_flatMap (es : List Element) (start : Nat) :
    trackCallsAll es start =
      (placed fullText es start).flatMap fun l => l.item.trackCalls l.start := by
  induction es generalizing start with
  | nil => rfl
  | cons e rest ih => rw [trackCallsAll, ih, placed, List.flatMap_cons]

theorem hasAt_of_mem_trackCallsAll {es : List Element}
    (h : ∀ e ∈ es, ∀ start, ∀ c ∈ e.trackCalls start, e.fullText.HasAt start c.2 c.1.fullText)
    (start : Nat) :
    ∀ c ∈ trackCallsAll es start, (fullTextAll es).HasAt start c.2 c.1.fullText := by
  intro c hc
  rw [trackCallsAll_eq_flatMap] at hc
  obtain ⟨l, hl, hc⟩ := List.mem_flatMap.mp hc
  rw [fullTextAll_eq_flatMap]
  exact (hasAt_of_mem_placed hl).trans (h l.item (mem_of_mem_placed hl) l.start c hc)

/-- A tracking walk calls its hook for elements with the positions at which they stand. -/
theorem hasAt_of_mem_trackCalls (e : Element) (start : Nat) :
    ∀ c ∈ e.trackCalls start, e.fullText.HasAt start c.2 c.1.fullText := by
  induction e using Element.induction generalizing start with
  | token t => exact List.forall_mem_singleton.mpr (Text.hasAt_whole _ _)
  | node kind measure children ih =>
      exact List.forall_mem_cons.mpr
        ⟨Text.hasAt_whole _ _, hasAt_of_mem_trackCallsAll ih start⟩
  | list measure nodes ih => exact hasAt_of_mem_trackCallsAll ih start
  | separated measure slots ih => exact hasAt_of_mem_trackCallsAll ih start

/-! ## What is to be reported -/

/-- The declarations of variables among the calls of a tracking walk. -/
def declarationsOf (calls : List (Element × Nat)) : List (Located Element) :=
  (calls.filter fun c => c.1.isNodeIn [.variableDeclaration]).map fun c => ⟨c.2, c.1⟩

/-- The declarations of variables in an element that starts at a position, in source order,
with their absolute starts. -/
def declarations (e : Element) (start : Nat) : List (Located Element) :=
  declarationsOf (e.trackCalls start)

/-- A declarator without a value. -/
def lacksValue (slot : Element) : Bool :=
  slot.isNode && slot.children.all fun c => c.kind != .equalsValueClause

/-- The range of the significant text of a token. -/
def Located.significantRange (t : Located Token) : Nat × Nat :=
  (t.start + t.item.leading.text.width,
    t.start + t.item.leading.text.width + t.item.text.width)

/-- The significant range of the first token that the source has, or the empty range at the
start of an element without such a token. -/
def Located.firstRange (l : Located Element) : Nat × Nat :=
  match (placed Token.fullText l.item.leaves l.start).find? fun t => !t.item.isZeroWidth with
  | some t => t.significantRange
  | none => (l.start, l.start)

/-- The reports on declarators without a value, in order. -/
def missingValues (slots : List (Located Element)) : List Diagnostic :=
  (slots.filter fun l => l.item.lacksValue).map fun l =>
    .ofRange l.firstRange "const declarations must be initialized"

/-- The report on a separator behind the last declarator. -/
def endingComma (slots : List (Located Element)) : List Diagnostic :=
  match slots.getLast? with
  | some ⟨start, .token separator⟩ =>
      [.ofRange (Located.significantRange ⟨start, separator⟩)
        "trailing comma not allowed in variable declaration"]
  | _ => []

/-- The reports on a declaration: on declarators without a value if its keyword is that of
constants, and then on a separator at its end. -/
def declarationReports (d : Located Element) : List Diagnostic :=
  match placed fullText d.item.children d.start with
  | [⟨_, .token keyword⟩, ⟨first, .separated _ slots⟩] =>
      (if keyword.kind = .constKw then missingValues (placed fullText slots first) else []) ++
        endingComma (placed fullText slots first)
  | _ => []

/-- A declaration as the grammar has it: a keyword, and declarators with a comma between any
two and possibly one at the end. -/
inductive IsDeclaration : Element → Prop
  | intro (measure inner : Measure) {keyword : Token} {slots : List Element} :
      keyword.kind ∈ [.varKw, .letKw, .constKw] →
        alternates [.variableDeclarator] slots = true → slots ≠ [] →
          IsDeclaration
            (.node .variableDeclaration measure [.token keyword, .separated inner slots])

theorem declarationsOf_append (xs ys : List (Element × Nat)) :
    declarationsOf (xs ++ ys) = declarationsOf xs ++ declarationsOf ys := by
  rw [declarationsOf, List.filter_append, List.map_append]
  rfl

theorem declarationsOf_cons_pos {c : Element × Nat} (h : c.1.isNodeIn [.variableDeclaration] = true)
    (rest : List (Element × Nat)) :
    declarationsOf (c :: rest) = ⟨c.2, c.1⟩ :: declarationsOf rest := by
  rw [declarationsOf, List.filter_cons, if_pos h]
  rfl

theorem declarationsOf_cons_neg {c : Element × Nat}
    (h : c.1.isNodeIn [.variableDeclaration] = false) (rest : List (Element × Nat)) :
    declarationsOf (c :: rest) = declarationsOf rest := by
  rw [declarationsOf, List.filter_cons, h]
  rfl

theorem isNodeIn_declaration_iff {kind : Kind} {measure : Measure} {children : List Element} :
    (node kind measure children).isNodeIn [.variableDeclaration] = true ↔
      kind = .variableDeclaration := by
  simp [isNodeIn]

theorem map_item_declarationsOf {es : List Element}
    (h : ∀ e ∈ es, ∀ start, (e.declarations start).map Located.item =
      e.nodes.filter (isNodeIn [.variableDeclaration])) (start : Nat) :
    (declarationsOf (trackCallsAll es start)).map Located.item =
      (nodesAll es).filter (isNodeIn [.variableDeclaration]) := by
  induction es generalizing start with
  | nil => rfl
  | cons e rest ih =>
      obtain ⟨he, hrest⟩ := List.forall_mem_cons.mp h
      rw [trackCallsAll, nodesAll, declarationsOf_append, List.map_append, List.filter_append,
        ih hrest, ← he start]
      rfl

/-- The declarations are all nodes of their kind. -/
theorem map_item_declarations (e : Element) (start : Nat) :
    (e.declarations start).map Located.item =
      e.nodes.filter (isNodeIn [.variableDeclaration]) := by
  induction e using Element.induction generalizing start with
  | token t => rfl
  | node kind measure children ih =>
      have hbelow := map_item_declarationsOf ih start
      rw [declarations, trackCalls, nodes]
      cases h : (node kind measure children).isNodeIn [.variableDeclaration] with
      | true => rw [declarationsOf_cons_pos h, List.filter_cons_of_pos h, List.map_cons, hbelow]
      | false =>
          rw [declarationsOf_cons_neg h, List.filter_cons_of_neg (by simp [h]), hbelow]
  | list measure nodes ih => exact map_item_declarationsOf ih start
  | separated measure slots ih => exact map_item_declarationsOf ih start

/-! ## The grammar of declarations -/

/-- Kinds of the nodes below a declaration. -/
def declared : List Kind :=
  Grammar.expressions ++
    [.argumentList, .variableDeclarator, .equalsValueClause, .typeAscription, .typeReference]

theorem isClosed_declared : Grammar.isClosed declared = true := by
  decide

theorem isDeclaration_of_conforms {e : Element} (h : e.isNodeIn [.variableDeclaration] = true)
    (hconforms : e.conforms = true) : e.IsDeclaration := by
  cases e with
  | node kind measure children =>
      obtain rfl := isNodeIn_declaration_iff.mp h
      obtain ⟨first, rest, rfl, hkeyword, hrest⟩ :=
        Part.exists_of_accepts_cons (accepts_of_conforms rfl hconforms)
      obtain ⟨last, rfl, hlist⟩ := Part.exists_of_accepts_one hrest
      cases first with
      | token keyword =>
          cases last with
          | separated inner slots =>
              simp only [Symbol.admits, Bool.and_eq_true, Bool.not_true, Bool.false_or,
                Bool.not_eq_true', List.isEmpty_eq_false_iff] at hlist
              exact .intro measure inner (List.contains_iff_mem.mp hkeyword) hlist.1 hlist.2
          | token _ | node _ _ _ | list _ _ => cases hlist
      | node _ _ _ | list _ _ | separated _ _ => cases hkeyword
  | token _ | list _ _ | separated _ _ => cases h

/-- No declaration stands inside of another one. -/
theorem declarations_below {measure : Measure} {children : List Element}
    (hconforms : ∀ n ∈ (node .variableDeclaration measure children).nodes, n.conforms = true)
    (start : Nat) : declarationsOf (trackCallsAll children start) = [] := by
  rw [nodes] at hconforms
  obtain ⟨hself, hbelow⟩ := List.forall_mem_cons.mp hconforms
  have hwithin := isNodeIn_of_accepts isClosed_declared (by decide)
    (accepts_of_conforms rfl hself) hbelow
  have hitems := map_item_declarationsOf
    (fun e (_ : e ∈ children) => e.map_item_declarations) start
  rw [List.filter_eq_nil_iff.mpr] at hitems
  · exact List.map_eq_nil_iff.mp hitems
  · intro n hn hdeclaration
    have hkind := contains_of_isNodeIn (hwithin n hn)
    have hother := contains_of_isNodeIn hdeclaration
    rw [List.contains_iff_mem, List.mem_singleton] at hother
    rw [hother] at hkind
    cases hkind

/-- Alternating elements end in a token exactly if there is an even number of them. -/
theorem isToken_getLast?_of_alternates {kinds : List Kind} {es : List Element}
    (h : alternates kinds es = true) :
    ∀ e ∈ es.getLast?, e.isToken = (es.length % 2 == 0) := by
  fun_induction alternates kinds es with
  | case1 =>
      intro e he
      cases he
  | case2 first =>
      intro e he
      obtain rfl : first = e := Option.some.inj he
      exact isToken_of_isNode (isNode_of_isNodeIn h)
  | case3 first comma rest ih =>
      simp only [Bool.and_eq_true] at h
      obtain ⟨⟨_, hcomma⟩, hrest⟩ := h
      intro e he
      cases rest with
      | nil =>
          obtain rfl : comma = e := Option.some.inj he
          simp [(isToken_of_isTokenIn hcomma).2]
      | cons next more =>
          rw [List.getLast?_cons_cons, List.getLast?_cons_cons] at he
          rw [ih hrest e he]
          simp only [List.length_cons]
          congr 1
          omega

/-! ## One declaration -/

theorem Plain.ofRange_firstRange {e : Element} (h : e.Plain) (start : Nat) (message : String) :
    Diagnostic.ofRange (Located.firstRange ⟨start, e⟩) message =
      reportToken e.firstToken? start message := by
  rw [Located.firstRange, Token.find?_placed h.absent, firstToken?_eq, presentLeaves]
  cases (e.leaves.filter fun t => !t.isZeroWidth).head? <;> rfl

theorem lacksValue_eq (slot : Element) :
    slot.lacksValue = (slot.isNode && !slot.isInitialized) := by
  rw [lacksValue, isInitialized, List.not_any_eq_all_not]
  rfl

/-- The sum of the widths of slots leads to the places of declarators. -/
theorem uninitialized_eq {slots : List Element} (h : ∀ c ∈ slots, c.Plain) (start : Nat) :
    uninitialized slots start = missingValues (placed fullText slots start) := by
  induction slots generalizing start with
  | nil => rfl
  | cons slot rest ih =>
      obtain ⟨hslot, hrest⟩ := List.forall_mem_cons.mp h
      rw [uninitialized, placed, missingValues, List.filter_cons, hslot.made.width_eq, ih hrest,
        ← lacksValue_eq, ← hslot.ofRange_firstRange]
      cases slot.lacksValue <;> rfl

/-- A token behind an odd number of slots is the separator behind the last node. -/
theorem separatorAt_concat {front : List Element} {e : Element} (he : e.isToken = true)
    (hodd : front.length % 2 = 1) :
    Separated.separatorAt (front ++ [e]) (Separated.count (front ++ [e]) - 1) = .ok e := by
  have hcount : Separated.count (front ++ [e]) = front.length / 2 + 1 := by
    rw [Separated.count, List.length_append, List.length_singleton]
    omega
  have hindex : 2 * (front.length / 2 + 1 - 1) + 1 = front.length := by omega
  rw [Separated.separatorAt_eq_ite, hcount, if_neg (by omega), hindex,
    List.getElem?_concat_length]
  simp [he]

/-- The way back from the end of a list leads to the place of a separator at its end. -/
theorem trailingComma_eq {kinds : List Kind} {slots : List Element}
    (h : alternates kinds slots = true) (start : Nat) :
    trailingComma slots start (fullTextAll slots).width =
      endingComma (placed fullText slots start) := by
  rcases List.eq_nil_or_concat slots with rfl | ⟨front, last, rfl⟩
  · rfl
  · rw [List.concat_eq_append] at h ⊢
    have hparity := isToken_getLast?_of_alternates h last (by simp)
    have hplaced : (placed fullText (front ++ [last]) start).getLast? =
        some ⟨start + (fullTextAll front).width, last⟩ := by
      rw [placed_append, fullTextAll_eq_flatMap]
      exact List.getLast?_concat
    have htrailing : Separated.hasTrailingSeparator (front ++ [last]) = last.isToken := by
      rw [hparity, Separated.hasTrailingSeparator, List.length_append, List.length_singleton]
      rfl
    rw [trailingComma, htrailing, endingComma, hplaced]
    cases last with
    | token separator =>
        have hodd : front.length % 2 = 1 := by
          have heven := beq_iff_eq.mp hparity.symm
          rw [List.length_append, List.length_singleton] at heven
          omega
        have hstart : start + (fullTextAll (front ++ [.token separator])).width -
            separator.fullWidth = start + (fullTextAll front).width := by
          rw [fullTextAll_append, Text.width_append, fullTextAll, fullTextAll, List.append_nil,
            fullText, Token.width_fullText]
          omega
        rw [if_pos (show (token separator).isToken = true from rfl), separatorAt_concat rfl hodd]
        change [reportToken (some separator) _ _] = _
        rw [hstart]
        rfl
    | node _ _ _ | list _ _ | separated _ _ => rfl

/-- The reports of a review on a declaration itself. -/
def reviewDeclaration (d : Located Element) : List Diagnostic :=
  reviewDeclarators (declaresConstants d.item.children) d.item.children d.start

/-- On a declaration a review reports what is to be reported. -/
theorem reviewDeclaration_eq {d : Located Element} (h : d.item.IsDeclaration)
    (hplain : d.item.Plain) : reviewDeclaration d = declarationReports d := by
  obtain ⟨start, item⟩ := d
  cases h with
  | @intro measure inner keyword slots hkeyword halternate hslots =>
      have hlist : (separated inner slots).Plain :=
        hplain.children rfl _ (List.mem_cons_of_mem _ List.mem_cons_self)
      have hplainSlots : ∀ c ∈ slots, c.Plain := hlist.children rfl
      have hwidth : inner.width = (fullTextAll slots).width := hlist.made.width_eq
      have hkeywordWidth : (Element.token keyword).width = keyword.fullText.width :=
        keyword.width_fullText.symm
      simp only [reviewDeclaration, declarationReports, children, reviewDeclarators,
        declaresConstants, placed, List.nil_append, List.append_nil, hwidth, hkeywordWidth,
        trailingComma_eq halternate, uninitialized_eq hplainSlots, fullText,
        beq_iff_eq]

/-- Declarators without a value, of which the second has no name either, with a comma behind
each. -/
def unnamedSlots : List Element :=
  [makeNode .variableDeclarator [.token (.make .identifier "é".toList .empty .empty)],
    .token (.make .comma ",".toList .empty (.ofList [⟨.whitespace, " ".toList⟩])),
    makeNode .variableDeclarator [.token (.make .identifier [] .empty .empty)],
    .token (.make .comma ",".toList (.ofList [⟨.whitespace, " ".toList⟩]) .empty)]

/-- A name of two bytes is reported, and a name that is missing, where its declarator starts;
the trivia in front of a comma is not. -/
example :
    declarationReports
        ⟨4, makeNode .variableDeclaration
          [.token (.make .constKw "const".toList .empty (.ofList [⟨.whitespace, " ".toList⟩])),
            .separated (measureAll unnamedSlots) unnamedSlots]⟩ =
      [⟨10, 12, "const declarations must be initialized"⟩,
        ⟨14, 14, "const declarations must be initialized"⟩,
        ⟨15, 16, "trailing comma not allowed in variable declaration"⟩] := by
  decide

/-! ## Whole trees -/

theorem reviewAllFrom_eq {es : List Element}
    (h : ∀ e ∈ es, ∀ start, e.reviewFrom start =
      ((e.declarations start).flatMap reviewDeclaration, start + e.fullText.width))
    (start : Nat) :
    reviewAllFrom es start = ((declarationsOf (trackCallsAll es start)).flatMap reviewDeclaration,
      start + (fullTextAll es).width) := by
  induction es generalizing start with
  | nil => rfl
  | cons e rest ih =>
      obtain ⟨he, hrest⟩ := List.forall_mem_cons.mp h
      rw [reviewAllFrom, he, trackCallsAll, fullTextAll, declarationsOf_append,
        List.flatMap_append, Text.width_append, ← Nat.add_assoc]
      simp only [ih hrest]
      rfl

/-- A review reports on the declarations one after the other, each at its place. -/
theorem reviewFrom_eq (e : Element) (start : Nat) :
    e.reviewFrom start =
      ((e.declarations start).flatMap reviewDeclaration, start + e.fullText.width) := by
  induction e using Element.induction generalizing start with
  | token t =>
      rw [reviewFrom, fullText, Token.width_fullText]
      rfl
  | node kind measure children ih =>
      have hbelow := reviewAllFrom_eq ih start
      rw [reviewFrom, hbelow, declarations, trackCalls]
      cases h : (node kind measure children).isNodeIn [.variableDeclaration] with
      | true =>
          rw [declarationsOf_cons_pos h, List.flatMap_cons,
            if_pos (isNodeIn_declaration_iff.mp h)]
          rfl
      | false =>
          have hkind : kind ≠ .variableDeclaration := fun hkind =>
            Bool.false_ne_true (h.symm.trans (isNodeIn_declaration_iff.mpr hkind))
          rw [declarationsOf_cons_neg h, if_neg hkind]
          rfl
  | list measure nodes ih => exact reviewAllFrom_eq ih start
  | separated measure slots ih => exact reviewAllFrom_eq ih start

/-- What an element hands down to its children holds of the nodes below it. -/
theorem forall_nodes_of_children {p : Element → Prop}
    (hchildren : ∀ e, p e → e.isToken = false → ∀ c ∈ e.children, p c) {e : Element} (h : p e) :
    ∀ n ∈ e.nodes, p n := by
  induction e using Element.induction with
  | token t => exact List.forall_mem_nil _
  | node kind measure children ih =>
      have hc := hchildren _ h rfl
      refine List.forall_mem_cons.mpr ⟨h, ?_⟩
      exact forall_mem_nodesAll.mpr fun c hmem => ih c hmem (hc c hmem)
  | list measure nodes ih | separated measure slots ih =>
      have hc := hchildren _ h rfl
      exact forall_mem_nodesAll.mpr fun c hmem => ih c hmem (hc c hmem)

/-- The leaves below a node are leaves of the element that the node stands in. -/
theorem mem_leaves_of_mem_nodes {e n : Element} (hn : n ∈ e.nodes) :
    ∀ t ∈ n.leaves, t ∈ e.leaves := by
  refine forall_nodes_of_children (p := fun x => ∀ t ∈ x.leaves, t ∈ e.leaves)
    (fun x hx htoken => ?_) (fun _ ht => ht) n hn
  rwa [leaves_eq_children htoken, forall_mem_leavesAll] at hx

section Conforming

variable {e : Element} {start : Nat} {d : Located Element}

theorem mem_nodes_of_mem_declarations (h : d ∈ e.declarations start) :
    d.item ∈ e.nodes ∧ d.item.isNodeIn [.variableDeclaration] = true := by
  have hitem := List.mem_map_of_mem (f := Located.item) h
  rw [map_item_declarations] at hitem
  exact List.mem_filter.mp hitem

theorem isDeclaration_of_mem_declarations (hconforms : ∀ n ∈ e.nodes, n.conforms = true)
    (h : d ∈ e.declarations start) : d.item.IsDeclaration := by
  obtain ⟨hnode, hkind⟩ := mem_nodes_of_mem_declarations h
  exact isDeclaration_of_conforms hkind (hconforms _ hnode)

theorem Plain.of_mem_declarations (hplain : e.Plain) (h : d ∈ e.declarations start) :
    d.item.Plain :=
  forall_nodes_of_children (fun _ h htoken => h.children htoken) hplain _
    (mem_nodes_of_mem_declarations h).1

theorem hasAt_of_mem_declarations (h : d ∈ e.declarations start) :
    e.fullText.HasAt start d.start d.item.fullText := by
  obtain ⟨c, hc, rfl⟩ := List.mem_map.mp h
  exact e.hasAt_of_mem_trackCalls start c (List.mem_filter.mp hc).1

/-- A review of a tree that has the shape of the grammar reports what is to be reported. -/
theorem Plain.review_eq (hplain : e.Plain) (hconforms : ∀ n ∈ e.nodes, n.conforms = true) :
    e.review = (e.declarations 0).flatMap declarationReports := by
  rw [review, reviewFrom_eq]
  refine List.flatMap_congr fun d hd => ?_
  exact reviewDeclaration_eq (isDeclaration_of_mem_declarations hconforms hd)
    (hplain.of_mem_declarations hd)

/-! ## Order -/

/-- The place of the first element ends in front of that of the second. -/
def Located.IsBefore (a b : Located Element) : Prop :=
  a.start + a.item.fullText.width ≤ b.start

theorem pairwise_declarationsOf {es : List Element}
    (h : ∀ e ∈ es, ∀ start, (e.declarations start).Pairwise Located.IsBefore) (start : Nat) :
    (declarationsOf (trackCallsAll es start)).Pairwise Located.IsBefore := by
  induction es generalizing start with
  | nil => exact .nil
  | cons e rest ih =>
      obtain ⟨he, hrest⟩ := List.forall_mem_cons.mp h
      rw [trackCallsAll, declarationsOf_append, List.pairwise_append]
      refine ⟨he start, ih hrest _, fun a ha b hb => ?_⟩
      obtain ⟨before, after, htext, hstart⟩ := hasAt_of_mem_declarations ha
      obtain ⟨c, hc, rfl⟩ := List.mem_map.mp hb
      obtain ⟨_, _, _, hlater⟩ := hasAt_of_mem_trackCallsAll
        (fun e _ => e.hasAt_of_mem_trackCalls) _ c (List.mem_filter.mp hc).1
      have hwidth := congrArg Text.width htext
      rw [Text.width_append, Text.width_append] at hwidth
      change a.start + a.item.fullText.width ≤ c.2
      omega

/-- Each declaration ends in front of the later ones. -/
theorem pairwise_declarations (hconforms : ∀ n ∈ e.nodes, n.conforms = true) (start : Nat) :
    (e.declarations start).Pairwise Located.IsBefore := by
  induction e using Element.induction generalizing start with
  | token t => exact .nil
  | node kind measure children ih =>
      rw [declarations, trackCalls]
      cases h : (node kind measure children).isNodeIn [.variableDeclaration] with
      | true =>
          obtain rfl := isNodeIn_declaration_iff.mp h
          rw [declarationsOf_cons_pos h, declarations_below hconforms]
          exact List.pairwise_singleton _ _
      | false =>
          rw [declarationsOf_cons_neg h]
          rw [nodes] at hconforms
          have hbelow := forall_mem_nodesAll.mp (List.forall_mem_cons.mp hconforms).2
          exact pairwise_declarationsOf (fun c hc => ih c hc (hbelow c hc)) start
  | list measure nodes ih | separated measure slots ih =>
      have hbelow := forall_mem_nodesAll.mp hconforms
      exact pairwise_declarationsOf (fun c hc => ih c hc (hbelow c hc)) start

/-- The first token of an element lies in the element. -/
theorem Plain.holdsRange_firstRange (h : e.Plain) (start : Nat) :
    e.fullText.HoldsRange start (Located.firstRange ⟨start, e⟩).1
      (Located.firstRange ⟨start, e⟩).2 := by
  have hreport := h.holdsRange_reportToken start ""
  rwa [← h.ofRange_firstRange] at hreport

/-- Slots with their places: each one ends in front of the later ones, and its first token
lies in it. -/
structure Laid (places : List (Located Element)) : Prop where
  ordered : places.Pairwise Located.IsBefore
  inside : ∀ l ∈ places, l.start ≤ l.firstRange.1 ∧
    l.firstRange.1 ≤ l.start + l.item.fullText.width

theorem laid_placed {slots : List Element} (h : ∀ c ∈ slots, c.Plain) (start : Nat) :
    Laid (placed fullText slots start) where
  ordered := pairwise_placed slots start
  inside := by
    intro l hl
    have hrange := ((h _ (mem_of_mem_placed hl)).holdsRange_firstRange l.start).within
    exact ⟨hrange.1, Nat.le_trans hrange.2.1 hrange.2.2⟩

theorem Laid.ordered_missingValues {places : List (Located Element)} (h : Laid places) :
    Diagnostic.Ordered (missingValues places) := by
  refine List.pairwise_map.mpr ((h.ordered.filter _).imp_of_mem fun {x y} hx hy hbefore => ?_)
  have hfirst := h.inside x (List.mem_filter.mp hx).1
  have hsecond := h.inside y (List.mem_filter.mp hy).1
  exact Nat.le_trans hfirst.2 (Nat.le_trans hbefore hsecond.1)

/-- A separator at the end stands behind all declarators. -/
theorem Laid.missingValues_le_endingComma {places : List (Located Element)} (h : Laid places) :
    ∀ a ∈ missingValues places, ∀ b ∈ endingComma places, a.start ≤ b.start := by
  intro a ha b hb
  obtain ⟨l, hl, rfl⟩ := List.mem_map.mp ha
  obtain ⟨hl, hlacks⟩ := List.mem_filter.mp hl
  unfold endingComma at hb
  split at hb
  · rename_i position separator hlast
    obtain rfl := List.mem_singleton.mp hb
    obtain ⟨front, rfl⟩ := List.getLast?_eq_some_iff.mp hlast
    rcases List.mem_append.mp hl with hfront | hself
    · have hbefore := (List.pairwise_append.mp h.ordered).2.2 l hfront _
        (List.mem_singleton_self _)
      exact Nat.le_trans (h.inside l hl).2 (Nat.le_trans hbefore (Nat.le_add_right _ _))
    · obtain rfl := List.mem_singleton.mp hself
      cases hlacks
  · cases hb

/-- The reports on slots are in order. -/
theorem Laid.ordered_reports {places : List (Located Element)} (h : Laid places)
    (isConst : Prop) [Decidable isConst] :
    Diagnostic.Ordered
      ((if isConst then missingValues places else []) ++ endingComma places) := by
  have hcomma : Diagnostic.Ordered (endingComma places) := by
    unfold endingComma
    split
    · exact List.pairwise_singleton _ _
    · exact .nil
  split
  · exact List.pairwise_append.mpr
      ⟨h.ordered_missingValues, hcomma, h.missingValues_le_endingComma⟩
  · exact hcomma

theorem ordered_declarationReports (h : d.item.IsDeclaration) (hplain : d.item.Plain) :
    Diagnostic.Ordered (declarationReports d) := by
  obtain ⟨start, item⟩ := d
  cases h with
  | @intro measure inner keyword slots _ _ _ =>
      have hlist : (separated inner slots).Plain :=
        hplain.children rfl _ (List.mem_cons_of_mem _ List.mem_cons_self)
      exact (laid_placed (hlist.children rfl) _).ordered_reports (keyword.kind = .constKw)

/-- The reports on a declaration lie in it. -/
theorem holdsRange_declarationReports (h : d.item.IsDeclaration) (hplain : d.item.Plain) :
    ∀ r ∈ declarationReports d, d.item.fullText.HoldsRange d.start r.start r.stop := by
  rw [← reviewDeclaration_eq h hplain]
  obtain ⟨start, item⟩ := d
  cases h with
  | intro measure inner _ _ _ =>
      exact holdsRange_reviewDeclarators _ (hplain.children rfl) start

/-- The reports of a review are in order. -/
theorem Plain.ordered_review (hplain : e.Plain)
    (hconforms : ∀ n ∈ e.nodes, n.conforms = true) : Diagnostic.Ordered e.review := by
  have hdeclaration {d : Located Element} (hd : d ∈ e.declarations 0) :
      d.item.IsDeclaration ∧ d.item.Plain :=
    ⟨isDeclaration_of_mem_declarations hconforms hd, hplain.of_mem_declarations hd⟩
  rw [hplain.review_eq hconforms]
  refine List.pairwise_flatMap.mpr ⟨fun d hd => ?_, ?_⟩
  · obtain ⟨hshape, hd⟩ := hdeclaration hd
    exact ordered_declarationReports hshape hd
  · refine (pairwise_declarations hconforms 0).imp_of_mem fun {x y} hx hy hbefore a ha b hb => ?_
    obtain ⟨hxshape, hxplain⟩ := hdeclaration hx
    obtain ⟨hyshape, hyplain⟩ := hdeclaration hy
    obtain ⟨_, hstop, hend⟩ := (holdsRange_declarationReports hxshape hxplain a ha).within
    obtain ⟨hlater, _⟩ := (holdsRange_declarationReports hyshape hyplain b hb).within
    calc a.start ≤ a.stop := hstop
      _ ≤ x.start + x.item.fullText.width := hend
      _ ≤ y.start := hbefore
      _ ≤ b.start := hlater

end Conforming

/-! ## The separator at the end -/

/-- The report has the range of a comma among the leaves of a text, and the source has that
comma. -/
def CoversComma (leaves : List Token) (text : Text) (offset : Nat) (r : Diagnostic) : Prop :=
  ∃ comma ∈ leaves, comma.kind = .comma ∧ comma.isZeroWidth = false ∧
    text.HasAt offset r.start comma.text ∧ r.stop = r.start + comma.text.width

/-- A separator at the end of a list is a comma of the source. -/
theorem coversComma_of_mem_endingComma {kinds : List Kind} {slots : List Element}
    (halternate : alternates kinds slots = true) (hend : EndPresent slots) {start : Nat} :
    ∀ r ∈ endingComma (placed fullText slots start),
      CoversComma (leavesAll slots) (fullTextAll slots) start r := by
  intro r hr
  unfold endingComma at hr
  split at hr
  · rename_i position comma hlast
    obtain rfl := List.mem_singleton.mp hr
    have hplace := List.mem_of_getLast? hlast
    have hslot : token comma ∈ slots := mem_of_mem_placed hplace
    have hlastSlot : slots.getLast? = some (token comma) := by
      have hitems := congrArg List.getLast? (map_item_placed fullText slots start)
      rw [List.getLast?_map, hlast] at hitems
      exact hitems.symm
    have hkind : comma.kind = .comma := by
      rcases slot_of_alternates halternate _ hslot with hnode | htoken
      · cases hnode
      · exact kind_of_isTokenIn htoken
    have hleaf : comma ∈ leavesAll slots := by
      rw [leavesAll_eq_flatMap]
      exact List.mem_flatMap.mpr ⟨_, hslot, List.mem_singleton_self _⟩
    have hfull : (fullTextAll slots).HasAt start position comma.fullText := by
      rw [fullTextAll_eq_flatMap]
      exact hasAt_of_mem_placed hplace
    exact ⟨comma, hleaf, hkind, hend comma hlastSlot, hfull.trans (comma.hasAt_text position), rfl⟩
  · cases hr

/-- What is said of a separator at the end of a declaration is said of a comma of the
source. -/
theorem coversComma_of_mem_declarationReports {d : Located Element} (h : d.item.IsDeclaration)
    (hpresent : d.item.SeparatorsEndPresent) :
    ∀ r ∈ declarationReports d,
      r.message = "trailing comma not allowed in variable declaration" →
        CoversComma d.item.leaves d.item.fullText d.start r := by
  obtain ⟨start, item⟩ := d
  intro r hr hmessage
  cases h with
  | @intro measure inner keyword slots _ halternate _ =>
      have hend : EndPresent slots :=
        (hpresent.children _ (List.mem_cons_of_mem _ List.mem_cons_self)).endPresent
      rcases List.mem_append.mp hr with hr | hr
      · -- A declarator without a value comes with another message.
        split at hr
        · obtain ⟨l, _, rfl⟩ := List.mem_map.mp hr
          simp [Diagnostic.ofRange] at hmessage
        · cases hr
      · obtain ⟨comma, hleaf, hkind, hwidth, hat, hstop⟩ :=
          coversComma_of_mem_endingComma halternate hend r hr
        exact ⟨comma, List.mem_append_right _ (List.mem_append_left _ hleaf), hkind, hwidth,
          (hat.append_right _).append_left _, hstop⟩

end Element

/-! ## Whole texts -/

namespace ParseRun

variable {source : Text} {options : ParseOptions} (run : ParseRun source options)

theorem separatorsEndPresent_root : run.root.SeparatorsEndPresent := by
  refine .node _ _ ?_
  simp only [List.forall_mem_cons]
  exact ⟨.list _ (run.reads.reading.endsPresent run.textual), .token _, List.forall_mem_nil _⟩

/-- A leaf that the source has is spelled as its kind is. -/
theorem text_of_fixedText {t : Token} (ht : t ∈ run.root.leaves) (hpresent : t.isZeroWidth = false)
    {spelling : Text} (hkind : t.kind.fixedText = some spelling) : t.text = spelling := by
  obtain ⟨u, hu, hsame, htext⟩ := run.exists_scanned_of_mem_leaves ht hpresent
  obtain ⟨_, _, _, _, _, hform⟩ := fitsIn_of_scan run.scan_eq u hu
  rw [← htext]
  exact hform.fixed spelling (by rw [hsame, hkind])

/-- The report on a separator at the end of a declaration covers a comma of the source. -/
theorem slice?_of_mem_review {r : Diagnostic} (hr : r ∈ run.root.review)
    (hmessage : r.message = "trailing comma not allowed in variable declaration") :
    source.slice? r.start r.stop = some ",".toList := by
  rw [run.plain_root.review_eq run.nodes_conform] at hr
  obtain ⟨d, hd, hr⟩ := List.mem_flatMap.mp hr
  have hmem := Element.mem_nodes_of_mem_declarations hd
  have hpresent := Element.forall_nodes_of_children
    (fun _ h _ => Element.SeparatorsEndPresent.children h) run.separatorsEndPresent_root _ hmem.1
  obtain ⟨comma, hleaf, hkind, hwidth, hat, hstop⟩ :=
    Element.coversComma_of_mem_declarationReports
      (Element.isDeclaration_of_mem_declarations run.nodes_conform hd) hpresent r hr hmessage
  have hroot : comma ∈ run.root.leaves := Element.mem_leaves_of_mem_nodes hmem.1 _ hleaf
  have hspelling : comma.kind.fixedText = some ",".toList := by rw [hkind]; rfl
  have hsource := (Element.hasAt_of_mem_declarations hd).trans hat
  rw [run.fullText_root] at hsource
  rw [hstop, hsource.slice?_eq, run.text_of_fixedText hroot hwidth hspelling]

end ParseRun

/-- Every text that offsets can count is parsed into a tree whose declarations of variables
have the shape of the grammar and stand in the text where they are located.  A review of the
tree reports on these declarations, one after the other, and on nothing else: on constants
without a value, at the first token that the source has, and on a comma at the end of a
declaration.  The reports are in the order of their starts. -/
theorem parse_review_eq (source : Text) (options : ParseOptions)
    (h : source.width < Offset.limit) :
    ∃ p, parse source options = .ok p ∧
      p.root.review = (p.root.declarations 0).flatMap Element.declarationReports ∧
      (p.root.declarations 0).map Located.item =
        p.root.nodes.filter (Element.isNodeIn [.variableDeclaration]) ∧
      (∀ d ∈ p.root.declarations 0,
        d.item.IsDeclaration ∧ source.HasAt 0 d.start d.item.fullText) ∧
      (∀ r ∈ p.root.review, r.message = "trailing comma not allowed in variable declaration" →
        source.slice? r.start r.stop = some ",".toList) ∧
      Diagnostic.Ordered p.root.review := by
  obtain ⟨run⟩ := exists_parseRun source options h
  refine ⟨run.result, run.parse_eq, run.plain_root.review_eq run.nodes_conform,
    run.root.map_item_declarations 0, fun d hd => ?_, fun r hr => run.slice?_of_mem_review hr,
    run.plain_root.ordered_review run.nodes_conform⟩
  refine ⟨Element.isDeclaration_of_mem_declarations run.nodes_conform hd, ?_⟩
  have hat := Element.hasAt_of_mem_declarations hd
  change run.root.fullText.HasAt 0 _ _ at hat
  rwa [run.fullText_root] at hat

/-- In this text a comma ends a declaration of two constants without a value. -/
theorem parse_faultySource_review :
    faultySource.width < Offset.limit ∧
      ∃ p, parse faultySource ⟨true⟩ = .ok p ∧
        p.root.review = (p.root.declarations 0).flatMap Element.declarationReports ∧
        (p.root.declarations 0).map Located.item =
          p.root.nodes.filter (Element.isNodeIn [.variableDeclaration]) ∧
        (∀ d ∈ p.root.declarations 0,
          d.item.IsDeclaration ∧ faultySource.HasAt 0 d.start d.item.fullText) ∧
        (∀ r ∈ p.root.review, r.message = "trailing comma not allowed in variable declaration" →
          faultySource.slice? r.start r.stop = some ",".toList) ∧
        Diagnostic.Ordered p.root.review :=
  ⟨width_faultySource, parse_review_eq faultySource ⟨true⟩ width_faultySource⟩

end Verbatim
