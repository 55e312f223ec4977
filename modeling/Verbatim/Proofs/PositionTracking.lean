/-
  A tracking walk calls its hook for what is not skipped, and nothing else.

  Each node and token of a tree has a path, the indexes of children that lead to it, and a
  node is above another one if its path is a proper beginning of the other.  Whatever the
  hook answers, and whatever it remembers, there is an assignment of answers to paths such
  that the calls are those of the nodes and tokens that have nothing skipped above them, and
  each call has the answer of its path.  The positions of calls do not depend on the answers:
  the cached width of a subtree that is skipped is the width of the tokens in it.
-/
import Verbatim.Proofs.TokenOrder
import Verbatim.Proofs.PositionLookup

set_option autoImplicit false

namespace Verbatim

open Element (Descend)

/-! ## Nodes and tokens with their paths -/

/-- A node or token of a tree, with the indexes of children that lead to it and its absolute
start. -/
structure Occurrence where
  path : List Nat
  item : Element
  start : Nat

namespace Occurrence

/-- The first is a proper ancestor of the second. -/
def IsAbove (a o : Occurrence) : Prop :=
  a.path <+: o.path ∧ a.path ≠ o.path

instance (a o : Occurrence) : Decidable (a.IsAbove o) :=
  inferInstanceAs (Decidable (_ ∧ _))

/-- Of the nodes and tokens, those that have nothing skipped above them, if each of them is
answered as its path says. -/
def unskipped (answer : List Nat → Descend) (all : List Occurrence) : List Occurrence :=
  all.filter fun o => ∀ a ∈ all, a.IsAbove o → answer a.path = .into

end Occurrence

namespace Element

mutual

/-- The nodes and tokens of an element, each node before what is below it. -/
def occurrences : Element → List Nat → Nat → List Occurrence
  | .token t, path, start => [⟨path, .token t, start⟩]
  | .node k m cs, path, start => ⟨path, .node k m cs, start⟩ :: occurrencesAll cs path 0 start
  | .list _ cs, path, start => occurrencesAll cs path 0 start
  | .separated _ cs, path, start => occurrencesAll cs path 0 start

/-- The nodes and tokens of neighbours, the first of which has an index. -/
def occurrencesAll : List Element → List Nat → Nat → Nat → List Occurrence
  | [], _, _, _ => []
  | e :: rest, path, index, start =>
      e.occurrences (path ++ [index]) start ++
        occurrencesAll rest path (index + 1) (start + e.fullText.width)

end

end Element

/-! ## Paths -/

namespace Occurrence

/-- Whether something is above does not depend on neighbours that are neither above nor
below. -/
theorem unskipped_append {answer : List Nat → Descend} {xs ys : List Occurrence}
    (h : ∀ x ∈ xs, ∀ y ∈ ys, ¬ x.IsAbove y ∧ ¬ y.IsAbove x) :
    unskipped answer (xs ++ ys) = unskipped answer xs ++ unskipped answer ys := by
  unfold unskipped
  rw [List.filter_append]
  congr 1
  · refine List.filter_congr fun x hx => decide_eq_decide.mpr ?_
    rw [List.forall_mem_append]
    exact and_iff_left fun y hy habove => absurd habove (h x hx y hy).2
  · refine List.filter_congr fun y hy => decide_eq_decide.mpr ?_
    rw [List.forall_mem_append]
    exact and_iff_right fun x hx habove => absurd habove (h x hx y hy).1

/-- What is below a node is left out exactly if the node is skipped. -/
theorem unskipped_cons {answer : List Nat → Descend} {o : Occurrence} {below : List Occurrence}
    (h : ∀ b ∈ below, o.IsAbove b) :
    unskipped answer (o :: below) =
      o :: if answer o.path = .skip then [] else unskipped answer below := by
  have hself : ∀ a ∈ o :: below, ¬ a.IsAbove o := by
    refine List.forall_mem_cons.mpr ⟨fun habove => habove.2 rfl, fun b hb habove => ?_⟩
    exact habove.2 (habove.1.eq_of_length_le (h b hb).1.length_le)
  have hfirst : ∀ a ∈ o :: below, a.IsAbove o → answer a.path = .into :=
    fun a ha habove => absurd habove (hself a ha)
  unfold unskipped
  rw [List.filter_cons, if_pos (decide_eq_true hfirst)]
  congr 1
  cases hanswer : answer o.path with
  | skip =>
      rw [if_pos rfl, List.filter_eq_nil_iff]
      intro b hb hfree
      have hinto := of_decide_eq_true hfree o List.mem_cons_self (h b hb)
      rw [hanswer] at hinto
      cases hinto
  | into =>
      rw [if_neg nofun]
      refine List.filter_congr fun b hb => decide_eq_decide.mpr ?_
      rw [List.forall_mem_cons]
      exact and_iff_right fun _ => hanswer

end Occurrence

namespace Element

/-- The path of a neighbour goes through its index. -/
theorem exists_index_of_occurrencesAll {es : List Element}
    (h : ∀ e ∈ es, ∀ path start, ∀ o ∈ e.occurrences path start, path <+: o.path)
    (path : List Nat) (index start : Nat) :
    ∀ o ∈ occurrencesAll es path index start, ∃ i, index ≤ i ∧ path ++ [i] <+: o.path := by
  induction es generalizing index start with
  | nil => exact List.forall_mem_nil _
  | cons e rest ih =>
      obtain ⟨he, hrest⟩ := List.forall_mem_cons.mp h
      refine List.forall_mem_append.mpr
        ⟨fun o ho => ⟨index, Nat.le_refl index, he _ _ o ho⟩, fun o ho => ?_⟩
      obtain ⟨i, hi, hpath⟩ := ih hrest (index + 1) _ o ho
      exact ⟨i, Nat.le_of_succ_le hi, hpath⟩

theorem path_prefix_of_occurrencesAll {es : List Element}
    (h : ∀ e ∈ es, ∀ path start, ∀ o ∈ e.occurrences path start, path <+: o.path)
    (path : List Nat) (index start : Nat) :
    ∀ o ∈ occurrencesAll es path index start, path <+: o.path := by
  intro o ho
  obtain ⟨i, _, hpath⟩ := exists_index_of_occurrencesAll h path index start o ho
  exact (List.prefix_append path [i]).trans hpath

/-- The paths below an element start with its own. -/
theorem path_prefix_of_occurrences (e : Element) (path : List Nat) (start : Nat) :
    ∀ o ∈ e.occurrences path start, path <+: o.path := by
  induction e using Element.induction generalizing path start with
  | token t => exact List.forall_mem_singleton.mpr (List.prefix_refl path)
  | node kind measure children ih =>
      exact List.forall_mem_cons.mpr
        ⟨List.prefix_refl path, path_prefix_of_occurrencesAll ih path 0 start⟩
  | list measure nodes ih => exact path_prefix_of_occurrencesAll ih path 0 start
  | separated measure slots ih => exact path_prefix_of_occurrencesAll ih path 0 start

/-- A node is above what its children hold. -/
theorem isAbove_of_occurrencesAll (es : List Element) (path : List Nat) (index start : Nat)
    (item : Element) (position : Nat) :
    ∀ o ∈ occurrencesAll es path index start, Occurrence.IsAbove ⟨path, item, position⟩ o := by
  intro o ho
  obtain ⟨i, _, hpath⟩ := exists_index_of_occurrencesAll
    (fun e _ path start => e.path_prefix_of_occurrences path start) path index start o ho
  refine ⟨(List.prefix_append path [i]).trans hpath, fun heq => ?_⟩
  have hlength := hpath.length_le
  rw [← heq, List.length_append, List.length_singleton] at hlength
  exact Nat.not_succ_le_self _ hlength

/-- Two indexes behind one path are the same if one path goes through both. -/
theorem index_eq_of_prefix {path long : List Nat} {i j : Nat} (hi : path ++ [i] <+: long)
    (hj : path ++ [j] <+: long) : i = j := by
  have hlength : (path ++ [i]).length = (path ++ [j]).length := by simp
  have heq := (List.prefix_of_prefix_length_le hi hj (Nat.le_of_eq hlength)).eq_of_length hlength
  exact List.singleton_inj.mp (List.append_cancel_left heq)

/-- Neighbours are not above each other. -/
theorem not_isAbove_of_occurrencesAll {path : List Nat} {index : Nat} {x y : Occurrence}
    (hx : path ++ [index] <+: x.path) (hy : ∃ i, index + 1 ≤ i ∧ path ++ [i] <+: y.path) :
    ¬ x.IsAbove y ∧ ¬ y.IsAbove x := by
  obtain ⟨i, hi, hy⟩ := hy
  constructor
  · intro habove
    have heq := index_eq_of_prefix (hx.trans habove.1) hy
    omega
  · intro habove
    have heq := index_eq_of_prefix hx (hy.trans habove.1)
    omega

/-! ## What a walk reaches -/

mutual

/-- The nodes and tokens that a walk comes to if each one is answered as its path says. -/
def reached (answer : List Nat → Descend) : Element → List Nat → Nat → List Occurrence
  | .token t, path, start => [⟨path, .token t, start⟩]
  | .node k m cs, path, start =>
      ⟨path, .node k m cs, start⟩ ::
        if answer path = .skip then [] else reachedAll answer cs path 0 start
  | .list _ cs, path, start => reachedAll answer cs path 0 start
  | .separated _ cs, path, start => reachedAll answer cs path 0 start

/-- The nodes and tokens of neighbours that a walk comes to. -/
def reachedAll (answer : List Nat → Descend) :
    List Element → List Nat → Nat → Nat → List Occurrence
  | [], _, _, _ => []
  | e :: rest, path, index, start =>
      e.reached answer (path ++ [index]) start ++
        reachedAll answer rest path (index + 1) (start + e.fullText.width)

end

section Reached

variable (answer : List Nat → Descend)

theorem reachedAll_eq_unskipped {es : List Element}
    (h : ∀ e ∈ es, ∀ path start,
      e.reached answer path start = Occurrence.unskipped answer (e.occurrences path start))
    (path : List Nat) (index start : Nat) :
    reachedAll answer es path index start =
      Occurrence.unskipped answer (occurrencesAll es path index start) := by
  induction es generalizing index start with
  | nil => rfl
  | cons e rest ih =>
      obtain ⟨he, hrest⟩ := List.forall_mem_cons.mp h
      have hlater := exists_index_of_occurrencesAll
        (fun e (_ : e ∈ rest) path start => e.path_prefix_of_occurrences path start) path
        (index + 1) (start + e.fullText.width)
      rw [reachedAll, occurrencesAll, he, ih hrest, Occurrence.unskipped_append]
      intro x hx y hy
      exact not_isAbove_of_occurrencesAll (e.path_prefix_of_occurrences _ _ x hx) (hlater y hy)

/-- A walk comes to what has nothing skipped above it. -/
theorem reached_eq_unskipped (e : Element) (path : List Nat) (start : Nat) :
    e.reached answer path start = Occurrence.unskipped answer (e.occurrences path start) := by
  induction e using Element.induction generalizing path start with
  | token t =>
      rw [reached, occurrences, Occurrence.unskipped_cons (List.forall_mem_nil _)]
      split <;> rfl
  | node kind measure children ih =>
      rw [reached, occurrences, reachedAll_eq_unskipped answer ih,
        Occurrence.unskipped_cons (isAbove_of_occurrencesAll children path 0 start _ _)]
  | list measure nodes ih => exact reachedAll_eq_unskipped answer ih path 0 start
  | separated measure slots ih => exact reachedAll_eq_unskipped answer ih path 0 start

end Reached

end Element

/-! ## Calls -/

/-- A call of a hook, and its answer. -/
structure HookCall where
  item : Element
  position : Nat
  answer : Descend

/-- The call for a node or token that is answered as its path says. -/
def Occurrence.call (answer : List Nat → Descend) (o : Occurrence) : HookCall :=
  ⟨o.item, o.start, answer o.path⟩

namespace Element

variable {σ : Type}

/-- The hook, with a record of its calls. -/
def recording (hook : σ → Element → Nat → Descend × σ) :
    σ × List HookCall → Element → Nat → Descend × (σ × List HookCall) :=
  fun s e position =>
    ((hook s.1 e position).1,
      (hook s.1 e position).2, s.2 ++ [⟨e, position, (hook s.1 e position).1⟩])

/-- The calls of a walk that is answered as the paths say. -/
def callsOf (answer : List Nat → Descend) (reached : List Occurrence) : List HookCall :=
  reached.map (Occurrence.call answer)

section Congruence

variable {a b : List Nat → Descend}

theorem reachedAll_congr_of_forall {es : List Element}
    (h : ∀ e ∈ es, ∀ path start, (∀ q, path <+: q → a q = b q) →
      callsOf a (e.reached a path start) = callsOf b (e.reached b path start))
    (path : List Nat) (index start : Nat)
    (hab : ∀ i q, index ≤ i → path ++ [i] <+: q → a q = b q) :
    callsOf a (reachedAll a es path index start) =
      callsOf b (reachedAll b es path index start) := by
  induction es generalizing index start with
  | nil => rfl
  | cons e rest ih =>
      obtain ⟨he, hrest⟩ := List.forall_mem_cons.mp h
      have hfirst := he (path ++ [index]) start fun q => hab index q (Nat.le_refl index)
      have hlater := ih hrest (index + 1) (start + e.fullText.width)
        fun i q hi => hab i q (Nat.le_of_succ_le hi)
      unfold callsOf at hfirst hlater ⊢
      rw [reachedAll, reachedAll, List.map_append, List.map_append, hfirst, hlater]

/-- The calls of a walk depend on the answers to the paths through its start only. -/
theorem reached_congr (e : Element) (path : List Nat) (start : Nat)
    (hab : ∀ q, path <+: q → a q = b q) :
    callsOf a (e.reached a path start) = callsOf b (e.reached b path start) := by
  induction e using Element.induction generalizing path start with
  | token t => simp [callsOf, reached, Occurrence.call, hab path (List.prefix_refl path)]
  | node kind measure children ih =>
      have hbelow := reachedAll_congr_of_forall ih path 0 start
        fun i q _ hq => hab q ((List.prefix_append path [i]).trans hq)
      have hself := hab path (List.prefix_refl path)
      unfold callsOf at hbelow ⊢
      rw [reached, reached, List.map_cons, List.map_cons, Occurrence.call, Occurrence.call, hself]
      split
      · rfl
      · rw [hbelow]
  | list measure nodes ih | separated measure slots ih =>
      exact reachedAll_congr_of_forall ih path 0 start
        fun i q _ hq => hab q ((List.prefix_append path [i]).trans hq)

/-- The calls for neighbours depend on the answers to the paths through their indexes only. -/
theorem reachedAll_congr (es : List Element) (path : List Nat) (index start : Nat)
    (hab : ∀ i q, index ≤ i → path ++ [i] <+: q → a q = b q) :
    callsOf a (reachedAll a es path index start) =
      callsOf b (reachedAll b es path index start) :=
  reachedAll_congr_of_forall (fun e _ => e.reached_congr) path index start hab

end Congruence

/-! ## Runs -/

section Runs

variable {hook : σ → Element → Nat → Descend × σ}

/-- A walk with a hook ends behind the text with a state of the hook, and the record of its
calls is that of the nodes and tokens that it comes to. -/
structure Tracks (hook : σ → Element → Nat → Descend × σ) (e : Element) (path : List Nat)
    (state : σ) (start : Nat) (last : σ) (answer : List Nat → Descend) : Prop where
  plain : e.track hook state start = .ok (last, start + e.fullText.width)
  recorded : ∀ calls, e.track (recording hook) (state, calls) start =
    .ok ((last, calls ++ callsOf answer (e.reached answer path start)), start + e.fullText.width)

/-- The same for neighbours, the first of which has an index. -/
structure TracksAll (hook : σ → Element → Nat → Descend × σ) (es : List Element) (path : List Nat)
    (index : Nat) (state : σ) (start : Nat) (last : σ) (answer : List Nat → Descend) : Prop where
  plain : trackAll hook es state start = .ok (last, start + (fullTextAll es).width)
  recorded : ∀ calls, trackAll (recording hook) es (state, calls) start =
    .ok ((last, calls ++ callsOf answer (reachedAll answer es path index start)),
      start + (fullTextAll es).width)

/-- Answers for the first of some neighbours and answers for the others make answers for all
of them, since no path goes through two of them. -/
theorem Tracks.cons {e : Element} {rest : List Element} {path : List Nat} {index start : Nat}
    {state mid last : σ} {a b : List Nat → Descend}
    (h : Tracks hook e (path ++ [index]) state start mid a)
    (h' : TracksAll hook rest path (index + 1) mid (start + e.fullText.width) last b) :
    TracksAll hook (e :: rest) path index state start last
      fun q => if path ++ [index] <+: q then a q else b q := by
  have hfirst := e.reached_congr (a := a) (b := fun q => if path ++ [index] <+: q then a q else b q)
    (path ++ [index]) start fun q hq => (if_pos hq).symm
  have hlater := reachedAll_congr (a := b)
    (b := fun q => if path ++ [index] <+: q then a q else b q) rest path (index + 1)
    (start + e.fullText.width) fun i q hi hq => by
      refine (if_neg fun hindex => ?_).symm
      have heq := index_eq_of_prefix hindex hq
      omega
  constructor
  · rw [trackAll, h.plain]
    show trackAll hook rest mid _ = _
    rw [h'.plain, fullTextAll, Text.width_append, Nat.add_assoc]
  · intro calls
    rw [trackAll, h.recorded]
    show trackAll (recording hook) rest _ _ = _
    rw [h'.recorded, fullTextAll, Text.width_append, Nat.add_assoc, hfirst, hlater,
      List.append_assoc]
    unfold callsOf
    rw [reachedAll, List.map_append]

theorem exists_tracksAll (hook : σ → Element → Nat → Descend × σ) {es : List Element}
    (h : ∀ e ∈ es, ∀ path state start, start + e.fullText.width < Offset.limit →
      ∃ last answer, Tracks hook e path state start last answer)
    (path : List Nat) (index : Nat) (state : σ) (start : Nat)
    (hlimit : start + (fullTextAll es).width < Offset.limit) :
    ∃ last answer, TracksAll hook es path index state start last answer := by
  induction es generalizing index state start with
  | nil =>
      refine ⟨state, fun _ => .into, rfl, fun calls => ?_⟩
      simp [trackAll, callsOf, reachedAll, fullTextAll]
  | cons e rest ih =>
      obtain ⟨he, hrest⟩ := List.forall_mem_cons.mp h
      rw [fullTextAll, Text.width_append] at hlimit
      obtain ⟨mid, a, hfirst⟩ := he (path ++ [index]) state start (by omega)
      obtain ⟨last, b, hlater⟩ :=
        ih hrest (index + 1) mid (start + e.fullText.width) (by omega)
      exact ⟨last, _, hfirst.cons hlater⟩

theorem tracks_token (hook : σ → Element → Nat → Descend × σ) (t : Token) (path : List Nat)
    (state : σ) {start : Nat} (hlimit : start + t.fullWidth < Offset.limit) :
    Tracks hook (.token t) path state start (hook state (.token t) start).2
      fun _ => (hook state (.token t) start).1 := by
  have hadd : Offset.add start t.fullWidth = .ok (start + t.fullWidth) := if_pos hlimit
  constructor
  · rw [track, hadd, fullText, Token.width_fullText]
    rfl
  · intro calls
    rw [track, hadd, fullText, Token.width_fullText]
    rfl

/-- Past a node that is skipped the walk goes by its cached width. -/
theorem tracks_skip {kind : Kind} {measure : Measure} {children : List Element}
    (h : (Element.node kind measure children).Made) (path : List Nat) {state : σ} {start : Nat}
    (hlimit : start + (Element.node kind measure children).fullText.width < Offset.limit)
    (hskip : (hook state (.node kind measure children) start).1 = .skip) :
    Tracks hook (.node kind measure children) path state start
      (hook state (.node kind measure children) start).2 fun _ => .skip := by
  have hwidth : measure.width = (Element.node kind measure children).fullText.width := h.width_eq
  have hadd : Offset.add start measure.width = .ok (start + measure.width) :=
    if_pos (hwidth ▸ hlimit)
  have hcall : hook state (.node kind measure children) start =
      (.skip, (hook state (.node kind measure children) start).2) := by rw [← hskip]
  constructor
  · rw [track, hcall, ← hwidth]
    simp only [hadd]
    rfl
  · intro calls
    rw [track, recording, hskip, ← hwidth]
    simp only [hadd, reached, if_true, callsOf, List.map_cons, List.map_nil, Occurrence.call]
    rfl

/-- In a node that is not skipped the walk goes through the children. -/
theorem tracks_into {kind : Kind} {measure : Measure} {children : List Element} {path : List Nat}
    {state last : σ} {start : Nat} {answer : List Nat → Descend}
    (hinto : (hook state (.node kind measure children) start).1 = .into)
    (h : TracksAll hook children path 0 (hook state (.node kind measure children) start).2 start
      last answer) :
    Tracks hook (.node kind measure children) path state start last
      fun q => if q = path then .into else answer q := by
  have hcall : hook state (.node kind measure children) start =
      (.into, (hook state (.node kind measure children) start).2) := by rw [← hinto]
  have hbelow := reachedAll_congr (a := answer)
    (b := fun q => if q = path then .into else answer q) children path 0 start fun i q _ hq => by
      refine (if_neg ?_).symm
      rintro rfl
      have hlength := hq.length_le
      rw [List.length_append, List.length_singleton] at hlength
      exact Nat.not_succ_le_self _ hlength
  constructor
  · rw [track, hcall]
    exact h.plain
  · intro calls
    rw [track, recording, hinto]
    show trackAll (recording hook) children _ _ = _
    rw [h.recorded, hbelow, List.append_assoc]
    simp only [callsOf, reached, if_true, List.map_cons, Occurrence.call, fullText,
      List.singleton_append, reduceCtorEq, if_false]

/-- Every walk with a hook comes to the nodes and tokens that its answers leave. -/
theorem exists_tracks (hook : σ → Element → Nat → Descend × σ) {e : Element} (h : e.Made)
    (path : List Nat) (state : σ) (start : Nat)
    (hlimit : start + e.fullText.width < Offset.limit) :
    ∃ last answer, Tracks hook e path state start last answer := by
  induction e using Element.induction generalizing path state start with
  | token t =>
      rw [fullText, Token.width_fullText] at hlimit
      exact ⟨_, _, tracks_token hook t path state hlimit⟩
  | node kind measure children ih =>
      cases hanswer : (hook state (.node kind measure children) start).1 with
      | skip => exact ⟨_, _, tracks_skip h path hlimit hanswer⟩
      | into =>
          obtain ⟨last, answer, hbelow⟩ := exists_tracksAll hook
            (fun c hc => ih c hc (h.children c hc)) path 0
            (hook state (.node kind measure children) start).2 start hlimit
          exact ⟨last, _, tracks_into hanswer hbelow⟩
  | list measure nodes ih | separated measure slots ih =>
      obtain ⟨last, answer, hbelow⟩ := exists_tracksAll hook
        (fun c hc => ih c hc (h.children c hc)) path 0 state start hlimit
      exact ⟨last, answer, hbelow.plain, hbelow.recorded⟩

end Runs

/-! ## Positions -/

/-- Each node and token starts behind the tokens in front of it. -/
def StartBehindTokens (start : Nat) (all : List Occurrence) : Prop :=
  ∀ before o after, all = before ++ o :: after →
    o.start = start + Token.widthAll (before.filterMap fun a => a.item.token?)

theorem StartBehindTokens.cons {start : Nat} {o : Occurrence} {later : List Occurrence}
    (ho : o.start = start) (htoken : o.item.token? = none) (h : StartBehindTokens start later) :
    StartBehindTokens start (o :: later) := by
  intro before a after heq
  cases before with
  | nil =>
      cases heq
      exact ho
  | cons first rest =>
      obtain ⟨rfl, hlater⟩ := List.cons.inj heq
      have htokens : (o :: rest).filterMap (fun a => a.item.token?) =
          rest.filterMap fun a => a.item.token? := by simp [htoken]
      rw [htokens]
      exact h rest a after hlater

theorem StartBehindTokens.append {start : Nat} {xs ys : List Occurrence}
    (hx : StartBehindTokens start xs)
    (hy : StartBehindTokens
      (start + Token.widthAll (xs.filterMap fun a => a.item.token?)) ys) :
    StartBehindTokens start (xs ++ ys) := by
  intro before o after heq
  rcases List.append_eq_append_iff.mp heq with ⟨between, rfl, htail⟩ | ⟨between, rfl, htail⟩
  · rw [hy between o after htail, List.filterMap_append, Token.widthAll_append, Nat.add_assoc]
  · cases between with
    | nil =>
        have hfirst := hy [] o after htail.symm
        rwa [List.append_nil] at hfirst
    | cons first rest =>
        obtain ⟨rfl, _⟩ := List.cons.inj htail
        exact hx before o rest rfl

theorem occurrencesAll_map {es : List Element}
    (h : ∀ e ∈ es, ∀ path start,
      (e.occurrences path start).map (fun o => (o.item, o.start)) = e.trackCalls start)
    (path : List Nat) (index start : Nat) :
    (occurrencesAll es path index start).map (fun o => (o.item, o.start)) =
      trackCallsAll es start := by
  induction es generalizing index start with
  | nil => rfl
  | cons e rest ih =>
      obtain ⟨he, hrest⟩ := List.forall_mem_cons.mp h
      rw [occurrencesAll, trackCallsAll, List.map_append, he, ih hrest]

/-- The nodes and tokens are the calls of a walk that goes into every node. -/
theorem occurrences_map (e : Element) (path : List Nat) (start : Nat) :
    (e.occurrences path start).map (fun o => (o.item, o.start)) = e.trackCalls start := by
  induction e using Element.induction generalizing path start with
  | token t => rfl
  | node kind measure children ih =>
      rw [occurrences, trackCalls, List.map_cons, occurrencesAll_map ih]
  | list measure nodes ih => exact occurrencesAll_map ih path 0 start
  | separated measure slots ih => exact occurrencesAll_map ih path 0 start

/-- The tokens among the nodes and tokens are as wide as the text. -/
theorem widthAll_occurrences (e : Element) (path : List Nat) (start : Nat) :
    Token.widthAll ((e.occurrences path start).filterMap fun a => a.item.token?) =
      e.fullText.width := by
  have htokens := e.trackCalls_tokens start
  rw [← e.occurrences_map path start, List.filterMap_map] at htokens
  rw [fullText_eq_leaves, Token.width_flatMap_fullText, ← htokens]
  rfl

theorem startBehindTokens_occurrencesAll {es : List Element}
    (h : ∀ e ∈ es, ∀ path start, StartBehindTokens start (e.occurrences path start))
    (path : List Nat) (index start : Nat) :
    StartBehindTokens start (occurrencesAll es path index start) := by
  induction es generalizing index start with
  | nil =>
      intro before o after heq
      cases before <;> cases heq
  | cons e rest ih =>
      obtain ⟨he, hrest⟩ := List.forall_mem_cons.mp h
      refine (he _ start).append ?_
      rw [widthAll_occurrences]
      exact ih hrest (index + 1) _

theorem startBehindTokens_occurrences (e : Element) (path : List Nat) (start : Nat) :
    StartBehindTokens start (e.occurrences path start) := by
  induction e using Element.induction generalizing path start with
  | token t =>
      intro before o after heq
      cases before with
      | nil =>
          cases heq
          rfl
      | cons first rest => cases rest <;> cases (List.cons.inj heq).2
  | node kind measure children ih =>
      exact .cons rfl rfl (startBehindTokens_occurrencesAll ih path 0 start)
  | list measure nodes ih => exact startBehindTokens_occurrencesAll ih path 0 start
  | separated measure slots ih => exact startBehindTokens_occurrencesAll ih path 0 start

/-- Whatever a hook answers, and whatever it remembers of its calls, a tracking walk through
a tree calls it for the nodes and tokens that have nothing skipped above them, in preorder,
each at the start behind all tokens in front of it, and ends behind the tree. -/
theorem track_calls_unskipped {σ : Type} {root : Element} (h : root.Constructed)
    (hook : σ → Element → Nat → Descend × σ) (state : σ) (start : Nat)
    (hlimit : start + root.width < Offset.limit) :
    ∃ last answer,
      root.track hook state start = .ok (last, start + root.width) ∧
      root.track (recording hook) (state, []) start =
        .ok ((last, (Occurrence.unskipped answer (root.occurrences [] start)).map
          (Occurrence.call answer)), start + root.width) ∧
      StartBehindTokens start (root.occurrences [] start) := by
  have hmade := h.regular.made
  rw [hmade.width_eq] at hlimit ⊢
  obtain ⟨last, answer, hplain, hrecorded⟩ := exists_tracks hook hmade [] state start hlimit
  refine ⟨last, answer, hplain, ?_, root.startBehindTokens_occurrences [] start⟩
  rw [hrecorded [], List.nil_append, callsOf, reached_eq_unskipped]

/-- A hook that counts its calls and goes into the first node only. -/
def enterOnce (calls : Nat) (_ : Element) (_ : Nat) : Descend × Nat :=
  (if calls = 0 then .into else .skip, calls + 1)

/-- The name in the block is passed, so that five of the six nodes and tokens are called. -/
theorem track_unevenBlock_unskipped :
    unevenBlock.Constructed ∧ 10 + unevenBlock.width < Offset.limit ∧
      (unevenBlock.occurrences [] 10).length = 6 ∧
      unevenBlock.track enterOnce 0 10 = .ok (5, 17) ∧
      ∃ last answer,
        unevenBlock.track enterOnce 0 10 = .ok (last, 10 + unevenBlock.width) ∧
        unevenBlock.track (recording enterOnce) (0, []) 10 =
          .ok ((last, (Occurrence.unskipped answer (unevenBlock.occurrences [] 10)).map
            (Occurrence.call answer)), 10 + unevenBlock.width) ∧
        StartBehindTokens 10 (unevenBlock.occurrences [] 10) := by
  have hlimit : 10 + unevenBlock.width < Offset.limit := by decide
  exact ⟨constructed_unevenBlock, hlimit, by decide, rfl,
    track_calls_unskipped constructed_unevenBlock enterOnce 0 10 hlimit⟩

end Element

end Verbatim
