/-
  One token sequence, read with and without the insertion of semicolons.

  The two readings go through the same states, up to what is reported: they take the
  same tokens off the sequence at the same time, and differ only where a statement ends
  and insertion supplies nothing.  There the reading without insertion has a semicolon
  that the source does not have, and one report more.  A pair of readings is put
  together like a single one: from neighbours, and from a production to its node.  Parts
  of the grammar that no statement stands in are read the same way twice.
-/
import Verbatim.Proofs.Indifference
import Verbatim.Proofs.Terminators

set_option autoImplicit false

namespace Verbatim

/-! ## Reports -/

/-- What is said about a semicolon that is not there. -/
def semicolonExpected : String := "expected `;`"

/-- The second reports are the first ones in their order, and so many more, which ask for
a semicolon. -/
structure AsksForSemicolons (first second : List Diagnostic) (count : Nat) : Prop where
  sublist : first.Sublist second
  extra : ∃ extra, second.Perm (first ++ extra) ∧ extra.length = count ∧
    ∀ d ∈ extra, d.message = semicolonExpected

namespace AsksForSemicolons

theorem refl (ds : List Diagnostic) : AsksForSemicolons ds ds 0 :=
  ⟨.refl ds, [], by rw [List.append_nil], rfl, List.forall_mem_nil _⟩

theorem one {d : Diagnostic} (h : d.message = semicolonExpected) :
    AsksForSemicolons [] [d] 1 :=
  ⟨List.nil_sublist _, [d], .refl _, rfl, List.forall_mem_singleton.mpr h⟩

theorem append {as bs cs ds : List Diagnostic} {m n : Nat} (h : AsksForSemicolons as bs m)
    (h' : AsksForSemicolons cs ds n) : AsksForSemicolons (as ++ cs) (bs ++ ds) (m + n) := by
  obtain ⟨extra, hperm, hlength, hextra⟩ := h.extra
  obtain ⟨extra', hperm', hlength', hextra'⟩ := h'.extra
  refine ⟨h.sublist.append h'.sublist, extra ++ extra', ?_, ?_, ?_⟩
  · have hboth : (bs ++ ds).Perm (as ++ (extra ++ cs) ++ extra') := by
      simpa only [List.append_assoc] using hperm.append hperm'
    have hswap : (as ++ (extra ++ cs)).Perm (as ++ (cs ++ extra)) :=
      List.perm_append_comm.append_left as
    simpa only [List.append_assoc] using hboth.trans (hswap.append_right extra')
  · rw [List.length_append, hlength, hlength']
  · exact List.forall_mem_append.mpr ⟨hextra, hextra'⟩

end AsksForSemicolons

/-! ## Where statements end -/

/-- Insertion supplies the semicolon of a statement that ends here. -/
def ParseState.insertsSemicolon (u : ParseState) : Bool :=
  !u.isAt .semicolon && (u.atLineBreak || u.isAt .closeBrace || u.isAt .eof)

/-- A parser that started in `start` ends the statement at the place in the state `u`: it
comes to the place having read the leaves in front of it, takes the statement off the
sequence up to its semicolon, and has there the rest of its children to read. -/
def NodePlace.EndsIn (place : NodePlace) (start u : ParseState) : Prop :=
  ∃ (before actions : List Action) (s t : ParseState) (budget : Nat) (front closing : Segment)
    (es ending : List Element),
    Steps start before place.front s ∧
      (Parser.unterminated place.node.kind budget).run s = .ok (front, u) ∧ front.Stands es ∧
      Steps s actions (Element.leavesAll es) u ∧ u.tokens.length < s.tokens.length ∧
      (Parser.semicolon ⟨true⟩).run u = .ok (closing, t) ∧ closing.Stands ending ∧
      place.node.children = es ++ ending

/-! ## Pairs of readings -/

/-- Actions, output and elements of two runs over the same tokens, with insertion and
without it. -/
structure Twins (s : ParseState) (actions : List Action) (t : ParseState) (on off : Segment)
    (es ys : List Element) (more : List Diagnostic) : Prop where
  steps : Steps s actions (Element.leavesAll es) t
  stands : on.Stands es
  standsOff : off.Stands ys
  same : Element.dropAbsentAll .semicolon es = Element.dropAbsentAll .semicolon ys
  /-- Without insertion every statement has its semicolon. -/
  closed : ∀ n ∈ Element.nodesAll ys, n.isTerminated = true → n.semicolons = 1
  /-- With insertion a statement lacks it where insertion supplies one. -/
  ends : ∀ (start : ParseState) (before : List Action) (front : List Token),
    Steps start before front s →
      ∀ place ∈ Element.placesAllFrom front es, place.node.isTerminated = true →
        ∃ u, place.EndsIn start u ∧ place.node.lacksSemicolon = u.insertsSemicolon
  reports : ∃ new, t.diagnostics = s.diagnostics ++ new ∧
    AsksForSemicolons new more ((Element.nodesAll es).countP Element.lacksSemicolon)

theorem countP_lacksSemicolon_eq_zero {es : List Element}
    (h : ∀ n ∈ Element.nodesAll es, n.isTerminated = false) :
    (Element.nodesAll es).countP Element.lacksSemicolon = 0 := by
  refine List.countP_eq_zero.mpr fun n hn => ?_
  rw [Element.lacksSemicolon, h n hn, Bool.false_and]
  exact Bool.false_ne_true

namespace Twins

variable {s t u : ParseState} {actions bs : List Action} {on off on' off' : Segment}
  {es ys es' ys' : List Element} {more more' : List Diagnostic}

/-- The same reading twice, if no statement is read that a semicolon ends. -/
theorem of_reading {events : Segment} (h : Reading s actions t events es)
    (hnone : ∀ n ∈ Element.nodesAll es, n.isTerminated = false)
    (hreports : t.diagnostics = s.diagnostics ++ more) :
    Twins s actions t events events es es more := by
  refine ⟨h.steps, h.stands, h.stands, rfl, fun n hn hterminated => ?_, ?_, more, hreports, ?_⟩
  · rw [hnone n hn] at hterminated
    cases hterminated
  · intro start before front _ place hplace hterminated
    rw [hnone _ (Element.node_mem_of_place hplace)] at hterminated
    cases hterminated
  · rw [countP_lacksSemicolon_eq_zero hnone]
    exact .refl more

theorem append (h : Twins s actions t on off es ys more)
    (h' : Twins t bs u on' off' es' ys' more') :
    Twins s (actions ++ bs) u (on ++ on') (off ++ off') (es ++ es') (ys ++ ys')
      (more ++ more') where
  steps := by
    rw [Element.leavesAll_append]
    exact h.steps.trans h'.steps
  stands := h.stands.append h'.stands
  standsOff := h.standsOff.append h'.standsOff
  same := by rw [Element.dropAbsentAll_append, Element.dropAbsentAll_append, h.same, h'.same]
  closed := by
    rw [Element.nodesAll_append]
    exact List.forall_mem_append.mpr ⟨h.closed, h'.closed⟩
  ends := by
    intro start before front hfront
    rw [Element.placesAllFrom_append]
    exact List.forall_mem_append.mpr ⟨h.ends start before front hfront,
      h'.ends start _ _ (hfront.trans h.steps)⟩
  reports := by
    obtain ⟨new, hnew, hasks⟩ := h.reports
    obtain ⟨new', hnew', hasks'⟩ := h'.reports
    refine ⟨new ++ new', by rw [hnew', hnew, List.append_assoc], ?_⟩
    rw [Element.nodesAll_append, List.countP_append]
    exact hasks.append hasks'

/-- The children of another node than a statement that a semicolon ends. -/
theorem node (h : Twins s actions t on off es ys more) {kind : Kind} (hkind : kind.isNode = true)
    (hopen : Grammar.terminated.contains kind = false) :
    Twins s actions t (Segment.node kind on) (Segment.node kind off) [.makeNode kind es]
      [.makeNode kind ys] more := by
  have hnot (children : List Element) : (Element.makeNode kind children).isTerminated = false :=
    hopen
  refine ⟨?_, h.stands.node hkind, h.standsOff.node hkind, ?_, ?_, ?_, ?_⟩
  · rw [Element.leavesAll_singleton]
    exact h.steps
  · change [Element.makeNode kind (Element.dropAbsentAll .semicolon es)] =
      [Element.makeNode kind (Element.dropAbsentAll .semicolon ys)]
    rw [h.same]
  · rw [Element.nodesAll_singleton]
    refine List.forall_mem_cons.mpr ⟨fun hterminated => ?_, h.closed⟩
    exact absurd ((hnot ys).symm.trans hterminated) Bool.false_ne_true
  · intro start before front hfront
    rw [Element.placesAllFrom, Element.placesAllFrom, List.append_nil]
    refine List.forall_mem_cons.mpr ⟨fun hterminated => ?_, h.ends start before front hfront⟩
    exact absurd ((hnot es).symm.trans hterminated) Bool.false_ne_true
  · obtain ⟨new, hnew, hasks⟩ := h.reports
    refine ⟨new, hnew, ?_⟩
    rw [Element.nodesAll_singleton, Element.makeNode, Element.nodes, List.countP_cons,
      ← Element.makeNode, Element.lacksSemicolon, hnot es]
    exact hasks

theorem list (h : Twins s actions t on off es ys more) (hes : ∀ e ∈ es, e.isNode = true)
    (hys : ∀ e ∈ ys, e.isNode = true) :
    Twins s actions t (Segment.list on) (Segment.list off) [.makeList es] [.makeList ys] more where
  steps := by
    rw [Element.leavesAll_singleton]
    exact h.steps
  stands := h.stands.list hes
  standsOff := h.standsOff.list hys
  same := by
    change [Element.makeList (Element.dropAbsentAll .semicolon es)] =
      [Element.makeList (Element.dropAbsentAll .semicolon ys)]
    rw [h.same]
  closed := by
    rw [Element.nodesAll_singleton]
    exact h.closed
  ends := by
    intro start before front hfront
    rw [Element.placesAllFrom, Element.placesAllFrom, List.append_nil]
    exact h.ends start before front hfront
  reports := by
    rw [Element.nodesAll_singleton]
    exact h.reports

end Twins

/-! ## The end of a statement, read twice -/

/-- The two ways to end a statement: with insertion the semicolon is missing if insertion
supplies it, and without insertion there is one in any case. -/
structure TwinEndings (u : ParseState) (actions : List Action) (t : ParseState)
    (on off : Segment) (es ys : List Element) (more : List Diagnostic) : Prop where
  steps : Steps u actions (Element.leavesAll es) t
  stands : on.Stands es
  standsOff : off.Stands ys
  same : Element.dropAbsentAll .semicolon es = Element.dropAbsentAll .semicolon ys
  tokens : Element.nodesAll es = []
  tokensOff : Element.nodesAll ys = []
  semicolons : es.countP (Element.isTokenIn [.semicolon]) = if u.insertsSemicolon then 0 else 1
  semicolonsOff : ys.countP (Element.isTokenIn [.semicolon]) = 1
  reports : ∃ new, t.diagnostics = u.diagnostics ++ new ∧
    AsksForSemicolons new more (if u.insertsSemicolon then 1 else 0)

namespace TwinEndings

variable {u t : ParseState} {actions : List Action} {events : Segment} {e : Element}
  {more : List Diagnostic}

/-- A semicolon that is read, or supplied, by both. -/
theorem of_reading (h : Reading u actions t events [e]) (he : e.isTokenIn [.semicolon] = true)
    (hinserts : u.insertsSemicolon = false) (hreports : t.diagnostics = u.diagnostics ++ more) :
    TwinEndings u actions t events events [e] [e] more := by
  have htoken : Element.nodesAll [e] = [] := by
    rw [Element.nodesAll_singleton]
    cases e with
    | token t => rfl
    | node _ _ _ => cases he
    | list _ _ => cases he
    | separated _ _ => cases he
  have hone : [e].countP (Element.isTokenIn [.semicolon]) = 1 := by
    rw [List.countP_singleton, if_pos he]
  refine ⟨h.steps, h.stands, h.stands, rfl, htoken, htoken, ?_, hone, more, hreports, ?_⟩
  · rw [hone, hinserts]
    rfl
  · rw [hinserts]
    exact .refl more

/-- A semicolon that is supplied where insertion is not allowed. -/
theorem inserted (hinserts : u.insertsSemicolon = true) :
    TwinEndings u [] u [] [.missing .semicolon] [] [.token (.standIn .semicolon)]
      [⟨u.lastEnd, u.lastEnd, semicolonExpected⟩] := by
  refine ⟨.refl u, Segment.stands_nil, Segment.stands_missing rfl, rfl, rfl, rfl, ?_, rfl, [],
    (List.append_nil _).symm, ?_⟩
  · rw [hinserts]
    rfl
  · rw [hinserts]
    exact .one rfl

end TwinEndings

/-- A statement up to its semicolon, and the two ways to end it, make two statements. -/
theorem TwinEndings.node {s u t : ParseState} {actions bs : List Action}
    {front on off : Segment} {es ending ending' : List Element} {reported more : List Diagnostic}
    {kind : Kind} {budget : Nat} (h : TwinEndings u bs t on off ending ending' more)
    (hterminated : Grammar.terminated.contains kind = true)
    (hfront : Reading s actions u front es)
    (haccepts : Part.accepts (Grammar.unterminated kind) es = true)
    (hrun : (Parser.unterminated kind budget).run s = .ok (front, u))
    (hlength : u.tokens.length < s.tokens.length)
    (hrun' : (Parser.semicolon ⟨true⟩).run u = .ok (on, t))
    (hreports : u.diagnostics = s.diagnostics ++ reported) :
    Twins s (actions ++ bs) t (Segment.node kind (front ++ on)) (Segment.node kind (front ++ off))
      [.makeNode kind (es ++ ending)] [.makeNode kind (es ++ ending')] (reported ++ more) := by
  have hnone := Element.not_isTerminated_of_accepts (Element.isInert_of_unterminated kind) haccepts
    hfront.conforms
  have hkind : kind.isNode = true :=
    Reading.isNode_of_production (Grammar.production_of_terminated hterminated)
  have hbefore : es.countP (Element.isTokenIn [.semicolon]) = 0 :=
    Element.countP_semicolon_of_unterminated haccepts
  have hlacks : (Element.makeNode kind (es ++ ending)).lacksSemicolon = u.insertsSemicolon := by
    have hnode : (Element.makeNode kind (es ++ ending)).isTerminated = true := hterminated
    have hcount : (Element.makeNode kind (es ++ ending)).semicolons =
        if u.insertsSemicolon then 0 else 1 := by
      rw [Element.semicolons, Element.makeNode, Element.children, List.countP_append, hbefore,
        Nat.zero_add, h.semicolons]
    rw [Element.lacksSemicolon, hnode, hcount]
    cases u.insertsSemicolon <;> rfl
  have hnodes : Element.nodesAll (es ++ ending) = Element.nodesAll es := by
    rw [Element.nodesAll_append, h.tokens, List.append_nil]
  refine ⟨?_, (hfront.stands.append h.stands).node hkind,
    (hfront.stands.append h.standsOff).node hkind, ?_, ?_, ?_, ?_⟩
  · rw [Element.leavesAll_singleton, Element.makeNode, Element.leaves, Element.leavesAll_append]
    exact hfront.steps.trans h.steps
  · change [Element.makeNode kind (Element.dropAbsentAll .semicolon (es ++ ending))] =
      [Element.makeNode kind (Element.dropAbsentAll .semicolon (es ++ ending'))]
    rw [Element.dropAbsentAll_append, Element.dropAbsentAll_append, h.same]
  · rw [Element.nodesAll_singleton]
    refine List.forall_mem_cons.mpr ⟨fun _ => ?_, ?_⟩
    · rw [Element.semicolons, Element.children, List.countP_append, hbefore, h.semicolonsOff]
    · rw [Element.nodesAll_append, h.tokensOff, List.append_nil]
      intro n hn hnode
      rw [hnone n hn] at hnode
      cases hnode
  · intro start before leaves hsteps
    rw [Element.placesAllFrom, Element.placesAllFrom, List.append_nil]
    refine List.forall_mem_cons.mpr ⟨fun _ => ?_, ?_⟩
    · exact ⟨u, ⟨before, actions, s, t, budget, front, on, es, ending, hsteps, hrun, hfront.stands,
        hfront.steps, hlength, hrun', h.stands, rfl⟩, hlacks⟩
    · intro place hplace hnode
      have hmem := Element.node_mem_of_place hplace
      rw [hnodes] at hmem
      rw [hnone _ hmem] at hnode
      cases hnode
  · obtain ⟨new, hnew, hasks⟩ := h.reports
    refine ⟨reported ++ new, by rw [hnew, hreports, List.append_assoc], ?_⟩
    have hcount : (Element.nodesAll [Element.makeNode kind (es ++ ending)]).countP
        Element.lacksSemicolon = 0 + if u.insertsSemicolon then 1 else 0 := by
      rw [Element.nodesAll_singleton, Element.makeNode, Element.nodes, List.countP_cons, hnodes,
        countP_lacksSemicolon_eq_zero hnone, ← Element.makeNode, hlacks]
    rw [hcount]
    exact (AsksForSemicolons.refl reported).append hasks

/-! ## Readings of two parsers

The state of the second parser is that of the first with other reports, so it is given
by these. -/

/-- Two outputs over the same tokens, and the reports of the second parser. -/
def ReadsTwins (s : ParseState) (ds : List Diagnostic) (on off : Segment) (t : ParseState)
    (ds' : List Diagnostic) : Prop :=
  ∃ actions es ys more, Twins s actions t on off es ys more ∧ ds' = ds ++ more

/-- Two outputs over the same tokens that are nodes. -/
def ReadsTwinNodes (s : ParseState) (ds : List Diagnostic) (on off : Segment) (t : ParseState)
    (ds' : List Diagnostic) : Prop :=
  ∃ actions es ys more, Twins s actions t on off es ys more ∧ ds' = ds ++ more ∧
    (∀ e ∈ es, e.isNode = true) ∧ ∀ e ∈ ys, e.isNode = true

namespace ReadsTwins

variable {s t u : ParseState} {on off on' off' events : Segment}
  {ds ds' ds'' more : List Diagnostic} {parts : List Part}

theorem length_le (h : ReadsTwins s ds on off t ds') : t.tokens.length ≤ s.tokens.length := by
  obtain ⟨_, _, _, _, htwins, _⟩ := h
  exact htwins.steps.length_le

theorem of_reads (h : ReadsOrEnds s parts events t)
    (hparts : parts.all (fun part => part.symbol.isInert) = true)
    (hreports : t.diagnostics = s.diagnostics ++ more) :
    ReadsTwins s ds events events t (ds ++ more) := by
  obtain ⟨actions, es, hreading, _, haccepts⟩ := h
  have hnone := Element.not_isTerminated_of_accepts hparts haccepts hreading.conforms
  exact ⟨actions, es, es, more, .of_reading hreading hnone hreports, rfl⟩

theorem append (h : ReadsTwins s ds on off t ds') (h' : ReadsTwins t ds' on' off' u ds'') :
    ReadsTwins s ds (on ++ on') (off ++ off') u ds'' := by
  obtain ⟨_, _, _, _, htwins, rfl⟩ := h
  obtain ⟨_, _, _, _, htwins', rfl⟩ := h'
  exact ⟨_, _, _, _, htwins.append htwins', List.append_assoc ..⟩

theorem node (h : ReadsTwins s ds on off t ds') {kind : Kind} (hkind : kind.isNode = true)
    (hopen : Grammar.terminated.contains kind = false) :
    ReadsTwinNodes s ds (Segment.node kind on) (Segment.node kind off) t ds' := by
  obtain ⟨_, _, _, _, htwins, hreports⟩ := h
  exact ⟨_, _, _, _, htwins.node hkind hopen, hreports, List.forall_mem_singleton.mpr rfl,
    List.forall_mem_singleton.mpr rfl⟩

end ReadsTwins

namespace ReadsTwinNodes

variable {s t u : ParseState} {on off on' off' : Segment} {ds ds' ds'' : List Diagnostic}

theorem twins (h : ReadsTwinNodes s ds on off t ds') : ReadsTwins s ds on off t ds' := by
  obtain ⟨actions, es, ys, more, htwins, hreports, _⟩ := h
  exact ⟨actions, es, ys, more, htwins, hreports⟩

theorem nil (s : ParseState) (ds : List Diagnostic) : ReadsTwinNodes s ds [] [] s ds := by
  have hnothing := Twins.of_reading (.nil s) (List.forall_mem_nil _) (List.append_nil _).symm
  exact ⟨[], [], [], [], hnothing, (List.append_nil _).symm, List.forall_mem_nil _,
    List.forall_mem_nil _⟩

/-- Nodes that are read the same way twice. -/
theorem of_reads {events : Segment} {parts : List Part} {more : List Diagnostic}
    (h : ReadsOrEnds s parts events t)
    (hparts : parts.all (fun part => part.symbol.isInert) = true)
    (hnodes : ∀ es, Part.accepts parts es = true → ∀ e ∈ es, e.isNode = true)
    (hreports : t.diagnostics = s.diagnostics ++ more) :
    ReadsTwinNodes s ds events events t (ds ++ more) := by
  obtain ⟨actions, es, hreading, _, haccepts⟩ := h
  have hnone := Element.not_isTerminated_of_accepts hparts haccepts hreading.conforms
  exact ⟨actions, es, es, more, .of_reading hreading hnone hreports, rfl, hnodes es haccepts,
    hnodes es haccepts⟩

theorem append (h : ReadsTwinNodes s ds on off t ds')
    (h' : ReadsTwinNodes t ds' on' off' u ds'') :
    ReadsTwinNodes s ds (on ++ on') (off ++ off') u ds'' := by
  obtain ⟨_, _, _, _, htwins, rfl, hes, hys⟩ := h
  obtain ⟨_, _, _, _, htwins', rfl, hes', hys'⟩ := h'
  exact ⟨_, _, _, _, htwins.append htwins', List.append_assoc ..,
    List.forall_mem_append.mpr ⟨hes, hes'⟩, List.forall_mem_append.mpr ⟨hys, hys'⟩⟩

theorem list (h : ReadsTwinNodes s ds on off t ds') :
    ReadsTwins s ds (Segment.list on) (Segment.list off) t ds' := by
  obtain ⟨_, _, _, _, htwins, hreports, hes, hys⟩ := h
  exact ⟨_, _, _, _, htwins.list hes hys, hreports⟩

end ReadsTwinNodes

namespace Parser

/-- From states that differ in their reports, both parsers yield a result, and the states
behind the results differ in their reports. -/
def TwinsSucceed {α : Type} (p q : Parser α) (s : ParseState) (ds : List Diagnostic)
    (post : α → α → ParseState → List Diagnostic → Prop) : Prop :=
  ∃ a b t ds', p.run s = .ok (a, t) ∧ q.run (s.reporting ds) = .ok (b, t.reporting ds') ∧
    post a b t ds'

namespace TwinsSucceed

variable {α β : Type} {p q : Parser α} {s : ParseState} {ds : List Diagnostic}
  {mid post : α → α → ParseState → List Diagnostic → Prop}
  {last : β → β → ParseState → List Diagnostic → Prop} {single : α → ParseState → Prop}

protected theorem pure {a b : α} (h : post a b s ds) : TwinsSucceed (pure a) (pure b) s ds post :=
  ⟨a, b, s, ds, rfl, rfl, h⟩

protected theorem bind {f g : α → Parser β} (h : TwinsSucceed p q s ds mid)
    (h' : ∀ a b t ds', mid a b t ds' → TwinsSucceed (f a) (g b) t ds' last) :
    TwinsSucceed (p >>= f) (q >>= g) s ds last := by
  obtain ⟨a, b, t, ds', hrun, hrun', hmid⟩ := h
  obtain ⟨c, d, u, ds'', hnext, hnext', hlast⟩ := h' a b t ds' hmid
  refine ⟨c, d, u, ds'', ?_, ?_, hlast⟩
  · rw [StateT.run_bind, hrun]
    exact hnext
  · rw [StateT.run_bind, hrun']
    exact hnext'

protected theorem get {f g : ParseState → Parser α} (hblind : g (s.reporting ds) = g s)
    (h : TwinsSucceed (f s) (g s) s ds post) :
    TwinsSucceed (get >>= f) (get >>= g) s ds post := by
  obtain ⟨a, b, t, ds', hrun, hrun', hpost⟩ := h
  refine ⟨a, b, t, ds', hrun, ?_, hpost⟩
  change (g (s.reporting ds)).run (s.reporting ds) = _
  rw [hblind]
  exact hrun'

theorem mono (h : TwinsSucceed p q s ds mid)
    (h' : ∀ a b t ds', mid a b t ds' → post a b t ds') : TwinsSucceed p q s ds post := by
  obtain ⟨a, b, t, ds', hrun, hrun', hmid⟩ := h
  exact ⟨a, b, t, ds', hrun, hrun', h' a b t ds' hmid⟩

/-- What is known about the first parser alone can be added. -/
theorem and_succeeds (h : TwinsSucceed p q s ds post) (h' : Succeeds p s single) :
    TwinsSucceed p q s ds fun a b t ds' => post a b t ds' ∧ single a t := by
  obtain ⟨a, b, t, ds', hrun, hrun', hpost⟩ := h
  obtain ⟨a', t', hrun'', hsingle⟩ := h'
  rw [hrun] at hrun''
  cases hrun''
  exact ⟨a, b, t, ds', hrun, hrun', hpost, hsingle⟩

/-- A parser that does not look at reports does the same twice. -/
theorem of_indifferent (hp : Indifferent p) (h : Succeeds p s single) :
    TwinsSucceed p p s ds fun a b t ds' =>
      a = b ∧ single a t ∧ ∃ more, t.diagnostics = s.diagnostics ++ more ∧ ds' = ds ++ more := by
  obtain ⟨a, t, hrun, hsingle⟩ := h
  obtain ⟨new, hnew, hsame⟩ := hp s a t hrun
  exact ⟨a, a, t, ds ++ new, hrun, hsame ds, rfl, hsingle, new, hnew, rfl⟩

end TwinsSucceed

/-- An inert part of the grammar is read the same way twice. -/
theorem inert_twins {p : Parser Segment} {s : ParseState} {ds : List Diagnostic}
    {parts : List Part} {single : Segment → ParseState → Prop} (hp : Indifferent p)
    (h : Succeeds p s single) (hparts : parts.all (fun part => part.symbol.isInert) = true)
    (hreads : ∀ events t, single events t → ReadsOrEnds s parts events t) :
    TwinsSucceed p p s ds fun on off t ds' =>
      ReadsTwins s ds on off t ds' ∧ t.tokens.length ≤ s.tokens.length ∧ single on t := by
  refine (TwinsSucceed.of_indifferent hp h).mono ?_
  rintro events _ t _ ⟨rfl, hsingle, more, hreports, rfl⟩
  have hread := hreads events t hsingle
  exact ⟨.of_reads hread hparts hreports, hread.length_le, hsingle⟩

end Parser

end Verbatim
