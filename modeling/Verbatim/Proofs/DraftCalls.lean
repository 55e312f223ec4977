/-
  The calls that put a draft together.

  A draft can be built by calls to a builder, where a node that is put around another one is
  opened in front of that one.  A builder that accepts these calls adds the elements that the
  draft says directly: inside of every frame that it opens, it adds what is in there, and it
  closes the frame over exactly that.
-/
import Verbatim.Parse.Marker
import Verbatim.Proofs.ReplayedCalls

set_option autoImplicit false

namespace Verbatim

/-! ## The calls for a draft -/

mutual

/-- The calls that build what a draft stands for. -/
def Draft.calls : Draft → List Builder.Call
  | .done => []
  | .token t rest => .token t.kind t.text t.leading t.trailing :: rest.calls
  | .missing kind rest => .token kind [] .empty .empty :: rest.calls
  | .list inner rest => .startList :: (inner.calls ++ .finishList :: rest.calls)
  | .separated inner rest => .startSeparated :: (inner.calls ++ .finishSeparated :: rest.calls)
  | .node first rest => first.calls ++ rest.calls

/-- The calls that build a node.  A node that is put around another one is opened in front of
that one. -/
def NodeDraft.calls : NodeDraft → List Builder.Call
  | .complete inner kind => .startNode kind :: (inner.calls ++ [.finishNode])
  | .precede first inner kind =>
      .startNode kind :: (first.calls ++ (inner.calls ++ [.finishNode]))

end

/-- A call that would open a node whose kind has not been decided. -/
def Builder.Call.isUndecided : Builder.Call → Bool
  | .startNode kind => kind == .tombstone
  | _ => false

/-! ## What accepted calls add -/

namespace Builder

variable {b next : Builder}

theorem eq_of_token {kind : Kind} {text : Text} {leading trailing : TriviaList}
    (h : b.token kind text leading trailing = .ok next) :
    ∃ t, Token.new kind text leading trailing = .ok t ∧ next = b.pushAll [.token t] := by
  obtain ⟨t, ht, h⟩ := exists_of_bind h
  obtain ⟨frame, _, h⟩ := exists_of_bind h
  cases frame with
  | list _ => cases h
  | node _ _ | separated _ =>
      cases h
      exact ⟨t, ht, rfl⟩

theorem eq_of_finishNode {kind : Kind} {es : List Element}
    (h : ((b.startNode kind).pushAll es).finishNode = .ok next) :
    ∃ e, Element.newNode kind es = .ok e ∧ next = b.pushAll [e] := by
  obtain ⟨frame, hframe, h⟩ := exists_of_bind h
  cases hframe
  obtain ⟨e, he, h⟩ := exists_of_bind h
  cases h
  refine ⟨e, ?_, close_inside b _ es e⟩
  rwa [pushAll, startNode, List.drop_left] at he

theorem eq_of_startList (h : b.startList = .ok next) :
    next = ⟨.list b.finished.length :: b.opened, b.finished⟩ := by
  obtain ⟨_, _, h⟩ := exists_of_bind h
  cases h
  rfl

theorem eq_of_finishList {es : List Element}
    (h : (pushAll ⟨.list b.finished.length :: b.opened, b.finished⟩ es).finishList = .ok next) :
    requireNodes es = .ok () ∧ next = b.pushAll [.makeList es] := by
  obtain ⟨frame, hframe, h⟩ := exists_of_bind h
  cases hframe
  obtain ⟨_, hnodes, h⟩ := exists_of_bind h
  cases h
  rw [pushAll, List.drop_left] at hnodes ⊢
  exact ⟨hnodes, close_inside b _ es _⟩

theorem eq_of_startSeparated (h : b.startSeparated = .ok next) :
    next = ⟨.separated b.finished.length :: b.opened, b.finished⟩ := by
  obtain ⟨_, _, h⟩ := exists_of_bind h
  cases h
  rfl

theorem eq_of_finishSeparated {es : List Element}
    (h : (pushAll ⟨.separated b.finished.length :: b.opened, b.finished⟩ es).finishSeparated =
      .ok next) :
    requireSlots es = .ok () ∧ ∃ e, Element.newSeparated es = .ok e ∧ next = b.pushAll [e] := by
  obtain ⟨frame, hframe, h⟩ := exists_of_bind h
  cases hframe
  obtain ⟨_, hslots, h⟩ := exists_of_bind h
  rw [pushAll, List.drop_left] at hslots h
  split at h
  · rename_i e he
    cases h
    exact ⟨hslots, e, he, close_inside b _ es e⟩
  · cases h

theorem exists_of_callAll_cons {c : Call} {rest : List Call}
    (h : b.callAll (c :: rest) = .ok next) :
    ∃ mid, b.call c = .ok mid ∧ mid.callAll rest = .ok next := by
  cases hcall : b.call c with
  | error fault =>
      rw [callAll, hcall] at h
      cases h
  | ok mid => exact ⟨mid, rfl, (callAll_cons hcall rest).symm.trans h⟩

theorem exists_of_callAll_append {xs ys : List Call} (h : b.callAll (xs ++ ys) = .ok next) :
    ∃ mid, b.callAll xs = .ok mid ∧ mid.callAll ys = .ok next :=
  exists_of_bind ((callAll_append b xs ys).symm.trans h)

end Builder

mutual

/-- Where the calls for a draft are accepted, they add the elements that it builds. -/
theorem Draft.exists_build : ∀ (d : Draft) {b next : Builder}, b.callAll d.calls = .ok next →
    ∃ es, d.build = .ok es ∧ next = b.pushAll es
  | .done, b, next, h => by
      cases h
      exact ⟨[], rfl, b.pushAll_nil.symm⟩
  | .token t rest, b, next, h => by
      obtain ⟨mid, htoken, h⟩ := Builder.exists_of_callAll_cons h
      obtain ⟨token, hnew, rfl⟩ := Builder.eq_of_token htoken
      obtain ⟨es, hrest, rfl⟩ := rest.exists_build h
      refine ⟨.token token :: es, ?_, b.pushAll_pushAll [.token token] es⟩
      rw [Draft.build, hnew, hrest]
      rfl
  | .missing kind rest, b, next, h => by
      obtain ⟨mid, htoken, h⟩ := Builder.exists_of_callAll_cons h
      obtain ⟨token, hnew, rfl⟩ := Builder.eq_of_token htoken
      obtain ⟨es, hrest, rfl⟩ := rest.exists_build h
      refine ⟨.token token :: es, ?_, b.pushAll_pushAll [.token token] es⟩
      rw [Draft.build, Token.missing, hnew, hrest]
      rfl
  | .list inner rest, b, next, h => by
      obtain ⟨opened, hopen, h⟩ := Builder.exists_of_callAll_cons h
      obtain ⟨filled, hinner, h⟩ := Builder.exists_of_callAll_append h
      obtain ⟨closed, hclose, h⟩ := Builder.exists_of_callAll_cons h
      obtain rfl := Builder.eq_of_startList hopen
      obtain ⟨nodes, hbuild, rfl⟩ := inner.exists_build hinner
      obtain ⟨hnodes, rfl⟩ := Builder.eq_of_finishList hclose
      obtain ⟨es, hrest, rfl⟩ := rest.exists_build h
      refine ⟨Element.makeList nodes :: es, ?_, b.pushAll_pushAll [Element.makeList nodes] es⟩
      simp only [Draft.build, hbuild, hnodes, hrest, bind, Except.bind, pure, Except.pure]
  | .separated inner rest, b, next, h => by
      obtain ⟨opened, hopen, h⟩ := Builder.exists_of_callAll_cons h
      obtain ⟨filled, hinner, h⟩ := Builder.exists_of_callAll_append h
      obtain ⟨closed, hclose, h⟩ := Builder.exists_of_callAll_cons h
      obtain rfl := Builder.eq_of_startSeparated hopen
      obtain ⟨slots, hbuild, rfl⟩ := inner.exists_build hinner
      obtain ⟨hslots, list, hlist, rfl⟩ := Builder.eq_of_finishSeparated hclose
      obtain ⟨es, hrest, rfl⟩ := rest.exists_build h
      refine ⟨list :: es, ?_, b.pushAll_pushAll [list] es⟩
      simp only [Draft.build, hbuild, hslots, hlist, hrest, bind, Except.bind, pure, Except.pure]
  | .node first rest, b, next, h => by
      obtain ⟨mid, hfirst, h⟩ := Builder.exists_of_callAll_append h
      obtain ⟨e, hbuild, rfl⟩ := first.exists_build hfirst
      obtain ⟨es, hrest, rfl⟩ := rest.exists_build h
      refine ⟨e :: es, ?_, b.pushAll_pushAll [e] es⟩
      rw [Draft.build, hbuild, hrest]
      rfl

theorem NodeDraft.exists_build : ∀ (n : NodeDraft) {b next : Builder},
    b.callAll n.calls = .ok next → ∃ e, n.build = .ok e ∧ next = b.pushAll [e]
  | .complete inner kind, b, next, h => by
      obtain ⟨opened, hopen, h⟩ := Builder.exists_of_callAll_cons h
      obtain ⟨filled, hinner, h⟩ := Builder.exists_of_callAll_append h
      obtain ⟨closed, hclose, hdone⟩ := Builder.exists_of_callAll_cons h
      cases hopen
      cases hdone
      obtain ⟨children, hbuild, rfl⟩ := inner.exists_build hinner
      obtain ⟨e, hnew, rfl⟩ := Builder.eq_of_finishNode hclose
      refine ⟨e, ?_, rfl⟩
      rw [NodeDraft.build, hbuild]
      exact hnew
  | .precede first inner kind, b, next, h => by
      obtain ⟨opened, hopen, h⟩ := Builder.exists_of_callAll_cons h
      obtain ⟨started, hfirst, h⟩ := Builder.exists_of_callAll_append h
      obtain ⟨filled, hinner, h⟩ := Builder.exists_of_callAll_append h
      obtain ⟨closed, hclose, hdone⟩ := Builder.exists_of_callAll_cons h
      cases hopen
      cases hdone
      obtain ⟨child, hchild, rfl⟩ := first.exists_build hfirst
      obtain ⟨children, hbuild, rfl⟩ := inner.exists_build hinner
      rw [Builder.call, Builder.pushAll_pushAll] at hclose
      obtain ⟨e, hnew, rfl⟩ := Builder.eq_of_finishNode hclose
      refine ⟨e, ?_, rfl⟩
      rw [NodeDraft.build, hchild, hbuild]
      exact hnew

end

end Verbatim
