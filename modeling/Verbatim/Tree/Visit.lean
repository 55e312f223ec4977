/-
  Depth-first traversal by hooks.

  A hook is called for every element on the way down, lists and trivia included,
  from left to right.  `Element.visits` is the sequence of all hook calls.  A
  tracking walk calls one hook per node and token with the absolute position; the
  hook may decide not to go into a node, and the position moves past it all the
  same.
-/
import Verbatim.Tree.Basic

set_option autoImplicit false

namespace Verbatim

/-! ## Hook calls -/

/-- One hook call of a depth-first walk. -/
inductive Visit where
  /-- A child of a node, before the hook for its own form. -/
  | element (kind : Kind)
  | node (kind : Kind)
  | token (token : Token)
  | list (count : Nat)
  | separatedList (count : Nat)
  | triviaList (count : Nat)
  | trivia (trivia : Trivia)
  deriving DecidableEq, Repr, Inhabited

namespace Visit

/-- The token of a token hook. -/
def token? : Visit → Option Token
  | .token t => some t
  | _ => none

/-- The trivia of a trivia hook. -/
def trivia? : Visit → Option Trivia
  | .trivia t => some t
  | _ => none

end Visit

/-- Hook calls for a run of trivia. -/
def TriviaList.visits (l : TriviaList) : List Visit :=
  .triviaList l.count :: l.toList.map .trivia

/-- Hook calls for a token: the trivia in front comes before the trivia behind. -/
def Token.visits (t : Token) : List Visit :=
  .token t :: (t.leading.visits ++ t.trailing.visits)

namespace Element

mutual

/-- Hook calls for an element. -/
def visits : Element → List Visit
  | .token t => t.visits
  | .node k _ cs => .node k :: visitsChildren cs
  | .list _ cs => .list cs.length :: visitsAll cs
  | .separated _ cs => .separatedList cs.length :: visitsAll cs

/-- Hook calls for what a list holds. -/
def visitsAll : List Element → List Visit
  | [] => []
  | e :: rest => e.visits ++ visitsAll rest

/-- Hook calls for the children of a node, each announced as an element first. -/
def visitsChildren : List Element → List Visit
  | [] => []
  | e :: rest => .element e.kind :: (e.visits ++ visitsChildren rest)

end

variable {σ : Type}

/-! ## Walks with a hook for tokens -/

mutual

/-- Walks with a hook for tokens, which does not go on to their trivia; every other hook only
goes on. -/
def walkTokens (hook : σ → Token → σ) : Element → σ → σ
  | .token t, state => hook state t
  | .node _ _ cs, state => walkTokensAll hook cs state
  | .list _ cs, state => walkTokensAll hook cs state
  | .separated _ cs, state => walkTokensAll hook cs state

/-- Walks over neighbours. -/
def walkTokensAll (hook : σ → Token → σ) : List Element → σ → σ
  | [], state => state
  | e :: rest, state => walkTokensAll hook rest (walkTokens hook e state)

end

/-! ## Tracking walks -/

/-- Whether a walk goes into a node. -/
inductive Descend where
  | into | skip
  deriving DecidableEq, Repr, Inhabited

mutual

/-- Walks from a position on, calling `hook` for every node before its children
and for every token.  Answers the state of the hook and the position behind the
element. -/
def track (hook : σ → Element → Nat → Descend × σ) :
    Element → σ → Nat → Except Fault (σ × Nat)
  | .token t, state, position => do
      let (_, state) := hook state (.token t) position
      return (state, ← Offset.add position t.fullWidth)
  | .node k m cs, state, position =>
      match hook state (.node k m cs) position with
      | (.into, state) => trackAll hook cs state position
      | (.skip, state) => do return (state, ← Offset.add position m.width)
  | .list _ cs, state, position => trackAll hook cs state position
  | .separated _ cs, state, position => trackAll hook cs state position

/-- Walks over neighbours. -/
def trackAll (hook : σ → Element → Nat → Descend × σ) :
    List Element → σ → Nat → Except Fault (σ × Nat)
  | [], state, position => .ok (state, position)
  | e :: rest, state, position => do
      let (state, position) ← track hook e state position
      trackAll hook rest state position

end

end Element

end Verbatim
