/-
  The syntax tree.

  A tree is made of tokens, nodes, lists of nodes, and separated lists in which
  nodes alternate with separator tokens.  Everything but a token keeps a summary
  of its subtree, the total width and the gathered facts, settled when it is made
  from its children.  `Element.leaves` is the view of a tree as a token sequence,
  and `Element.fullText` is the source that it spans.
-/
import Verbatim.Token

set_option autoImplicit false

namespace Verbatim

/-! ## Elements -/

/-- Summary of a subtree: its width with all trivia, and the facts about it. -/
structure Measure where
  width : Nat
  flags : Flags
  deriving DecidableEq, Repr, Inhabited

namespace Measure

/-- Summary of nothing. -/
def zero : Measure := ⟨0, .empty⟩

/-- Summary of two neighbours. -/
def add (a b : Measure) : Measure :=
  ⟨a.width + b.width, a.flags.union b.flags⟩

end Measure

/-- An element of a syntax tree. -/
inductive Element where
  | token (token : Token)
  | node (kind : Kind) (measure : Measure) (children : List Element)
  | list (measure : Measure) (nodes : List Element)
  | separated (measure : Measure) (slots : List Element)
  deriving Repr, Inhabited

namespace Element

/-- A fact about every element, from the same fact about its children. -/
theorem induction {motive : Element → Prop}
    (token : ∀ t, motive (.token t))
    (node : ∀ kind measure children, (∀ c ∈ children, motive c) →
      motive (.node kind measure children))
    (list : ∀ measure nodes, (∀ c ∈ nodes, motive c) → motive (.list measure nodes))
    (separated : ∀ measure slots, (∀ c ∈ slots, motive c) → motive (.separated measure slots))
    (e : Element) : motive e :=
  @Element.rec motive (fun es => ∀ c ∈ es, motive c) token node list separated
    (fun _ h => absurd h List.not_mem_nil)
    (fun _ _ head tail c h => by
      rcases List.mem_cons.mp h with rfl | h
      · exact head
      · exact tail c h)
    e

mutual

/-- Equality of elements is decidable. -/
def decEq : (a b : Element) → Decidable (a = b)
  | .token s, .token t =>
      if h : s = t then isTrue (by rw [h]) else isFalse (fun e => h (Element.token.inj e))
  | .node k m cs, .node l n ds =>
      if h : k = l ∧ m = n then
        match decEqAll cs ds with
        | isTrue g => isTrue (by rw [h.1, h.2, g])
        | isFalse g => isFalse (fun e => g (Element.node.inj e).2.2)
      else isFalse (fun e => h ⟨(Element.node.inj e).1, (Element.node.inj e).2.1⟩)
  | .list m cs, .list n ds =>
      if h : m = n then
        match decEqAll cs ds with
        | isTrue g => isTrue (by rw [h, g])
        | isFalse g => isFalse (fun e => g (Element.list.inj e).2)
      else isFalse (fun e => h (Element.list.inj e).1)
  | .separated m cs, .separated n ds =>
      if h : m = n then
        match decEqAll cs ds with
        | isTrue g => isTrue (by rw [h, g])
        | isFalse g => isFalse (fun e => g (Element.separated.inj e).2)
      else isFalse (fun e => h (Element.separated.inj e).1)
  | .token _, .node .. | .token _, .list .. | .token _, .separated .. => isFalse nofun
  | .node .., .token _ | .node .., .list .. | .node .., .separated .. => isFalse nofun
  | .list .., .token _ | .list .., .node .. | .list .., .separated .. => isFalse nofun
  | .separated .., .token _ | .separated .., .node .. | .separated .., .list .. => isFalse nofun

/-- Equality of lists of elements is decidable. -/
def decEqAll : (as bs : List Element) → Decidable (as = bs)
  | [], [] => isTrue rfl
  | a :: as, b :: bs =>
      match decEq a b with
      | isTrue h =>
          match decEqAll as bs with
          | isTrue g => isTrue (by rw [h, g])
          | isFalse g => isFalse (fun e => g (List.cons.inj e).2)
      | isFalse h => isFalse (fun e => h (List.cons.inj e).1)
  | [], _ :: _ | _ :: _, [] => isFalse nofun

end

instance : DecidableEq Element := decEq

/-! ## Accessors -/

/-- Mutually exclusive forms of an element. -/
inductive Category where
  | token | node | list | separatedList
  deriving DecidableEq, Repr, Inhabited

/-- Form of the element. -/
def category : Element → Category
  | .token _ => .token
  | .node .. => .node
  | .list .. => .list
  | .separated .. => .separatedList

/-- Kind of the element.  Lists have a kind of their own. -/
def kind : Element → Kind
  | .token t => t.kind
  | .node k _ _ => k
  | .list .. => .list
  | .separated .. => .separatedList

/-- The facts about the subtree. -/
def flags : Element → Flags
  | .token t => t.flags
  | .node _ m _ => m.flags
  | .list m _ => m.flags
  | .separated m _ => m.flags

/-- Width with all trivia. -/
def width : Element → Nat
  | .token t => t.fullWidth
  | .node _ m _ => m.width
  | .list m _ => m.width
  | .separated m _ => m.width

/-- Summary of the subtree. -/
def measure (e : Element) : Measure :=
  ⟨e.width, e.flags⟩

/-- What the element is directly made of. -/
def children : Element → List Element
  | .token _ => []
  | .node _ _ cs => cs
  | .list _ cs => cs
  | .separated _ cs => cs

/-- A node of the tree. -/
def isNode (e : Element) : Bool :=
  e.category == .node

/-- A leaf of the tree. -/
def isToken (e : Element) : Bool :=
  e.category == .token

/-- The token, if the element is one. -/
def token? : Element → Option Token
  | .token t => some t
  | _ => none

/-! ## Making elements -/

/-- Summary of neighbours, from the left. -/
def measureAll (es : List Element) : Measure :=
  es.foldl (fun m e => m.add e.measure) .zero

/-- The facts that a node of a kind adds to those of its children. -/
def ownFlags (kind : Kind) : Flags :=
  { Flags.empty with typeScript := kind.isTypeScriptSpecific }

/-- A node over its children, with its summary settled. -/
def makeNode (kind : Kind) (children : List Element) : Element :=
  .node kind (children.foldl (fun m e => m.add e.measure) ⟨0, ownFlags kind⟩) children

/-- A node over its children.  Its kind has to label nodes. -/
def newNode (kind : Kind) (children : List Element) : Except Fault Element :=
  if kind.isNode then .ok (makeNode kind children) else .error (.notNodeKind kind)

/-- A list of nodes, with its summary settled. -/
def makeList (nodes : List Element) : Element :=
  .list (measureAll nodes) nodes

/-- Looks for the first slot that breaks the alternation. -/
def checkSlots (slot : Nat) : List Element → Except LookupError Unit
  | [] => .ok ()
  | e :: rest =>
      match SlotRole.ofIndex slot, e.isNode with
      | .node, true => checkSlots (slot + 1) rest
      | .separator, false => checkSlots (slot + 1) rest
      | role, _ => .error (.malformedSeparatedList slot role)

/-- A separated list over slots that alternate, a node first. -/
def newSeparated (slots : List Element) : Except LookupError Element := do
  checkSlots 0 slots
  return .separated (measureAll slots) slots

/-! ## Text and leaves -/

mutual

/-- The source text that the element spans. -/
def fullText : Element → Text
  | .token t => t.fullText
  | .node _ _ cs => fullTextAll cs
  | .list _ cs => fullTextAll cs
  | .separated _ cs => fullTextAll cs

/-- The source text that neighbours span. -/
def fullTextAll : List Element → Text
  | [] => []
  | e :: rest => e.fullText ++ fullTextAll rest

end

mutual

/-- The tokens of the subtree from left to right. -/
def leaves : Element → List Token
  | .token t => [t]
  | .node _ _ cs => leavesAll cs
  | .list _ cs => leavesAll cs
  | .separated _ cs => leavesAll cs

/-- The tokens of neighbours from left to right. -/
def leavesAll : List Element → List Token
  | [] => []
  | e :: rest => e.leaves ++ leavesAll rest

end

mutual

/-- First token of the subtree that the source has. -/
def firstToken? : Element → Option Token
  | .token t => t.present?
  | .node _ _ cs => firstTokenAll? cs
  | .list _ cs => firstTokenAll? cs
  | .separated _ cs => firstTokenAll? cs

/-- First token of neighbours that the source has. -/
def firstTokenAll? : List Element → Option Token
  | [] => none
  | e :: rest =>
      match e.firstToken? with
      | some t => some t
      | none => firstTokenAll? rest

end

mutual

/-- Last token of the subtree that the source has. -/
def lastToken? : Element → Option Token
  | .token t => t.present?
  | .node _ _ cs => lastTokenAll? cs
  | .list _ cs => lastTokenAll? cs
  | .separated _ cs => lastTokenAll? cs

/-- Last token of neighbours that the source has, searched from the right. -/
def lastTokenAll? : List Element → Option Token
  | [] => none
  | e :: rest =>
      match lastTokenAll? rest with
      | some t => some t
      | none => e.lastToken?

end

mutual

/-- The subtree holds a token, also one that the source does not have.  A node
of some width holds one in any case. -/
def containsToken : Element → Bool
  | .token _ => true
  | .node _ m cs => decide (0 < m.width) || containsTokenAny cs
  | .list _ cs => containsTokenAny cs
  | .separated _ cs => containsTokenAny cs

/-- One of the neighbours holds a token. -/
def containsTokenAny : List Element → Bool
  | [] => false
  | e :: rest => e.containsToken || containsTokenAny rest

end

mutual

/-- Number of levels below the element, lists counted as a level. -/
def height : Element → Nat
  | .token _ => 0
  | .node _ _ cs => heightAll cs + 1
  | .list _ cs => heightAll cs + 1
  | .separated _ cs => heightAll cs + 1

/-- Greatest height among neighbours. -/
def heightAll : List Element → Nat
  | [] => 0
  | e :: rest => max e.height (heightAll rest)

end

/-- The children with lists replaced by what they hold, so that only nodes and
tokens are left. -/
def flatChildren (e : Element) : List Element :=
  e.children.flatMap fun c =>
    match c with
    | .list _ nodes => nodes
    | .separated _ slots => slots
    | other => [other]

/-! ## Children by index -/

/-- The child of a node at an index. -/
def child (e : Element) (index : Nat) : Except LookupError Element :=
  match e.children[index]? with
  | some c => .ok c
  | none => .error (.indexOutOfRange index e.children.length)

/-- The node with the child at an index replaced and the summary settled anew. -/
def replaceChild (e : Element) (index : Nat) (new : Element) : Except LookupError Element :=
  if index < e.children.length then .ok (makeNode e.kind (e.children.set index new))
  else .error (.indexOutOfRange index e.children.length)

end Element

end Verbatim
