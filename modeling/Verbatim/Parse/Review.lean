/-
  Constructs that the parser accepts and the language forbids.

  A finished tree is read once in source order.  Constants have to be initialized,
  and a declaration may not end in a comma.  Positions count from the start of the
  tree that is reviewed.
-/
import Verbatim.Diagnostic
import Verbatim.Tree.Separated

set_option autoImplicit false

namespace Verbatim

/-- A problem at the significant text of a token that starts, trivia included, at
a position; an empty range there if there is no token. -/
def reportToken (t : Option Token) (start : Nat) (message : String) : Diagnostic :=
  match t with
  | some t => ⟨start + t.leading.width, start + t.leading.width + t.width, message⟩
  | none => ⟨start, start, message⟩

namespace Element

/-- A declared variable has a value. -/
def isInitialized (declarator : Element) : Bool :=
  declarator.children.any fun c => c.kind == .equalsValueClause

/-- Declared constants without a value, among slots that start at a position. -/
def uninitialized : List Element → Nat → List Diagnostic
  | [], _ => []
  | slot :: rest, start =>
      let here :=
        if slot.isNode && !slot.isInitialized then
          [reportToken slot.firstToken? start "const declarations must be initialized"]
        else []
      here ++ uninitialized rest (start + slot.width)

/-- The separator at the end of a list that spans `start..start + width`. -/
def trailingComma (slots : List Element) (start width : Nat) : List Diagnostic :=
  if Separated.hasTrailingSeparator slots then
    match Separated.separatorAt slots (Separated.count slots - 1) with
    | .ok (.token separator) =>
        [reportToken (some separator) (start + width - separator.fullWidth)
          "trailing comma not allowed in variable declaration"]
    | _ => []
  else []

/-- Problems of the children of a declaration, which start at a position. -/
def reviewDeclarators (isConst : Bool) : List Element → Nat → List Diagnostic
  | [], _ => []
  | c :: rest, start =>
      let here :=
        match c with
        | .separated m slots =>
            (if isConst then uninitialized slots start else []) ++ trailingComma slots start m.width
        | _ => []
      here ++ reviewDeclarators isConst rest (start + c.width)

/-- A declaration of constants: its first child is that keyword. -/
def declaresConstants (children : List Element) : Bool :=
  match children with
  | .token t :: _ => t.kind == .constKw
  | _ => false

mutual

/-- Problems of a subtree that starts at a position, and the position behind it,
counted token by token. -/
def reviewFrom : Element → Nat → List Diagnostic × Nat
  | .token t, start => ([], start + t.fullWidth)
  | .node k _ cs, start =>
      let own :=
        if k = .variableDeclaration then reviewDeclarators (declaresConstants cs) cs start else []
      let (inner, stop) := reviewAllFrom cs start
      (own ++ inner, stop)
  | .list _ cs, start => reviewAllFrom cs start
  | .separated _ cs, start => reviewAllFrom cs start

/-- Problems of neighbours. -/
def reviewAllFrom : List Element → Nat → List Diagnostic × Nat
  | [], start => ([], start)
  | e :: rest, start =>
      let (here, middle) := reviewFrom e start
      let (more, stop) := reviewAllFrom rest middle
      (here ++ more, stop)

end

/-- Problems of a tree. -/
def review (root : Element) : List Diagnostic :=
  (reviewFrom root 0).1

end Element

end Verbatim
