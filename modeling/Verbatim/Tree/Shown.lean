/-
  The one-line form of an element in messages and dumps: kind and width, then the
  quoted text of a token or the children in brackets.  The slots of a separated
  list also say which of the two roles they play.
-/
import Verbatim.Tree.Basic

set_option autoImplicit false

namespace Verbatim.Element

/-- Kind and width, the head of a composite element. -/
def shownHead (name : Text) (width : Nat) : Text :=
  name ++ "@".toList ++ Text.decimal width ++ " ".toList

/-- A bracketed, comma-separated sequence. -/
def bracketed (items : List Text) : Text :=
  "[".toList ++ List.intercalate ", ".toList items ++ "]".toList

mutual

/-- One-line form of an element. -/
def shown : Element → Text
  | .token t => t.shown
  | .node k m cs => shownHead k.label m.width ++ bracketed (shownAll cs)
  | .list m cs => shownHead Kind.list.label m.width ++ bracketed (shownAll cs)
  | .separated m cs => shownHead Kind.separatedList.label m.width ++ bracketed (shownSlots cs)

/-- One-line forms of neighbours. -/
def shownAll : List Element → List Text
  | [] => []
  | e :: rest => e.shown :: shownAll rest

/-- One-line forms of the slots of a separated list. -/
def shownSlots : List Element → List Text
  | [] => []
  | e :: rest =>
      ((if e.isToken then "Token(".toList else "Node(".toList) ++ e.shown ++ ")".toList)
        :: shownSlots rest

end

end Verbatim.Element
