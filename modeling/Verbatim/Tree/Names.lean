/-
  The names that occur in a tree: the distinct texts of its identifier tokens.
  An identifier that the source does not have contributes the empty text.
-/
import Verbatim.Tree.Visit
import Verbatim.Text.Order

set_option autoImplicit false

namespace Verbatim.Element

/-- The text that a token contributes to the names. -/
def nameOf? (t : Token) : Option Text :=
  if t.kind = .identifier then some t.text else none

/-- The distinct identifier texts of a subtree, ascending. -/
def names (root : Element) : List Text :=
  Text.sortedSet (root.visits.filterMap fun v => v.token?.bind nameOf?)

end Verbatim.Element
