/-
  The outline of a tree: one line per element in preorder, lists included, indented by the
  level of the element, with its kind and its absolute range, trivia counted in.
-/
import Verbatim.Format.Options
import Verbatim.Text.Quoted
import Verbatim.Tree.Basic

set_option autoImplicit false

namespace Verbatim.Element

/-- What a line shows of the source.  Only tokens have a text. -/
def outlineText : Element → Option Text
  | .token t => some (if t.isZeroWidth then [] else t.text)
  | _ => none

/-- The line of an element that is on a level and starts at a position.  Its indentation and
its end have to be offsets. -/
def outlineLine (options : FormatOptions) (e : Element) (depth start : Nat) :
    Except Fault Text := do
  let columns ← Offset.mul depth options.indentSpaces
  let stop ← Offset.add start e.width
  let head := options.indentation columns ++ e.kind.label ++ "@".toList ++ Text.range start stop
  return match e.outlineText with
    | some t => head ++ " ".toList ++ Text.quoted t
    | none => head

end Verbatim.Element
