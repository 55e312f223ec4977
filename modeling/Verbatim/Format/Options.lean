/-
  Layout of emitted text: indentation and line ends.
-/
import Verbatim.Text.Basic

set_option autoImplicit false

namespace Verbatim

/-- Layout settings. -/
structure FormatOptions where
  useTabs : Bool
  spacesPerTab : Nat
  indentSpaces : Nat
  newLine : Text
  deriving DecidableEq, Repr

namespace FormatOptions

/-- Four blanks a level and line ends of two characters. -/
def default : FormatOptions :=
  ⟨false, 4, 4, "\r\n".toList⟩

instance : Inhabited FormatOptions := ⟨default⟩

/-- Blanks that cover a number of columns.  With tabs, as many tabs as fit, and
blanks for the remainder; a tab of no width is never used. -/
def indentation (options : FormatOptions) (columns : Nat) : Text :=
  if options.useTabs && options.spacesPerTab != 0 then
    List.replicate (columns / options.spacesPerTab) '\t' ++
      List.replicate (columns % options.spacesPerTab) ' '
  else List.replicate columns ' '

end FormatOptions

end Verbatim
