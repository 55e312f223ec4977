/-
  The report of a diagnostic: the message, the place, and the source line with the
  range underlined.

  Lines are numbered from one and end at a line feed.  The gutter is as wide as the
  line number.  An empty line has nothing to show; its report points at the start
  of the file and stops after the gutter.
-/
import Verbatim.Diagnostic

set_option autoImplicit false

namespace Verbatim.Diagnostic

/-- The lines of a report that shows a source line. -/
def snippet (path message line : Text) (number column underline : Nat) : List Text :=
  let label := Text.decimal number
  let gutter := List.replicate label.length ' '
  [ "error: ".toList ++ message,
    gutter ++ "--> ".toList ++ path ++ ":".toList ++ label ++ ":".toList ++
      Text.decimal (column + 1),
    gutter ++ " |".toList,
    label ++ " | ".toList ++ line,
    gutter ++ " | ".toList ++ List.replicate column ' ' ++ List.replicate underline '^' ++
      " here".toList,
    gutter ++ " |".toList ]

/-- The lines of a report that has no source line to show. -/
def bareSnippet (path message : Text) : List Text :=
  [ "error: ".toList ++ message, "--> ".toList ++ path ++ ":1:1".toList, " |".toList,
    " |".toList ]

/-- The report of a diagnostic in a text. -/
def report (d : Diagnostic) (path source : Text) : Text :=
  let message := d.message.toList
  let lines :=
    match source.splitAt? d.start with
    | none => bareSnippet path message
    | some (before, after) =>
        let opening := Text.lastLine before
        let line := opening ++ after.takeWhile (· != '\n')
        if line.isEmpty then bareSnippet path message
        else
          let span := (source.slice? d.start d.stop).getD []
          snippet path message line (before.count '\n' + 1) opening.length (max 1 span.length)
  List.intercalate "\n".toList lines

end Verbatim.Diagnostic
