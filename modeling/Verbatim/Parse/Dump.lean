/-
  The full dump of a parse.

  One line per element, indented by two blanks a level, with absolute ranges.  A
  token's range covers its significant text only; its trivia follows on lines of
  its own.  The problems found come last.
-/
import Verbatim.Parse.Basic

set_option autoImplicit false

namespace Verbatim

open Text

/-- A line of a dump at a depth.  Padding is assumed to have no bound of its own: a formatter
that limits the width of a field (to 65535 columns, as some do) fails on a depth of 32768. -/
def dumpLine (depth : Nat) (content : Text) : Text :=
  List.replicate (2 * depth) ' ' ++ content ++ "\n".toList

/-- Kind and range, the head of a line. -/
def dumpHead (kind : Kind) (start stop : Nat) : Text :=
  kind.label ++ "@".toList ++ Text.range start stop

/-- A line for a piece of trivia, `<` in front of its token and `>` behind it. -/
def Trivia.dumpLine (depth : Nat) (side : Text) (t : Trivia) : Text :=
  Verbatim.dumpLine (depth + 1)
    (side ++ " ".toList ++ t.kind.name.toList ++ " ".toList ++ quoted t.text)

/-- Lines of a token whose full span starts at a position. -/
def Token.dumpLines (t : Token) (start depth : Nat) : List Text :=
  let first := start + t.leading.width
  let content := if t.isZeroWidth then "missing".toList else quoted t.text
  dumpLine depth (dumpHead t.kind first (first + t.width) ++ " ".toList ++ content) ::
    (t.leading.toList.map (Trivia.dumpLine depth "<".toList) ++
      t.trailing.toList.map (Trivia.dumpLine depth ">".toList))

namespace Element

mutual

/-- Lines of an element that starts at a position. -/
def dumpLines : Element → Nat → Nat → List Text
  | .token t, start, depth => t.dumpLines start depth
  | .node k m cs, start, depth =>
      dumpLine depth (dumpHead k start (start + m.width)) :: dumpLinesAll cs start (depth + 1)
  | .list m cs, start, depth =>
      dumpLine depth (dumpHead .list start (start + m.width)) :: dumpLinesAll cs start (depth + 1)
  | .separated m cs, start, depth =>
      dumpLine depth (dumpHead .separatedList start (start + m.width)) ::
        dumpLinesAll cs start (depth + 1)

/-- Lines of neighbours. -/
def dumpLinesAll : List Element → Nat → Nat → List Text
  | [], _, _ => []
  | e :: rest, start, depth =>
      e.dumpLines start depth ++ dumpLinesAll rest (start + e.width) depth

end

end Element

/-- A line for a problem. -/
def Diagnostic.dumpLine (d : Diagnostic) : Text :=
  "error@".toList ++ Text.range d.start d.stop ++ ": ".toList ++ d.message.toList ++ "\n".toList

/-- The dump of a parse. -/
def Parse.dump (p : Parse) : Text :=
  (p.root.dumpLines 0 0 ++ p.diagnostics.map Diagnostic.dumpLine).flatten

end Verbatim
