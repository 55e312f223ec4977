/-
  Settings: the options of the parser and of the layout, as they are kept in a
  JSON file.  Every field is optional.
-/
import Verbatim.Format.Options
import Verbatim.Parse.State
import Verbatim.Settings.Json

set_option autoImplicit false

namespace Verbatim

open Json (FieldReader Reader)

/-! ## Parser options -/

namespace ParseOptions

/-- Missing semicolons are accepted where the language allows it. -/
def default : ParseOptions := ⟨true⟩

/-- The fields of the parser options. -/
def fields : List (FieldReader ParseOptions) :=
  [⟨"allowAutomaticSemicolonInsertion".toList,
    fun o => do return { o with allowAutomaticSemicolonInsertion := ← Json.bool }⟩]

/-- Reads parser options. -/
def reader : Reader ParseOptions :=
  Json.record fields default

/-- Reads parser options from a text. -/
def read (t : Text) : Except SettingsError ParseOptions :=
  Json.readAll reader t

/-- Parser options as JSON. -/
def write (o : ParseOptions) : Text :=
  Json.writeObject [("allowAutomaticSemicolonInsertion".toList,
    Json.writeBool o.allowAutomaticSemicolonInsertion)]

end ParseOptions

/-! ## Layout options -/

namespace FormatOptions

/-- The fields of the layout options. -/
def fields : List (FieldReader FormatOptions) :=
  [⟨"useTabs".toList, fun o => do return { o with useTabs := ← Json.bool }⟩,
    ⟨"spacesPerTab".toList, fun o => do return { o with spacesPerTab := ← Json.nat32 }⟩,
    ⟨"indentSpaces".toList, fun o => do return { o with indentSpaces := ← Json.nat32 }⟩,
    ⟨"newLine".toList, fun o => do return { o with newLine := ← Json.text }⟩]

/-- Reads layout options. -/
def reader : Reader FormatOptions :=
  Json.record fields default

/-- Reads layout options from a text. -/
def read (t : Text) : Except SettingsError FormatOptions :=
  Json.readAll reader t

/-- Layout options as JSON. -/
def write (o : FormatOptions) : Text :=
  Json.writeObject [("useTabs".toList, Json.writeBool o.useTabs),
    ("spacesPerTab".toList, Text.decimal o.spacesPerTab),
    ("indentSpaces".toList, Text.decimal o.indentSpaces),
    ("newLine".toList, Json.writeString o.newLine)]

end FormatOptions

/-! ## Both together -/

/-- All settings. -/
structure Settings where
  parse : ParseOptions
  format : FormatOptions
  deriving DecidableEq, Repr, Inhabited

namespace Settings

/-- Settings where nothing is set. -/
def default : Settings := ⟨.default, .default⟩

/-- The fields of the settings. -/
def fields : List (FieldReader Settings) :=
  [⟨"parse".toList, fun s => do return { s with parse := ← ParseOptions.reader }⟩,
    ⟨"format".toList, fun s => do return { s with format := ← FormatOptions.reader }⟩]

/-- Reads settings. -/
def reader : Reader Settings :=
  Json.record fields default

/-- Reads settings from a text. -/
def read (t : Text) : Except SettingsError Settings :=
  Json.readAll reader t

/-- Settings as JSON. -/
def write (s : Settings) : Text :=
  Json.writeObject [("parse".toList, s.parse.write), ("format".toList, s.format.write)]

end Settings

end Verbatim
