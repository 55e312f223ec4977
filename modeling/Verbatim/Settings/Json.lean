/-
  Reading JSON text from left to right.

  Settings are read straight from the text into typed values, without a tree of
  JSON values in between.  Reading stops at the first problem, and there are two
  kinds of problem: text that is not JSON, and JSON of the wrong shape.  A value
  that nobody asked for is only passed over; surrogate escapes need not pair up in
  a string that is passed over.
-/
import Verbatim.Text.Basic

set_option autoImplicit false

namespace Verbatim

/-- Why settings could not be read. -/
inductive SettingsError where
  /-- Not JSON, or cut short. -/
  | malformed
  /-- JSON of the wrong type, out of range, or with a field given twice. -/
  | wrongShape
  deriving DecidableEq, Repr, Inhabited

namespace Json

/-- A reader takes a value off the front of a text. -/
abbrev Reader (α : Type) := StateT Text (Except SettingsError) α

/-- Stops because the text is not JSON. -/
def malformed {α : Type} : Reader α := throw .malformed

/-! ## Characters -/

/-- Blanks between the parts of JSON. -/
def isBlank (c : Char) : Bool :=
  c == ' ' || c == '\n' || c == '\t' || c == '\r'

/-- The next character after blanks, left in place. -/
def peek : Reader (Option Char) := do
  let t := (← get).dropWhile isBlank
  set t
  return t.head?

/-- Takes one character. -/
def take : Reader Char := do
  match ← get with
  | [] => malformed
  | c :: rest => set rest; return c

/-- Takes the given word. -/
def word : Text → Reader Unit
  | [] => return ()
  | c :: rest => do
      if (← take) = c then word rest else malformed

/-! ## Numbers -/

/-- A number: an integer that fits in 64 bits, or something else. -/
inductive Number where
  | natural (n : Nat)
  | other
  deriving DecidableEq, Repr, Inhabited

/-- Takes all digits that come next. -/
def digits : Reader Text := do
  let t ← get
  set (t.dropWhile Char.isDigit)
  return t.takeWhile Char.isDigit

/-- Takes digits, of which there has to be one. -/
def someDigits : Reader Text := do
  let ds ← digits
  if ds.isEmpty then malformed else return ds

/-- Value of decimal digits. -/
def valueOf (ds : Text) : Nat :=
  ds.foldl (fun n d => 10 * n + (d.toNat - '0'.toNat)) 0

/-- The integer part of a number, which has no leading zero. -/
def integerPart : Reader Text := do
  let ds ← someDigits
  match ds with
  | '0' :: _ :: _ => malformed
  | _ => return ds

/-- The fraction of a number, without the point. -/
def fraction : Reader Text := do
  match ← get with
  | '.' :: rest => set rest; someDigits
  | _ => return []

/-- The exponent of a number. -/
def exponent : Reader (Option Int) := do
  match ← get with
  | 'e' :: rest | 'E' :: rest =>
      match rest with
      | '-' :: rest => set rest; return some (-Int.ofNat (valueOf (← someDigits)))
      | '+' :: rest => set rest; return some (Int.ofNat (valueOf (← someDigits)))
      | _ => set rest; return some (Int.ofNat (valueOf (← someDigits)))
  | _ => return none

/-- From this bound on a number rounds to infinity in double precision. -/
def overflowBound : Nat := Nat.pow 2 1024 - Nat.pow 2 970

/-- `significand · 10 ^ scale` is too large for double precision. -/
def overflows (significand : Nat) (scale : Int) : Bool :=
  let magnitude : Int := (Nat.toDigits 10 significand).length + scale
  if significand = 0 then false
  else if magnitude > 400 then true
  else if magnitude < 300 then false
  else if scale ≥ 0 then overflowBound ≤ significand * Nat.pow 10 scale.toNat
  else overflowBound * Nat.pow 10 (-scale).toNat ≤ significand

/-- A number behind its sign.  A number too large for double precision is not
accepted as JSON. -/
def number (negative : Bool) : Reader Number := do
  let whole ← integerPart
  let part ← fraction
  let power ← exponent
  let value := valueOf whole
  if part.isEmpty && power.isNone && value < 18446744073709551616 then
    return if negative then .other else .natural value
  else
    if overflows (valueOf (whole ++ part)) (power.getD 0 - Int.ofNat part.length) then malformed
    else return .other

/-! ## Strings -/

/-- Value of a hexadecimal digit. -/
def hexValue? (c : Char) : Option Nat :=
  if c.isDigit then some (c.toNat - '0'.toNat)
  else if 'a' ≤ c && c ≤ 'f' then some (c.toNat - 'a'.toNat + 10)
  else if 'A' ≤ c && c ≤ 'F' then some (c.toNat - 'A'.toNat + 10)
  else none

/-- Takes four hexadecimal digits. -/
def hexUnit : Reader Nat := do
  let digit : Reader Nat := do
    match hexValue? (← take) with
    | some n => return n
    | none => malformed
  let a ← digit
  let b ← digit
  let c ← digit
  let d ← digit
  return ((a * 16 + b) * 16 + c) * 16 + d

/-- The character of a numeric escape.  Two surrogates together make one. -/
def unicodeEscape : Reader Char := do
  let unit ← hexUnit
  if 0xDC00 ≤ unit && unit ≤ 0xDFFF then malformed
  else if 0xD800 ≤ unit && unit ≤ 0xDBFF then
    word "\\u".toList
    let low ← hexUnit
    if 0xDC00 ≤ low && low ≤ 0xDFFF then
      return Char.ofNat (0x10000 + (unit - 0xD800) * 0x400 + (low - 0xDC00))
    else malformed
  else return Char.ofNat unit

/-- The character of an escape behind its backslash. -/
def escape (paired : Bool) : Reader Char := do
  match ← take with
  | '"' => return '"'
  | '\\' => return '\\'
  | '/' => return '/'
  | 'b' => return '\x08'
  | 'f' => return '\x0c'
  | 'n' => return '\n'
  | 'r' => return '\r'
  | 't' => return '\t'
  | 'u' =>
      if paired then unicodeEscape
      else
        let _ ← hexUnit
        return '\uFFFD'
  | _ => malformed

/-- The rest of a string behind its opening quote, at most `budget` characters. -/
def stringRest (paired : Bool) : Nat → Reader Text
  | 0 => malformed
  | budget + 1 => do
      let c ← take
      if c = '"' then return []
      else if c = '\\' then
        let d ← escape paired
        return d :: (← stringRest paired budget)
      else if c.toNat < 0x20 then malformed
      else return c :: (← stringRest paired budget)

/-- A string behind its opening quote. -/
def string (paired : Bool) : Reader Text := do
  stringRest paired ((← get).length + 1)

/-! ## Values that are passed over -/

/-- The sign-free syntax of a number, of any size. -/
def skipNumber : Reader Unit := do
  let _ ← integerPart
  let _ ← fraction
  let _ ← exponent

mutual

/-- Passes over a value. -/
def skipValue : Nat → Reader Unit
  | 0 => malformed
  | budget + 1 => do
      match ← peek with
      | some 'n' => word "null".toList
      | some 't' => word "true".toList
      | some 'f' => word "false".toList
      | some '-' => let _ ← take; skipNumber
      | some '"' => let _ ← take; let _ ← string false
      | some '[' =>
          let _ ← take
          if (← peek) = some ']' then let _ ← take
          else skipItems budget
      | some '\x7b' =>
          let _ ← take
          if (← peek) = some '\x7d' then let _ ← take
          else skipMembers budget
      | some c => if c.isDigit then skipNumber else malformed
      | none => malformed

/-- Passes over the items of an array and its end. -/
def skipItems : Nat → Reader Unit
  | 0 => malformed
  | budget + 1 => do
      skipValue budget
      match ← peek with
      | some ',' => let _ ← take; skipItems budget
      | some ']' => let _ ← take
      | _ => malformed

/-- Passes over the members of an object and its end. -/
def skipMembers : Nat → Reader Unit
  | 0 => malformed
  | budget + 1 => do
      if (← peek) ≠ some '"' then malformed
      let _ ← take
      let _ ← string false
      if (← peek) ≠ some ':' then malformed
      let _ ← take
      skipValue budget
      match ← peek with
      | some ',' => let _ ← take; skipMembers budget
      | some '\x7d' => let _ ← take
      | _ => malformed

end

/-- Passes over the next value. -/
def skip : Reader Unit := do
  skipValue (2 * (← get).length + 2)

/-! ## Typed values -/

/-- Stops at a value of another type than the one asked for.  Words, numbers and
strings still have to be well formed. -/
def mismatch {α : Type} : Reader α := do
  match ← peek with
  | some 'n' => word "null".toList; throw .wrongShape
  | some 't' => word "true".toList; throw .wrongShape
  | some 'f' => word "false".toList; throw .wrongShape
  | some '-' => let _ ← take; let _ ← number true; throw .wrongShape
  | some '"' => let _ ← take; let _ ← string true; throw .wrongShape
  | some '[' | some '\x7b' => throw .wrongShape
  | some c => if c.isDigit then let _ ← number false; throw .wrongShape else malformed
  | none => malformed

/-- A truth value. -/
def bool : Reader Bool := do
  match ← peek with
  | some 't' => word "true".toList; return true
  | some 'f' => word "false".toList; return false
  | _ => mismatch

/-- A natural number below `2 ^ 32`. -/
def nat32 : Reader Nat := do
  match ← peek with
  | some '-' => let _ ← take; let _ ← number true; throw .wrongShape
  | some c =>
      if c.isDigit then
        match ← number false with
        | .natural n => if n < 4294967296 then return n else throw .wrongShape
        | .other => throw .wrongShape
      else mismatch
  | none => malformed

/-- A string. -/
def text : Reader Text := do
  match ← peek with
  | some '"' => let _ ← take; string true
  | _ => mismatch

/-! ## Records -/

/-- A field of a record: its name, and how to read it into a record. -/
structure FieldReader (α : Type) where
  name : Text
  read : α → Reader α

variable {α : Type}

/-- Another item of an array comes next. -/
def hasItem (first : Bool) : Reader Bool := do
  match ← peek with
  | none => malformed
  | some ']' => return false
  | some ',' =>
      if first then return true
      let _ ← take
      match ← peek with
      | none | some ']' => malformed
      | some _ => return true
  | some _ => if first then return true else malformed

/-- Reads fields in order from the items of an array, as far as there are any. -/
def items : List (FieldReader α) → Bool → α → Reader α
  | [], _, value => return value
  | field :: rest, first, value => do
      if ← hasItem first then items rest false (← field.read value)
      else items rest first value

/-- Another member of an object comes next. -/
def hasMember (first : Bool) : Reader Bool := do
  match ← peek with
  | none => malformed
  | some '\x7d' => return false
  | some c =>
      if first then
        if c = '"' then return true else malformed
      else if c = ',' then
        let _ ← take
        if (← peek) = some '"' then return true else malformed
      else malformed

/-- Reads members of an object into a record.  Unknown names are passed over, and
no field may be given twice. -/
def members (fields : List (FieldReader α)) : Nat → Bool → List Text → α → Reader α
  | 0, _, _, _ => malformed
  | budget + 1, first, seen, value => do
      if ← hasMember first then
        let _ ← take
        let name ← string true
        match fields.find? fun f => f.name == name with
        | none =>
            if (← peek) ≠ some ':' then malformed
            let _ ← take
            skip
            members fields budget false seen value
        | some field =>
            if seen.contains name then throw .wrongShape
            if (← peek) ≠ some ':' then malformed
            let _ ← take
            members fields budget false (name :: seen) (← field.read value)
      else return value

/-- Reads a record from an object by name, or from an array in field order.  Fields
that are not given keep their values in `start`. -/
def record (fields : List (FieldReader α)) (start : α) : Reader α := do
  match ← peek with
  | none => malformed
  | some '[' =>
      let _ ← take
      let value ← items fields true start
      if (← peek) = some ']' then
        let _ ← take
        return value
      else malformed
  | some '\x7b' =>
      let _ ← take
      let value ← members fields ((← get).length + 1) true [] start
      let _ ← take
      return value
  | some _ => mismatch

/-- Reads a whole text as one value. -/
def readAll (reader : Reader α) (t : Text) : Except SettingsError α := do
  let (value, rest) ← reader.run t
  if (rest.dropWhile isBlank).isEmpty then return value else throw .malformed

/-! ## Writing -/

/-- One character of a written string. -/
def escapedChar (c : Char) : Text :=
  match c with
  | '"' => "\\\"".toList
  | '\\' => "\\\\".toList
  | '\n' => "\\n".toList
  | '\r' => "\\r".toList
  | '\t' => "\\t".toList
  | '\x08' => "\\b".toList
  | '\x0c' => "\\f".toList
  | c =>
      if c.toNat < 0x20 then
        "\\u00".toList ++ [Nat.digitChar (c.toNat / 16), Nat.digitChar (c.toNat % 16)]
      else [c]

/-- A string as JSON. -/
def writeString (t : Text) : Text :=
  "\"".toList ++ t.flatMap escapedChar ++ "\"".toList

/-- A truth value as JSON. -/
def writeBool (b : Bool) : Text :=
  if b then "true".toList else "false".toList

/-- An object as JSON, members in order. -/
def writeObject (entries : List (Text × Text)) : Text :=
  let entry (e : Text × Text) : Text := writeString e.1 ++ ":".toList ++ e.2
  "\x7b".toList ++ List.intercalate ",".toList (entries.map entry) ++ "\x7d".toList

end Json

end Verbatim
