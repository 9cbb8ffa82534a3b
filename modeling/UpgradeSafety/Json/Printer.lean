import UpgradeSafety.Json.Basic
import UpgradeSafety.Numeral.FloatText
import UpgradeSafety.Text.Quoted

/-!
# Writing JSON

Two written forms, both ASCII: one line with a blank after every comma and colon, and an indented
form with one field or element a line. Characters beyond ASCII are escaped as UTF-16 units.
-/

namespace UpgradeSafety.Json

open Text

/-- The escape of one UTF-16 unit. -/
def escapeUnit (n : Nat) : List Char := '\\' :: 'u' :: hexDigits 4 n

/-- One character of a written string. -/
def writeChar (c : Char) : List Char :=
  match c with
  | '"' => ['\\', '"']
  | '\\' => ['\\', '\\']
  | '\n' => ['\\', 'n']
  | '\r' => ['\\', 'r']
  | '\t' => ['\\', 't']
  | '\x08' => ['\\', 'b']
  | '\x0c' => ['\\', 'f']
  | c =>
    let n := c.toNat
    if 0x20 ≤ n && n < 0x7f then [c]
    else if n < 0x10000 then escapeUnit n
    else escapeUnit (0xd800 + (n - 0x10000) / 0x400) ++ escapeUnit (0xdc00 + (n - 0x10000) % 0x400)

/-- A written string. -/
def writeString (s : String) : String :=
  "\"" ++ String.ofList (s.toList.flatMap writeChar) ++ "\""

/-- A written float: the fewest digits that read back. -/
def writeFloat (x : Float) : String :=
  match Numeral.Binary64.ofFloat x with
  | .nan => "NaN"
  | .infinite negative => if negative then "-Infinity" else "Infinity"
  | .finite .. => Numeral.FloatFormat.exact.text x

mutual

/-- A value on one line. -/
def write : Json → String
  | null => "null"
  | bool b => if b then "true" else "false"
  | int n => toString n
  | float x => writeFloat x
  | str s => writeString s
  | arr items => "[" ++ writeItems items ++ "]"
  | obj fields => "\x7b" ++ writeFields fields ++ "\x7d"

/-- The elements of an array, separated. -/
def writeItems : List Json → String
  | [] => ""
  | [v] => write v
  | v :: rest => write v ++ ", " ++ writeItems rest

/-- The fields of an object, separated. -/
def writeFields : List (String × Json) → String
  | [] => ""
  | [(k, v)] => writeString k ++ ": " ++ write v
  | (k, v) :: rest => writeString k ++ ": " ++ write v ++ ", " ++ writeFields rest

end

/-- A line break and the indentation of a depth. -/
def newline (depth : Nat) : String := "\n" ++ String.ofList (List.replicate (2 * depth) ' ')

mutual

/-- A value over several lines; `depth` is the depth of the line it starts on. -/
def writeIndented (depth : Nat) : Json → String
  | arr [] => "[]"
  | arr (v :: items) =>
    "[" ++ newline (depth + 1) ++ writeIndented (depth + 1) v ++
      writeIndentedItems (depth + 1) items ++ newline depth ++ "]"
  | obj [] => "\x7b\x7d"
  | obj ((k, v) :: fields) =>
    "\x7b" ++ newline (depth + 1) ++ writeString k ++ ": " ++ writeIndented (depth + 1) v ++
      writeIndentedFields (depth + 1) fields ++ newline depth ++ "\x7d"
  | null => "null"
  | bool b => if b then "true" else "false"
  | int n => toString n
  | float x => writeFloat x
  | str s => writeString s

/-- The elements after the first. -/
def writeIndentedItems (depth : Nat) : List Json → String
  | [] => ""
  | v :: rest =>
    "," ++ newline depth ++ writeIndented depth v ++ writeIndentedItems depth rest

/-- The fields after the first. -/
def writeIndentedFields (depth : Nat) : List (String × Json) → String
  | [] => ""
  | (k, v) :: rest =>
    "," ++ newline depth ++ writeString k ++ ": " ++ writeIndented depth v ++
      writeIndentedFields depth rest

end

end UpgradeSafety.Json
