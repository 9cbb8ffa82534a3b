import UpgradeSafety.Json.Basic
import UpgradeSafety.Numeral.FloatText
import UpgradeSafety.Numeral.Integer
import UpgradeSafety.Text.Quoted

/-!
# Values in messages

How a value is shown inside a message: a text as it is, and other values in source notation, with
texts inside lists and tables in quotes.
-/

namespace UpgradeSafety.Json

open Text

mutual

/-- A value in source notation. -/
def inspect : Json → String
  | null => "None"
  | bool b => if b then "True" else "False"
  | int n => toString n
  | float x => Numeral.FloatFormat.exact.text x
  | str s => quote s
  | arr items => "[" ++ inspectItems items ++ "]"
  | obj fields => "\x7b" ++ inspectFields fields ++ "\x7d"

/-- The elements of a list, separated. -/
def inspectItems : List Json → String
  | [] => ""
  | [v] => inspect v
  | v :: rest => inspect v ++ ", " ++ inspectItems rest

/-- The entries of a table, separated. -/
def inspectFields : List (String × Json) → String
  | [] => ""
  | [(k, v)] => quote k ++ ": " ++ inspect v
  | (k, v) :: rest => quote k ++ ": " ++ inspect v ++ ", " ++ inspectFields rest

end

mutual

/-- Whether all integers within a value may be written. -/
def isWritable : Json → Bool
  | int n => Numeral.isWritable n
  | arr items => areWritable items
  | obj fields => fieldsAreWritable fields
  | _ => true

/-- Whether all integers within the elements of a list may be written. -/
def areWritable : List Json → Bool
  | [] => true
  | v :: rest => isWritable v && areWritable rest

/-- Whether all integers within the entries of a table may be written. -/
def fieldsAreWritable : List (String × Json) → Bool
  | [] => true
  | (_, v) :: rest => isWritable v && fieldsAreWritable rest

end

/-- A value inside a message. -/
def display : Json → String
  | str s => s
  | v => inspect v

end UpgradeSafety.Json
