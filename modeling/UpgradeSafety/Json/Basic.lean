import UpgradeSafety.Numeral.Binary64

/-!
# JSON values

Objects keep the order of their fields, and whole numbers are kept apart from numbers with a
fraction or an exponent. No field of an object occurs twice when it is built with `putField`.
-/

namespace UpgradeSafety

/-- A JSON value. -/
inductive Json where
  | null
  | bool (b : Bool)
  | int (n : Int)
  | float (x : Float)
  | str (s : String)
  | arr (items : List Json)
  | obj (fields : List (String × Json))
  deriving Inhabited, Repr

/-- The fields of a JSON object, in order. -/
abbrev Fields := List (String × Json)

/-- Sets a field: a known field keeps its place, a new one comes last. -/
def putField {α : Type} (key : String) (value : α) : List (String × α) → List (String × α)
  | [] => [(key, value)]
  | (k, v) :: rest => if k == key then (key, value) :: rest else (k, v) :: putField key value rest

/-- Removes a field. -/
def dropField {α : Type} (key : String) (fields : List (String × α)) : List (String × α) :=
  fields.filter (·.1 != key)

namespace Json

/-- The field of an object; none for other values. -/
def field? (v : Json) (key : String) : Option Json :=
  match v with
  | obj fields => fields.lookup key
  | _ => none

/-- The field of an object, `null` when it is absent. -/
def field (v : Json) (key : String) : Json := (v.field? key).getD null

/-- The text of a string. -/
def text? : Json → Option String
  | str s => some s
  | _ => none

/-- The elements of an array. -/
def items? : Json → Option (List Json)
  | arr items => some items
  | _ => none

/-- The fields of an object. -/
def fields? : Json → Option Fields
  | obj fields => some fields
  | _ => none

/-- The number of a whole number. -/
def int? : Json → Option Int
  | int n => some n
  | _ => none

/-- Absent, `null`, false, zero and empty values do not count. -/
def truthy : Json → Bool
  | null => false
  | bool b => b
  | int n => n != 0
  | float x => x != 0
  | str s => !s.isEmpty
  | arr items => !items.isEmpty
  | obj fields => !fields.isEmpty

/-- `null` for nothing. -/
def ofOption {α : Type} (f : α → Json) : Option α → Json
  | some a => f a
  | none => null

/-- The value of a whole number or a truth value as a number. -/
def number? : Json → Option Int
  | int n => some n
  | bool b => some (if b then 1 else 0)
  | _ => none

end Json

end UpgradeSafety
