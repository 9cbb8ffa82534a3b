import UpgradeSafety.Failure
import UpgradeSafety.Json.Display

/-!
# Access to unchecked values

Compiler output is read without being checked first, so every access says what it needs: a field of
an object, the entries of an object, the elements of a list.
-/

namespace UpgradeSafety.Json

/-- A field of an object, if present. -/
def get? (v : Json) (key : String) : Except Failure (Option Json) :=
  match v with
  | obj fields => .ok (fields.lookup key)
  | _ => .error (.fault .notAnObject)

/-- A field of an object, `null` when absent. -/
def get (v : Json) (key : String) : Except Failure Json :=
  (v.get? key).map (·.getD null)

/-- A field of an object with a default for its absence. -/
def getOr (v : Json) (key : String) (default : Json) : Except Failure Json :=
  (v.get? key).map (·.getD default)

/-- A field that has to be there. -/
def need (v : Json) (key : String) : Except Failure Json :=
  match v with
  | obj fields =>
    match fields.lookup key with
    | some w => .ok w
    | none => .error (.fault .missingField)
  | _ => .error (.fault .wrongSort)

/-- The fields of an object in order. -/
def entries : Json → Except Failure Fields
  | obj fields => .ok fields
  | _ => .error (.fault .notAnObject)

/-- The elements of a list, the names of an object's fields, or the characters of a text. -/
def elements : Json → Except Failure (List Json)
  | arr items => .ok items
  | obj fields => .ok (fields.map fun (k, _) => str k)
  | str s => .ok (s.toList.map fun c => str (String.singleton c))
  | _ => .error (.fault .wrongSort)

/-- A value whose integers may be written. -/
def writable (v : Json) : Except Failure Json :=
  if v.isWritable then .ok v else .error (.badValue .digitsToWrite)

/-- A value as it is shown inside a message. -/
def shown (v : Json) : Except Failure String := v.writable.map display

/-- The value itself, or another one when it does not count. -/
def orElse (v w : Json) : Json := if v.truthy then v else w

/-- Whether a value may be looked up in a table or compared as a member of a set. -/
def hashable : Json → Bool
  | arr _ | obj _ => false
  | _ => true

end UpgradeSafety.Json
