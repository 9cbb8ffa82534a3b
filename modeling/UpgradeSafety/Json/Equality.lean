import UpgradeSafety.Json.Basic

/-!
# Equality of JSON values

Two values are *the same* when they mean the same: numbers are compared by value, and the order of
the fields of an object does not count. Identity is finer and can be decided, too: `1` is not
`1.0`, and objects with their fields in another order differ.
-/

namespace UpgradeSafety.Json

/-! ## Identity -/

mutual

/-- Decides whether two values are identical. -/
def decideEq : (a b : Json) → Decidable (a = b)
  | .null, .null => isTrue rfl
  | .bool a, .bool b => decidable_of_iff (a = b) (by simp)
  | .int a, .int b => decidable_of_iff (a = b) (by simp)
  | .float a, .float b => decidable_of_iff (a = b) (by simp)
  | .str a, .str b => decidable_of_iff (a = b) (by simp)
  | .arr as, .arr bs =>
    haveI := decideEqItems as bs
    decidable_of_iff (as = bs) (by simp)
  | .obj as, .obj bs =>
    haveI := decideEqFields as bs
    decidable_of_iff (as = bs) (by simp)
  | .null, .bool _ | .null, .int _ | .null, .float _ | .null, .str _ | .null, .arr _
  | .null, .obj _ | .bool _, .null | .bool _, .int _ | .bool _, .float _ | .bool _, .str _
  | .bool _, .arr _ | .bool _, .obj _ | .int _, .null | .int _, .bool _ | .int _, .float _
  | .int _, .str _ | .int _, .arr _ | .int _, .obj _ | .float _, .null | .float _, .bool _
  | .float _, .int _ | .float _, .str _ | .float _, .arr _ | .float _, .obj _ | .str _, .null
  | .str _, .bool _ | .str _, .int _ | .str _, .float _ | .str _, .arr _ | .str _, .obj _
  | .arr _, .null | .arr _, .bool _ | .arr _, .int _ | .arr _, .float _ | .arr _, .str _
  | .arr _, .obj _ | .obj _, .null | .obj _, .bool _ | .obj _, .int _ | .obj _, .float _
  | .obj _, .str _ | .obj _, .arr _ => isFalse nofun

/-- Decides whether two lists of values are identical. -/
def decideEqItems : (as bs : List Json) → Decidable (as = bs)
  | [], [] => isTrue rfl
  | a :: as, b :: bs =>
    haveI := decideEq a b
    haveI := decideEqItems as bs
    decidable_of_iff (a = b ∧ as = bs) (by simp)
  | [], _ :: _ | _ :: _, [] => isFalse nofun

/-- Decides whether two lists of fields are identical. -/
def decideEqFields : (as bs : Fields) → Decidable (as = bs)
  | [], [] => isTrue rfl
  | (k, a) :: as, (l, b) :: bs =>
    haveI := decideEq a b
    haveI := decideEqFields as bs
    decidable_of_iff ((k = l ∧ a = b) ∧ as = bs) (by simp)
  | [], _ :: _ | _ :: _, [] => isFalse nofun

end

instance : DecidableEq Json := decideEq

/-! ## Sameness -/

mutual

/-- Equality of values: numbers by value, objects whatever the order of their fields. -/
def same : Json → Json → Bool
  | null, null => true
  | bool a, b =>
    match b with
    | float y => (Numeral.Binary64.ofFloat y).wholeNumber? == some (if a then 1 else 0)
    | _ => b.number? == some (if a then 1 else 0)
  | int a, b =>
    match b with
    | float y => (Numeral.Binary64.ofFloat y).wholeNumber? == some a
    | _ => b.number? == some a
  | float x, b =>
    match b with
    | float y => (Numeral.Binary64.ofFloat x).same (Numeral.Binary64.ofFloat y)
    | _ => match b.number? with
      | some n => (Numeral.Binary64.ofFloat x).wholeNumber? == some n
      | none => false
  | str a, str b => a == b
  | arr as, arr bs => sameItems as bs
  | obj as, obj bs => as.length == bs.length && sameFields as bs
  | _, _ => false

/-- Equality of lists, element by element. -/
def sameItems : List Json → List Json → Bool
  | [], [] => true
  | a :: as, b :: bs => same a b && sameItems as bs
  | _, _ => false

/-- Every field of the first list is a field of the second with an equal value. -/
def sameFields : List (String × Json) → List (String × Json) → Bool
  | [], _ => true
  | (k, v) :: as, bs =>
    (match bs.lookup k with
      | some w => same v w
      | none => false) && sameFields as bs

end

end UpgradeSafety.Json
