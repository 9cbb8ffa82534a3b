import UpgradeSafety.Json.Access

/-!
# Searching a syntax tree

A syntax tree is a JSON value whose objects carry a `nodeType`. A search walks a tree in document
order and finds the objects of the wanted types. Objects that are pruned are left out with
everything below them. Deciding whether to prune may fail; the search then ends there, and what was
found before counts.

The walk keeps a list of the values still to be visited, the next one first.
-/

namespace UpgradeSafety.Syntax

/-- What a search found, and the failure that ended it early. -/
structure Found where
  nodes : List Json
  stop : Option Failure := none

/-- What a search does at an object. -/
inductive Visit where
  /-- The object and everything below it is left out. -/
  | prune
  /-- The search goes on below the object, which is itself found or not. -/
  | descend (found : Bool)

/-- How a search treats an object. -/
abbrev Visitor := Json → Except Failure Visit

/-- Visits an object: a rule for pruning applies to objects with a type, and an object is found when
its type is wanted. -/
def visitor (wanted : List String) (prune : Option (Json → Except Failure Bool)) : Visitor :=
  fun node => do
    let type ← node.get "nodeType"
    let pruned ← match prune with
      | some rule => if type.truthy then rule node else pure false
      | none => pure false
    if pruned then return .prune
    else if !type.hashable then throw (.fault .wrongSort)
    else return .descend (wanted.any fun w => type.text? == some w)

mutual

/-- The number of values in a value. -/
def weight : Json → Nat
  | .arr items => weightItems items + 1
  | .obj fields => weightFields fields + 1
  | _ => 1

/-- The number of values in a list. -/
def weightItems : List Json → Nat
  | [] => 0
  | v :: rest => weight v + weightItems rest

/-- The number of values in fields. -/
def weightFields : List (String × Json) → Nat
  | [] => 0
  | (_, v) :: rest => weight v + weightFields rest

end

theorem weight_pos (v : Json) : 0 < weight v := by cases v <;> simp [weight]

theorem weightItems_append (xs ys : List Json) :
    weightItems (xs ++ ys) = weightItems xs + weightItems ys := by
  induction xs with
  | nil => simp [weightItems]
  | cons x xs ih => simp [weightItems, ih, Nat.add_assoc]

/-- The values of an object's fields. -/
def fieldValues (fields : Fields) : List Json := fields.map (·.2)

theorem weightItems_fieldValues (fields : Fields) :
    weightItems (fieldValues fields) = weightFields fields := by
  induction fields with
  | nil => rfl
  | cons f fields ih =>
    obtain ⟨k, v⟩ := f
    simpa [fieldValues, weightItems, weightFields] using ih

/-- Visits the pending values in order; `found` holds what was found so far, last first. -/
def walk (visit : Visitor) (found : List Json) (pending : List Json) : Found :=
  match pending with
  | [] => ⟨found.reverse, none⟩
  | .obj fields :: rest =>
    match visit (.obj fields) with
    | .error e => ⟨found.reverse, some e⟩
    | .ok .prune => walk visit found rest
    | .ok (.descend isFound) =>
      walk visit (if isFound then .obj fields :: found else found) (fieldValues fields ++ rest)
  | .arr items :: rest => walk visit found (items ++ rest)
  | _ :: rest => walk visit found rest
termination_by weightItems pending
decreasing_by
  all_goals simp only [weightItems, weight, weightItems_append, weightItems_fieldValues]
  all_goals first | omega | exact Nat.lt_add_of_pos_left (weight_pos _)

/-- The nodes of the wanted types in a tree, in document order. -/
def search (wanted : List String) (tree : Json) : Found := walk (visitor wanted none) [] [tree]

/-- The nodes of the wanted types in a tree outside pruned nodes, in document order. -/
def searchUnless (prune : Json → Except Failure Bool) (wanted : List String) (tree : Json) :
    Found :=
  walk (visitor wanted (some prune)) [] [tree]

/-- Treats what was found in order, and then fails if the search did. -/
def Found.collect {α : Type} (f : Json → Except Failure (List α)) (x : Found) :
    Except Failure (List α) := do
  let parts ← x.nodes.mapM f
  match x.stop with
  | some e => throw e
  | none => return parts.flatten

end UpgradeSafety.Syntax
