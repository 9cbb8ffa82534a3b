import UpgradeSafety.Json.Display
import UpgradeSafety.Json.Equality
import UpgradeSafety.TypeId.Basic

/-!
# Storage layouts

A layout lists the variables of a contract in declaration order, with the slot and the offset of
each where they are known, and a table that describes every type. Types are named by their ids.
Namespaces are lists of variables of their own.

A variable may carry the name or the type it had in an earlier version.

The names of contracts and of the values of enums are texts in every layout that is read. In a
layout that was made from a syntax tree they are what the tree gives as names.
-/

namespace UpgradeSafety

/-- A declared variable, or a member of a struct. -/
structure Item where
  label : String
  type : String
  contract : Json := .str ""
  src : String := ""
  slot : Option Int := none
  offset : Option Int := none
  astId : Option Int := none
  renamedFrom : Option String := none
  retypedFrom : Option String := none
  deriving DecidableEq, Repr

/-- The members of a struct, or the names of an enum. -/
inductive Members where
  | items (items : List Item)
  | names (names : List String)
  /-- What stands for the names of an enum when not all of them are texts. -/
  | unnamed (values : List Json)
  deriving DecidableEq, Repr

namespace Members

/-- The members of a struct. An empty list is one of either sort. -/
def items? : Members → Option (List Item)
  | items is => some is
  | names [] => some []
  | names (_ :: _) | unnamed _ => none

/-- The names of an enum, those that are no texts as they are displayed. An empty list is one of
either sort. -/
def names? : Members → Option (List String)
  | names ns => some ns
  | items [] => some []
  | unnamed (.str n :: vs) => some (n :: vs.map Json.display)
  | items (_ :: _) | unnamed _ => none

/-- The number of members. -/
def size : Members → Nat
  | items is => is.length
  | names ns => ns.length
  | unnamed vs => vs.length

/-- Whether members pass for those of a struct or of an enum, by the first of them. -/
def isSound : Members → Bool
  | items _ | names _ | unnamed (.str _ :: _) => true
  | unnamed _ => false

end Members

/-- What is known about a type. -/
structure TypeEntry where
  label : String
  encoding : Option String := none
  numberOfBytes : Option Int := none
  members : Option Members := none
  base : Option String := none
  key : Option String := none
  value : Option String := none
  deriving DecidableEq, Repr

/-- Type entries by type id, in order. -/
abbrev TypeTable := List (String × TypeEntry)

/-- The storage layout of one version of a contract. -/
structure Layout where
  layoutVersion : Option String
  solcVersion : Option String := none
  storage : List Item := []
  types : TypeTable := []
  namespaces : List (String × List Item) := []
  flat : Bool := false
  deriving DecidableEq, Repr

namespace Layout

/-- The version of the layout format that is written. -/
def currentVersion : String := "1.2"

/-- Whether a layout has the current format. -/
def isCurrent (layout : Layout) : Bool := layout.layoutVersion == some currentVersion

end Layout

end UpgradeSafety
