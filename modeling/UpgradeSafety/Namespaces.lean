import UpgradeSafety.Hash.Keccak
import UpgradeSafety.Syntax.Documentation
import UpgradeSafety.Syntax.Source
import UpgradeSafety.Syntax.TypeNames

/-!
# Namespaced storage

A struct whose documentation names a storage location lives at a root of its own, derived from the
location. The namespaces of a contract are those of all contracts that it inherits from; a location
may be used only once among them.
-/

namespace UpgradeSafety.Namespaces

open Syntax

/-- The thirty-two bytes of a number modulo `2^256`, the first one highest. -/
def wordBytes (n : Nat) : List UInt8 :=
  (List.range 32).reverse.map fun i => UInt8.ofNat (n / Nat.pow 256 i % 256)

/-- The root slot of a namespace: the hash of its id less one is hashed again, and the last byte is
cleared. -/
def erc7201Root (id : String) : Nat :=
  let first := Text.bigEndian (Hash.keccak256 (Text.utf8Bytes id))
  let second := Text.bigEndian (Hash.keccak256 (wordBytes (first - 1)))
  second / 256 * 256

/-- The root slot of a namespace as thirty-two bytes in hexadecimal. -/
def erc7201Location (id : String) : String :=
  "0x" ++ String.ofList (Text.hexDigits 64 (erc7201Root id))

/-- The formula whose locations are known. -/
def erc7201Formula : String := "erc7201:"

/-- The id behind a formula. -/
def withoutFormula? (location : String) : Option String :=
  if beginsWith erc7201Formula location then
    some (String.ofList (location.toList.drop erc7201Formula.length))
  else none

/-- The root slot of a location whose formula is known. -/
def root? (location : String) : Option Nat := (withoutFormula? location).map erc7201Root

/-- The storage location that a struct's documentation names. -/
def locationOf (struct : Json) : Except Failure (Option String) := do
  let doc ← documentationText struct
  if !hasTag doc "storage-location" then return none
  match tagArguments doc "storage-location" with
  | [location] => return some location
  | _ => throw (.refused .locationArguments)

/-- The members of the first struct in the table with a label and with members, by name. The last of
equal names counts. -/
def compiledMembers (types : TypeTable) (label : String) : List (String × Item) :=
  let members := types.findSome? fun (_, entry) =>
    match entry.members with
    | some (.items (i :: is)) => if entry.label = label then some (i :: is) else none
    | some (.names (_ :: _)) | some (.unnamed _) => if entry.label = label then some [] else none
    | _ => none
  ((members.getD []).map fun i => (i.label, i)).reverse

/-- The name that a struct has in type labels. -/
def structLabel (struct : Json) : Except Failure String := do
  let name ← struct.getOr "canonicalName" (← struct.get "name")
  return "struct " ++ name.display

/-- The name that a contract's definition gives; empty when there is none. -/
def contractName (contract : Json) : Except Failure Json := contract.getOr "name" (.str "")

/-- The items of a namespaced struct: its members with their places, which are known when the
compiler laid the struct out. The types of the members are entered into the table. -/
def structItems (locate : Locate) (struct contract : Json) (location : String)
    (types : TypeTable) : Reading (List Item × TypeTable) := do
  let root : Int := ((root? location).getD 0 : Nat)
  let laidOut := compiledMembers types (← structLabel struct)
  let members ← typeMembers struct
  let definitions ← (← struct.getOr "members" (.arr [])).elements
  let step (state : List Item × TypeTable) (pair : Item × Json) :
      Reading (List Item × TypeTable) := do
    let (member, definition) := pair
    let place : Option Int × Option Int :=
      match laidOut.lookup member.label with
      | some placed =>
        match placed.slot with
        | some slot => (some (slot + root), placed.offset)
        | none => (none, none)
      | none => (none, none)
    let contract ← contractName contract
    let src ← locate definition
    let item := { member with contract, src, slot := place.1, offset := place.2 }
    let types ← match ← definition.get "typeName" with
      | .null => pure state.2
      | typeName => loadType typeName state.2
    return (state.1 ++ [item], types)
  match members with
  | .items is => (is.zip definitions).foldlM step ([], types)
  | .names _ | .unnamed _ => return ([], types)

/-- A namespace that was found, with the places of all structs that use its location. -/
structure Found where
  location : String
  items : List Item
  places : List String

/-- Takes up a struct that names a location. -/
def takeStruct (locate : Locate) (contract : Json) (state : List Found × TypeTable) (node : Json) :
    Reading (List Found × TypeTable) := do
  if (← node.get "nodeType").text? != some "StructDefinition" then return state
  match ← locationOf node with
  | none => return state
  | some location =>
    let (found, types) := state
    let place ← locate node
    if found.any (·.location == location) then
      return (found.map fun f =>
        if f.location == location then { f with places := f.places ++ [place] } else f, types)
    else
      let (items, types) ← structItems locate node contract location types
      return (found ++ [⟨location, items, [place]⟩], types)

/-- A contract of the inheritance chain of `contract`, by id. -/
def chainContract (contract id : Json) : Reading Json := do
  if id.same (← contract.get "id") then return contract
  else lookUp ["ContractDefinition"] id

/-- The inheritance chain of a contract; a contract without one stands for itself. -/
def chain (contract : Json) : Except Failure Json := do
  contract.getOr "linearizedBaseContracts" (.arr [← contract.get "id"])

/-- The namespaces of a contract and its bases, and the table with the types of their members. -/
def load (locate : Locate) (contract : Json) (types : TypeTable) :
    Reading (List (String × List Item) × TypeTable) := do
  let ids ← (← chain contract).elements
  let (found, types) ← ids.foldlM (fun state id => do
      let base ← chainContract contract id
      let nodes ← (← base.getOr "nodes" (.arr [])).elements
      nodes.foldlM (takeStruct locate base) state) (([], types) : List Found × TypeTable)
  match found.find? fun f => 1 < f.places.length with
  | some f =>
    let name ← contract.get "canonicalName"
    let name ← if name.truthy then pure name else contractName contract
    throw (.refused (.duplicateNamespace f.location name.display f.places))
  | none => return (found.map fun f => (f.location, f.items), types)

end UpgradeSafety.Namespaces
