import UpgradeSafety.Layout.Json
import UpgradeSafety.Syntax.Nodes
import UpgradeSafety.TypeId.Identifier

/-!
# Types named in source

The compiler's layout leaves out the names of enums, and types that no variable uses. Both are found
from the type names in the source: a type name says which type it is, and a user defined type refers
to its definition, which names further types.
-/

namespace UpgradeSafety.Syntax

/-- The node types of type names. -/
def namingNodes : List String :=
  ["ArrayTypeName", "ElementaryTypeName", "FunctionTypeName", "Mapping", "UserDefinedTypeName"]

/-- The node types of definitions that a type name may refer to. -/
def definitionNodes : List String :=
  ["StructDefinition", "EnumDefinition", "UserDefinedValueTypeDefinition"]

/-- The type identifier and the type label of a node. -/
def typeDescription (node : Json) : Except Failure (String × String) := do
  let description := (← node.get "typeDescriptions").orElse (.obj [])
  match ← description.get "typeIdentifier", ← description.get "typeString" with
  | .str identifier, .str label => return (identifier, label)
  | _, _ => throw (.refused (.noTypeDescription (← node.get "id").display))

/-- The members of a struct definition. -/
def structMembers (definition : Json) : Except Failure (List Item) := do
  let members ← (← definition.getOr "members" (.arr [])).elements
  members.mapM fun m => do
    let label ← m.need "name"
    let type := TypeId.normalizeIdentifier (← typeDescription m).1
    match Schema.text label with
    | .valid label => return { label, type }
    | .invalid ps => throw (.invalid (ps.map (·.under (.field "label"))))

/-- The names of an enum definition. -/
def enumNames (definition : Json) : Except Failure Members := do
  let members ← (← definition.getOr "members" (.arr [])).elements
  let names ← members.mapM (·.need "name")
  return match names.mapM Json.text? with
    | some ns => .names ns
    | none => .unnamed names

/-- The members of a definition. -/
def typeMembers (definition : Json) : Except Failure Members := do
  let type ← definition.get "nodeType"
  if type.text? == some "StructDefinition" then
    return .items (← structMembers definition)
  else enumNames definition

/-- Type names met so far, by identifier. -/
abbrev Met := List (String × Json)

/-- Adds the type names among some nodes that were not met before: all that were met, and the new
ones alone. -/
def meet (met : Met) : List Json → Except Failure (Met × List Json)
  | [] => .ok (met, [])
  | node :: rest => do
    let (identifier, _) ← typeDescription node
    if (met.lookup identifier).isSome then meet met rest
    else
      let (met, fresh) ← meet (met ++ [(identifier, node)]) rest
      return (met, node :: fresh)

/-- The type names in a tree that were not met before. -/
def meetIn (met : Met) (tree : Json) : Except Failure (Met × List Json) := do
  let found := search namingNodes tree
  let result ← meet met found.nodes
  match found.stop with
  | some e => throw e
  | none => return result

/-- Whether a text begins with a word. -/
def beginsWith (word s : String) : Bool := word.toList.isPrefixOf s.toList

/-- Enters the pending type names and everything they refer to into the table. The fuel bounds the
number of type names, each of which is pending once. -/
def loadPending : Nat → Met → List Json → TypeTable → Reading TypeTable
  | 0, _, _, types => return types
  | _ + 1, _, [], types => return types
  | fuel + 1, met, node :: rest, types => do
    let (identifier, label) ← typeDescription node
    let id := TypeId.normalizeIdentifier identifier
    let entry := (types.lookup id).getD { label }
    let types := if (types.lookup id).isSome then types else types ++ [(id, entry)]
    let reference ← node.get "referencedDeclaration"
    match reference with
    | .null => loadPending fuel met rest types
    | _ =>
      if beginsWith "t_contract" id then loadPending fuel met rest types
      else
        let definition ← lookUp definitionNodes reference
        let types ←
          if entry.members.isNone && !hasType ["UserDefinedValueTypeDefinition"] definition then
            pure (putField id { entry with members := some (← typeMembers definition) } types)
          else pure types
        let (met, fresh) ← meetIn met definition
        loadPending fuel met (rest ++ fresh) types

/-- Enters a type name and everything it refers to into the table, members included. -/
def loadType (typeName : Json) (types : TypeTable) : Reading TypeTable := do
  let (met, fresh) ← meetIn [] typeName
  let bound := weight typeName + weightItems (← get).trees + 1
  loadPending bound met fresh types

end UpgradeSafety.Syntax
