import UpgradeSafety.Layout.Placement
import UpgradeSafety.Log.Occasion
import UpgradeSafety.Namespaces

/-!
# Importing layouts

The compiler describes the storage of each contract. An imported layout says more: which contract
declares each variable and where, the annotations of its declaration, the names of enums, and the
namespaces. A layout is imported only if all of its types resolve and its variables do not overlap.
-/

namespace UpgradeSafety.Import

open Syntax

/-- What else is known about a contract besides its layout. -/
structure Definition where
  contract : Json
  locate : Option Locate

/-- Forgets where the members of a type are declared. -/
def forgetOrigins : Members → Members
  | .items is => .items (is.map fun i => { i with contract := .str "", src := "" })
  | members => members

/-- The declaration of a variable in one contract. -/
def declarationIn (astId : Json) : List Json → Except Failure (Option Json)
  | [] => .ok none
  | node :: rest => do
    if (← node.get "id").same astId then
      if (← node.get "nodeType").text? == some "VariableDeclaration" then return some node
    declarationIn astId rest

/-- The declaration of a variable and the contract that declares it, the remotest base first. -/
def originFrom (contract astId : Json) : List Json → Reading (Option (Json × Json))
  | [] => return none
  | id :: rest => do
    let base ← Namespaces.chainContract contract id
    let nodes ← (← base.getOr "nodes" (.arr [])).elements
    match ← declarationIn astId nodes with
    | some declaration => return some (declaration, ← Namespaces.contractName base)
    | none => originFrom contract astId rest

/-- The earlier name and the earlier type that a declaration's documentation names. -/
def annotate (declaration : Json) (item : Item) : Except Failure Item := do
  let renamed ← nodeArguments declaration "oz-renamed-from"
  let retyped ← nodeArguments declaration "oz-retyped-from"
  return { item with
    renamedFrom := renamed.head?.or item.renamedFrom
    retypedFrom := if retyped.isEmpty then item.retypedFrom else some (" ".intercalate retyped) }

/-- The last part of a qualified name. -/
def bareName (name : String) : String := ((name.splitOn ":").getLast?).getD ""

/-- Attributes a variable to the contract that declares it. -/
def attributed (definition : Option Definition) (item : Item) : Reading Item := do
  match definition with
  | none => return { item with contract := .str (bareName (item.contract.text?.getD "")) }
  | some d =>
    let ids ← (← Namespaces.chain d.contract).elements
    match ← originFrom d.contract (Json.ofOption .int item.astId) ids.reverse with
    | none => throw (.refused (.noVariableDeclaration item.label))
    | some (declaration, contract) =>
      let src ← match d.locate with
        | some locate => locate declaration
        | none => pure item.src
      annotate declaration { item with contract, src }

/-- The digits at the end of a type id, before a final line break. -/
def trailingDigits? (id : String) : Option (List Char) :=
  let reversed := id.toList.reverse
  let reversed := match reversed with
    | '\n' :: rest => rest
    | rest => rest
  match (reversed.takeWhile Text.isDecimalDigit).reverse with
  | [] => none
  | ds => some ds

/-- Reads the names of the enums of a table that has none for them. -/
def loadEnumNames (types : TypeTable) : Reading TypeTable :=
  types.mapM fun (id, entry) => do
    if beginsWith "t_enum(" id && entry.members.isNone then
      match trailingDigits? id with
      | none => throw (.refused (.unnumberedEnum id))
      | some digits =>
        if let some count := TypeId.excess? digits then throw (.unreadable count)
        let definition ← lookUp ["EnumDefinition"] (.int (TypeId.digitsNumber digits))
        return (id, { entry with members := some (← typeMembers definition) })
    else return (id, entry)

/-- The storage list of a compiler's layout. -/
def rawStorage? (raw : Json) : Option Json :=
  match raw with
  | .obj _ =>
    match raw.field "storage" with
    | .arr items => some (.arr items)
    | _ => none
  | _ => none

/-- The compiler version of a layout: a text, or nothing. -/
def readSolcVersion (v : Json) : Except Failure (Option String) :=
  match Schema.nullable Schema.text v with
  | .valid version => .ok version
  | .invalid ps => .error (.invalid (ps.map (·.under (.field "solc_version"))))

/-- Fails when a resolved type has members that are neither those of a struct nor of an enum. -/
def checkMembers (g : TypeGraph) : Except Failure Unit :=
  if g.all fun (_, t) => t.members.all (·.isSound) then .ok () else .error (.fault .notAnObject)

/-- Refuses a layout with unresolved types or overlapping variables. -/
def checkLayout (layout : Layout) : Except Failure Unit := do
  let refuse {α : Type} (x : Except Refusal α) : Except Failure α := x.mapError .refused
  let storage ← refuse layout.resolveStorage
  checkMembers storage.graph
  Placement.verify storage.vars
  let namespaces ← refuse layout.resolveNamespaces
  namespaces.forM fun (_, r) => checkMembers r.graph
  namespaces.forM fun (_, r) => Placement.verify r.vars

/-- Imports the layout of one contract. `trees` tells whether syntax trees are at hand; only then
the names of enums are read, and the contract's definition counts. -/
def layout (raw : Json) (definition : Option Definition) (trees : Bool) (solcVersion : Json) :
    Reading Layout := do
  match rawStorage? raw with
  | none => throw (.refused .notALayout)
  | some storage =>
    let base ← (Layout.load (.obj [("storage", storage),
      ("types", (raw.field "types").orElse (.obj []))]) : Except Failure Layout)
    let types := base.types.map fun (id, entry) =>
      (id, { entry with members := entry.members.map forgetOrigins })
    let definition := if trees then definition else none
    let storage ← base.storage.mapM (attributed definition)
    let types ← if trees then loadEnumNames types else pure types
    let (namespaces, types) ← match definition with
      | some d => Namespaces.load (d.locate.getD fun _ => .ok "") d.contract types
      | none => pure ([], types)
    let imported : Layout := {
      layoutVersion := some Layout.currentVersion
      solcVersion := ← (readSolcVersion solcVersion : Except Failure (Option String))
      storage, types, namespaces, flat := true }
    checkLayout imported
    return imported

/-- A compiler's input and output, and its version. -/
structure Build where
  input : Json
  output : Json
  solcVersion : Json

/-- The parts of a build document. -/
def Build.ofJson (v : Json) : Except Failure Build :=
  match v.field? "input", v.field? "output" with
  | some input, some output => .ok ⟨input, output, v.field "solcVersion"⟩
  | _, _ => .error (.refused .malformedBuildInfo)

/-- The tree of a source file, `null` when there is none. -/
def Build.tree (b : Build) (source : String) : Except Failure Json := do
  let entry ← (← b.output.getOr "sources" (.obj [])).getOr source (.obj [])
  entry.get "ast"

/-- The contract definitions of a tree by name; the last of equal names counts. -/
def definitionsIn (tree : Json) : Except Failure (List (Json × Json)) := do
  if !tree.truthy then return []
  let found ← (search ["ContractDefinition"] tree).collect fun d => do
    let name ← d.need "name"
    if name.hashable then return [(name, d)] else throw (.fault .wrongSort)
  return found.reverse

/-- The definition with a name. -/
def definitionNamed? (definitions : List (Json × Json)) (name : String) : Option Json :=
  (definitions.find? fun (k, _) => k.same (.str name)).map (·.2)

/-- Imports the layouts of all contracts of a build, by qualified name. -/
def layouts (v : Json) : Except Failure (List (String × Layout) × List Log.Record) := do
  let build ← Build.ofJson v
  let nodes ← Nodes.ofCompilation build.output
  let sources ← Sources.ofCompilation build.input build.output
  let bySource ← (← build.output.getOr "contracts" (.obj [])).entries
  let all : Reading (List (String × Layout)) := do
    let parts ← bySource.mapM fun (source, contracts) => do
      let definitions ← definitionsIn (← build.tree source)
      let found ← (← contracts.entries).filterMapM fun (name, data) => do
        match ← data.get "storageLayout" with
        | .null => return none
        | raw =>
          let definition := (definitionNamed? definitions name).map fun d =>
            (⟨d, some sources.locate⟩ : Definition)
          let l ← layout raw definition definition.isSome build.solcVersion
          return some (source ++ ":" ++ name, l)
      return found
    return parts.flatten.foldl (fun done (k, l) => putField k l done) []
  let (imported, _) ← all.run nodes
  return (imported, [Log.Occasion.layoutsImported.record
    ("Imported " ++ toString imported.length ++ " storage layout(s)") []])

end UpgradeSafety.Import
