import UpgradeSafety.Bytecode
import UpgradeSafety.Import
import UpgradeSafety.Safety.Checks

/-!
# Validation runs

A run holds what is known about every contract of one build: the version of its bytecode, its
layout, the contracts that it inherits from, the libraries that it uses, its public methods and its
safety errors. Contracts are known by their qualified names, the source file and the name with a
colon between them.
-/

namespace UpgradeSafety

open Syntax

/-- What is known about a contract. -/
structure ContractRecord where
  name : String
  src : String
  version : Option Bytecode.Version := none
  layout : Option Layout := none
  /-- The contracts that it inherits from, the nearest first. -/
  bases : List String := []
  libraries : List String := []
  methods : List String := []
  errors : List SafetyError := []
  solcVersion : Json := .null

/-- What is known about the contracts of a build, by qualified name. -/
abbrev ValidationRun := List (String × ContractRecord)

namespace ValidationRun

/-- The ids of the libraries that a contract's tree refers to by `using` and by name, each once. -/
def libraryIds (contract : Json) : Except Failure (List Json) := do
  let byUsing ← (search ["UsingForDirective"] contract).collect fun directive => do
    match ← directive.get "libraryName" with
    | .null => return []
    | library =>
      match ← library.get "referencedDeclaration" with
      | .null => return []
      | id => return [id]
  let byName ← (search ["Identifier"] contract).collect fun identifier => do
    let description := (← identifier.get "typeDescriptions").orElse (.obj [])
    match (← description.get "typeString").orElse (.str "") with
    | .str type =>
      let id ← identifier.get "referencedDeclaration"
      return if beginsWith "type(library" type && !id.same .null then [id] else []
    | _ => throw (.fault .notAnObject)
  let ids := byUsing ++ byName
  if ids.all Json.hashable then
    return ids.foldl (fun seen id => if seen.any id.same then seen else seen ++ [id]) []
  else throw (.fault .wrongSort)

/-- The contracts that a contract inherits from, without itself. -/
def baseIds (contract : Json) : Except Failure (List Json) := do
  match ← contract.getOr "linearizedBaseContracts" (.arr []) with
  | .arr ids => return ids.drop 1
  | .str s => return (s.toList.drop 1).map fun c => .str (String.singleton c)
  | _ => throw (.fault .wrongSort)

/-- The bytecode record of a compiled contract. -/
def bytecodeOf (data : Json) : Except Failure Json := do
  return (← ((← data.get "evm").orElse (.obj [])).get "bytecode").orElse (.obj [])

/-- A contract of which only the compiled form is known. -/
def compiled (build : Import.Build) (name : String) (data : Json) :
    Except Failure ContractRecord := do
  let code ← (← bytecodeOf data).getOr "object" (.str "")
  let version ← match code with
    | .str s => if s.isEmpty then pure none else some <$> Bytecode.version s
    | v => if v.truthy then throw (.fault .notAnObject) else pure none
  return { name, src := name, version, solcVersion := build.solcVersion }

/-- The references of the contracts of a build to others by id, to be resolved when all contracts
are known. -/
structure References where
  /-- Qualified names by id, the latest first. -/
  names : List (Json × String) := []
  bases : List (String × List Json) := []
  libraries : List (String × List Json) := []

/-- A run in the making. -/
structure Progress where
  run : ValidationRun := []
  references : References := {}

/-- Completes what is known about a contract from its tree. -/
def complete (build : Import.Build) (locate : Locate) (definition data : Json)
    (record : ContractRecord) : Reading ContractRecord := do
  let bytecode ← bytecodeOf data
  let src ← locate definition
  let errors ← Safety.contractErrors definition bytecode locate
  let methods ← Safety.publicMethods definition
  let record := { record with src, errors, methods }
  match ← data.get "storageLayout" with
  | .null => return record
  | raw =>
    let layout ← Import.layout raw (some ⟨definition, some locate⟩) true build.solcVersion
    return { record with layout := some layout }

/-- Takes up the definition of a contract in a source file. -/
def takeDefinition (build : Import.Build) (locate : Locate) (source : String) (contracts : Json)
    (p : Progress) (definition : Json) : Reading Progress := do
  let name ← definition.need "name"
  let key := source ++ ":" ++ name.display
  let id ← definition.need "id"
  if !id.hashable || !name.hashable then throw (.fault .wrongSort)
  let p := { p with references.names := (id, key) :: p.references.names }
  let data ← match name with
    | .str s => contracts.get s
    | _ => pure .null
  match data, p.run.lookup key with
  | .null, _ | _, none => return p
  | data, some record =>
    let bases ← baseIds definition
    let libraries ← libraryIds definition
    let record ← complete build locate definition data record
    return { run := putField key record p.run
             references := {
              p.references with
              bases := putField key bases p.references.bases
              libraries := putField key libraries p.references.libraries } }

/-- Takes up the definitions in a tree, and then fails if the search for them did. -/
def takeDefinitions (build : Import.Build) (locate : Locate) (source : String) (contracts : Json)
    (p : Progress) (tree : Json) : Reading Progress := do
  let found := search ["ContractDefinition"] tree
  let p ← found.nodes.foldlM (takeDefinition build locate source contracts) p
  match found.stop with
  | some e => throw e
  | none => return p

/-- Takes up a source file with its compiled contracts. -/
def takeSource (build : Import.Build) (locate : Locate) (p : Progress) (source : String)
    (contracts : Json) : Reading Progress := do
  let entries ← (contracts.entries : Except Failure Fields)
  let run ← entries.foldlM (fun run (name, data) => do
    return putField (source ++ ":" ++ name) (← compiled build name data) run) p.run
  match ← build.tree source with
  | .null => return { p with run }
  | tree => takeDefinitions build locate source contracts { p with run } tree

/-- The qualified names of ids; unknown ids are left out. -/
def resolveIds (names : List (Json × String)) (ids : List Json) : Except Failure (List String) :=
  ids.filterMapM fun id =>
    if id.hashable then return (names.find? fun (known, _) => known.same id).map (·.2)
    else throw (.fault .wrongSort)

/-- Replaces the references of contracts by names. -/
def resolveAll (names : List (Json × String))
    (set : List String → ContractRecord → ContractRecord)
    (references : List (String × List Json)) (run : ValidationRun) :
    Except Failure ValidationRun :=
  references.foldlM (fun run (key, ids) => do
    let found ← resolveIds names ids
    return run.map fun (k, record) => (k, if k == key then set found record else record)) run

/-- What is told of a run. -/
def note (build : Import.Build) (run : ValidationRun) : Log.Record :=
  Log.Occasion.buildValidated.record
    ("Validated " ++ toString run.length ++ " contract(s) from solc " ++
      (build.solcVersion.orElse (.str "unknown")).display) []

/-- Validates every contract of a build. -/
def ofBuild (v : Json) : Except Failure (ValidationRun × List Log.Record) := do
  let build ← Import.Build.ofJson v
  let nodes ← Nodes.ofCompilation build.output
  let sources ← Sources.ofCompilation build.input build.output
  let bySource ← (← build.output.getOr "contracts" (.obj [])).entries
  let all : Reading Progress :=
    bySource.foldlM
      (fun p (source, contracts) => takeSource build sources.locate p source contracts) {}
  let (p, _) ← all.run nodes
  let names := p.references.names
  let run ← resolveAll names (fun found r => { r with bases := found }) p.references.bases p.run
  let run ← resolveAll names (fun found r => { r with libraries := found })
    p.references.libraries run
  return (run, [note build run])

end ValidationRun

end UpgradeSafety
