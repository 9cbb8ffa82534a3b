import UpgradeSafety.Options
import UpgradeSafety.Validation.Run
import UpgradeSafety.Workspace

/-!
# Catalogs of contracts

A catalog holds validation runs in the order in which they were added. Later runs win over earlier
ones. Contracts are looked up by qualified name, by bare name, or by version.
-/

namespace UpgradeSafety

/-- Validation runs, the earliest first. -/
structure Catalog where
  runs : List ValidationRun := []

/-- A contract that was found: the number of its run, the run, its qualified name and what is known
about it. -/
structure CatalogEntry where
  index : Nat
  run : ValidationRun
  key : String
  record : ContractRecord

namespace Catalog

/-- The runs with their numbers, the latest first. -/
def latestFirst (c : Catalog) : List (Nat × ValidationRun) :=
  (c.runs.zipIdx.map fun (run, i) => (i, run)).reverse

/-- The contracts of a run with a bare name. -/
def withBareName (name : String) (run : ValidationRun) : ValidationRun :=
  run.filter fun (key, _) => Import.bareName key == name

/-- The contract with a bare name. In no run two contracts may have it. -/
def findBare (name : String) : List (Nat × ValidationRun) → Except Refusal (Option CatalogEntry)
  | [] => .ok none
  | (i, run) :: rest =>
    match withBareName name run with
    | [] => findBare name rest
    | [(key, record)] => do
      let _ ← findBare name rest
      return some ⟨i, run, key, record⟩
    | found => .error (.ambiguousContract name (found.map (·.1)))

/-- The contract with a qualified name. -/
def findQualified (name : String) (runs : List (Nat × ValidationRun)) : Option CatalogEntry :=
  runs.findSome? fun (i, run) => (run.lookup name).map fun record => ⟨i, run, name, record⟩

/-- The contract with a name. A name with a colon is a qualified one. -/
def contractNamed (c : Catalog) (name : String) : Except Refusal CatalogEntry := do
  let found ← if name.toList.contains ':' then pure (findQualified name c.latestFirst)
    else findBare name c.latestFirst
  match found with
  | some entry => return entry
  | none => throw (.contractNotFound name)

/-- The contract whose complete bytecode has a hash. -/
def findVersion (c : Catalog) (version : String) : Except Refusal CatalogEntry :=
  let found := c.latestFirst.findSome? fun (i, run) =>
    (run.find? fun (_, r) => r.version.any (·.complete == version)).map fun (key, r) =>
      (⟨i, run, key, r⟩ : CatalogEntry)
  match found with
  | some entry => .ok entry
  | none => .error .versionNotFound

/-- The layout of the contract whose bytecode without metadata has a hash. -/
def layoutOfVersion? (c : Catalog) (version : String) : Option Layout :=
  c.latestFirst.findSome? fun (_, run) =>
    run.findSome? fun (_, r) =>
      match r.version, r.layout with
      | some v, some layout =>
        if v.bare == version || v.linkedBare == version then some layout
        else none
      | _, _ => none

/-- Gives the layouts of a catalog to a migration. -/
def updater (c : Catalog) : String → Fields → Option Json :=
  fun version _ => (c.layoutOfVersion? version).map Layout.toJson

end Catalog

namespace CatalogEntry

/-- The methods by which a proxy that upgrades itself is upgraded. -/
def upgradeMethods : List String := ["upgradeTo(address)", "upgradeToAndCall(address,bytes)"]

/-- What is known about some contracts of the run; unknown names are left out. -/
def known (e : CatalogEntry) (names : List String) : List ContractRecord :=
  names.filterMap fun name => e.run.lookup name

/-- The errors of a contract, of its bases and of the libraries that it uses. A contract behind a
proxy that upgrades itself also needs a method for that, its own or inherited. -/
def errors (e : CatalogEntry) (kind : Option ProxyKind) : List SafetyError :=
  let used := e.known (e.record.bases ++ e.record.libraries)
  let methods := e.record.methods ++ (e.known e.record.bases).flatMap (·.methods)
  let missing : List SafetyError :=
    if kind == some .uups && !upgradeMethods.any methods.contains then
      [{ kind := .missingUpgradeTo, src := .str e.record.src }]
    else []
  e.record.errors ++ used.flatMap (·.errors) ++ missing

/-- The layout of a contract. -/
def layout (e : CatalogEntry) : Except Refusal Layout :=
  match e.record.layout with
  | some l => .ok l
  | none => .error (.layoutUnavailable e.key)

end CatalogEntry

/-! ## Build files -/

namespace Catalog

/-- Validates the build in a file. -/
def readBuild (t : Files.Tree) (p : Files.Path) :
    Except Failure (ValidationRun × List Log.Record) := do
  match ← t.readJson p with
  | .error (.form complaint) => throw (.refused (.buildInfoSyntax p.text complaint))
  | .error (.bytes _) => throw (.fault .undecodable)
  | .ok v => ValidationRun.ofBuild v

/-- The build files in folders. What is no folder holds none. -/
def buildFiles (t : Files.Tree) (folders : List String) : List Files.Path :=
  folders.flatMap fun folder =>
    let p := Files.Path.ofText folder
    if t.isFolder p then t.listEnding p ".json" else []

/-- The runs of the build files in folders, of which there has to be one. -/
def load {σ : Type} (folders : List String) : Act σ Catalog := do
  let files := (← get).files
  match buildFiles files folders with
  | [] => Act.refuse .noBuildInfo
  | paths =>
    let runs ← paths.mapM fun p => do
      let (run, notes) ← Act.ofResult (readBuild files p)
      Act.tell notes
      return run
    return ⟨runs⟩

end Catalog

end UpgradeSafety
