import UpgradeSafety.Manifest.Store
import UpgradeSafety.Report.Basic
import UpgradeSafety.Validation.Catalog

/-!
# Validating upgrades

A new implementation is safe if its source has no unsafe pattern that the caller does not allow, and
its storage layout is compatible with that of the version it replaces. The earlier version is given
as a layout, as the name of a contract, or as the address of a recorded implementation.
-/

namespace UpgradeSafety

/-- Whether a text is an address: forty hexadecimal digits behind their mark. A line break may
follow. -/
def isAddress (s : String) : Bool :=
  match s.toList with
  | '0' :: 'x' :: body =>
    let digits := if body.getLast? == some '\n' then body.dropLast else body
    digits.length == 40 && digits.all fun c => (Text.hexNibble? c).isSome
  | _ => false

/-- The version that an upgrade starts from. -/
inductive Reference where
  | layout (l : Layout)
  /-- The name of a contract or an address. -/
  | named (s : String)
  /-- A reference that is given without a word, and leads nowhere. -/
  | wordless

/-- What is needed to validate upgrades. -/
structure Validator where
  catalog : Catalog
  manifest : Option Manifest.Store := none
  /-- The implementation behind a proxy, by its address. -/
  implementationOf : Option (String → String) := none

/-- The outcome of a validation. -/
structure UpgradeReport where
  contract : String
  reference : Option String := none
  errors : List SafetyError := []
  storage : Option Report := none
  storageSkipped : Bool := false

namespace UpgradeReport

/-- Whether an upgrade is safe. -/
def ok (r : UpgradeReport) : Bool := r.errors.isEmpty && r.storage.all (·.ok)

/-- The refusal for the errors of a source. -/
def refusal (r : UpgradeReport) : Except Failure Refusal := do
  return .unsafeContract r.contract (← r.errors.mapM (·.describe))

/-- The explanation of everything that makes an upgrade unsafe. -/
def explain (r : UpgradeReport) (color : Bool) : Except Failure String := do
  let source ← if r.errors.isEmpty then pure [] else do pure [(← r.refusal).text]
  let storage ← match r.storage with
    | some s =>
      if s.ok then pure []
      else do pure ["New storage layout is incompatible\n\n" ++ (← s.explain color)]
    | none => pure []
  return "\n\n".intercalate (source ++ storage)

/-- A report as JSON. -/
def toJson (r : UpgradeReport) : Except Failure Json := do
  return .obj [("contract", .str r.contract), ("reference", Json.ofOption .str r.reference),
    ("ok", .bool r.ok), ("errors", .arr (r.errors.map SafetyError.toJson)),
    ("storage", Json.ofOption id (← r.storage.mapM Report.toJson)),
    ("storageSkipped", .bool r.storageSkipped)]

end UpgradeReport

/-- The warning that types were accepted without their members. -/
def uncheckedTypesWarning : Log.Record :=
  Log.Occasion.membersUnchecked.record
    ("Storage layout check skipped custom types without member information " ++
      "(unsafe_allow_custom_types); verify struct and enum layouts manually") []

/-- Compares two layouts under a caller's options. -/
def storageReport (options : ValidationOptions) (former updated : Layout) :
    Except Failure (Report × List Log.Record) := do
  let outcome ← Compare.layouts options.expand.leniency former updated
  return (⟨outcome.operations⟩,
    if outcome.uncheckedCustomTypes then [uncheckedTypesWarning] else [])

namespace Validator

variable {σ : Type}

/-- The layout that is recorded for an address, or for the implementation behind it. -/
def layoutAt (v : Validator) (address : String) : Act σ Layout := do
  match v.manifest with
  | none => Act.refuse (.noManifest address)
  | some store =>
    tryCatch (do return (← store.deploymentAt address).layout) fun e =>
      match e, v.implementationOf with
      | .refused (.unknownImplementation _), some resolve => do
        return (← store.deploymentAt (resolve address)).layout
      | e, _ => throw e

/-- The version that an upgrade starts from: what it is called, and its layout. -/
def resolve (v : Validator) : Reference → Act σ (String × Layout)
  | .layout l => return ("reference layout", l)
  | .named s =>
    if isAddress s then do return (s, ← v.layoutAt s)
    else Act.ofResult do
      let e ← (v.catalog.contractNamed s).mapError .refused
      return (e.key, ← e.layout.mapError .refused)
  | .wordless => throw (.fault .wrongSort)

/-- The warning that the layouts are not compared. -/
def skipWarning (key : String) : Log.Record :=
  Log.Occasion.comparisonSkipped.record
    ("Skipping storage layout check for " ++ key ++ ": layout changes are not validated")
    [("contract", .str key)]

/-- What is told of a validation. -/
def doneNote (r : UpgradeReport) : Log.Record :=
  Log.Occasion.upgradeValidated.record
    ("Validated " ++ r.contract ++ ": " ++ (if r.ok then "ok" else "unsafe"))
    [("contract", .str r.contract), ("duration_ms", .float 0)]

/-- Compares the layout of a contract with that of the version it replaces. -/
def checkStorage (v : Validator) (options : ValidationOptions) (e : CatalogEntry)
    (reference : Reference) (report : UpgradeReport) : Act σ UpgradeReport := do
  let (name, former) ← v.resolve reference
  let report := { report with reference := some name }
  if options.skipStorageCheck then
    Act.tell [skipWarning e.key]
    return { report with storageSkipped := true }
  else
    let updated ← Act.ofResult (e.layout.mapError .refused)
    let (storage, notes) ← Act.ofResult (storageReport options former updated)
    Act.tell notes
    return { report with storage := some storage }

/-- Validates the upgrade from a reference, or a first deployment without one. -/
def validate (v : Validator) (contract : String) (reference : Option Reference)
    (options : ValidationOptions) : Act σ UpgradeReport := do
  let options := options.expand
  let e ← Act.ofResult ((v.catalog.contractNamed contract).mapError .refused)
  let (errors, warnings) := Safety.dropAllowed e.key (e.errors options.kind) options
  Act.tell warnings
  let report : UpgradeReport := { contract := e.key, errors }
  let report ← match reference with
    | some r => v.checkStorage options e r report
    | none => pure report
  Act.tell [doneNote report]
  return report

/-- Validates an upgrade and refuses an unsafe one: for the errors of its source first, and then for
its layout. A refusal that cannot be told fails as telling it does. -/
def assertSafe (v : Validator) (contract : String) (reference : Option Reference)
    (options : ValidationOptions) : Act σ UpgradeReport := do
  let report ← v.validate contract reference options
  if !report.errors.isEmpty then Act.refuse (← Act.ofResult report.refusal)
  match report.storage with
  | some s =>
    if s.ok then return report
    else Act.refuse (.incompatibleLayout (← Act.ofResult (s.explain false)))
  | none => return report

end Validator

end UpgradeSafety
