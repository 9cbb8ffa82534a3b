import UpgradeSafety.Json.Display
import UpgradeSafety.Log.Occasion
import UpgradeSafety.Manifest.Records

/-!
# Migration

A manifest in an older format is brought to the current one before it is read, by one step for each
format on the way. Formats before 3.0 and formats that are not known yet are refused.

The first step refreshes the layouts of implementations, if someone knows newer ones.
-/

namespace UpgradeSafety.Manifest

/-- A format of manifests. -/
structure Version where
  major : Int
  minor : Int
  deriving DecidableEq, Repr

namespace Version

/-- Whether a format is older than another one. -/
def before (a b : Version) : Bool := a.major < b.major || (a.major == b.major && a.minor < b.minor)

/-- Reads a format: two integers with a point between them. -/
def ofText (s : String) : Except Refusal Version :=
  match s.splitOn "." with
  | [major, minor] =>
    match Numeral.readInteger .ten major, Numeral.readInteger .ten minor with
    | .ok major, .ok minor => .ok ⟨major, minor⟩
    | _, _ => .error (.malformedVersion (Text.quote s))
  | _ => .error (.malformedVersion (Text.quote s))

/-- Reads the format of a manifest. -/
def ofJson : Json → Except Refusal Version
  | .str s => ofText s
  | _ => .error .unversioned

/-- The format that is written. -/
def current : Version := ⟨3, 3⟩

/-- The oldest format that can be migrated. -/
def oldest : Version := ⟨3, 0⟩

/-- A format as it is written. -/
def text (v : Version) : String := toString v.major ++ "." ++ toString v.minor

end Version

/-- Gives the newer layout of an implementation by its version, if there is one. -/
abbrev Updater := String → Fields → Option Json

/-- A question for a newer layout, with the answer. -/
structure Refresh where
  version : String
  layout : Fields
  answer : Option Json

/-- Migrating: every question for a layout is kept, in order. -/
abbrev Migrating := ExceptT Refusal (StateM (List Refresh))

/-- Asks for a newer layout. -/
def askLayout (update : Updater) (version : String) (layout : Fields) :
    Migrating (Option Json) := do
  let answer := update version layout
  modify (· ++ [⟨version, layout, answer⟩])
  return answer

/-- Refreshes the layout of an implementation. Without an object as layout nothing changes. -/
def refreshImplementation (update : Updater) (version : String) (impl : Json) : Migrating Json := do
  match impl with
  | .obj fields =>
    match impl.field "layout" with
    | .obj layout =>
      match ← askLayout update version layout with
      | some fresh => return .obj (putField "layout" fresh fields)
      | none => return impl
    | _ => return impl
  | _ => throw (.implNotRecord version)

/-- From 3.0: layouts are refreshed. -/
def refreshLayouts (update : Option Updater) (data : Fields) : Migrating Fields := do
  match update with
  | none => return data
  | some update =>
    match (data.lookup "impls").getD (.obj []) with
    | .obj impls =>
      let fresh ← impls.mapM fun (version, impl) => do
        return (version, ← refreshImplementation update version impl)
      return if (data.lookup "impls").isSome then putField "impls" (.obj fresh) data else data
    | _ => throw .implsNotTable

/-- Sets a field that is absent. -/
def putMissing (key : String) (value : Json) (data : Fields) : Fields :=
  if (data.lookup key).isSome then data else data ++ [(key, value)]

/-- From 3.1: there is a list of proxies. -/
def addProxyList (data : Fields) : Fields := putMissing "proxies" (.arr []) data

/-- From 3.2: there is a table of beacons, and an admin is a record. -/
def addBeaconTable (data : Fields) : Fields :=
  let data := putMissing "beacons" (.obj []) data
  match data.lookup "admin" with
  | some (.str address) => putField "admin" (.obj [("address", .str address)]) data
  | _ => data

/-- A step from one format to the next. -/
inductive MigrationStep where
  | refresh
  | proxies
  | beacons
  deriving DecidableEq, Repr

namespace MigrationStep

/-- All steps in order. -/
def all : List MigrationStep := [refresh, proxies, beacons]

/-- The format that a step starts from. -/
def start : MigrationStep → Version
  | refresh => ⟨3, 0⟩
  | proxies => ⟨3, 1⟩
  | beacons => ⟨3, 2⟩

/-- The format that a step leads to. -/
def stop : MigrationStep → Version
  | refresh => ⟨3, 1⟩
  | proxies => ⟨3, 2⟩
  | beacons => ⟨3, 3⟩

/-- What a step changes. -/
def change (step : MigrationStep) (update : Option Updater) (data : Fields) : Migrating Fields :=
  match step with
  | refresh => refreshLayouts update data
  | proxies => return addProxyList data
  | beacons => return addBeaconTable data

/-- Makes a step. -/
def run (step : MigrationStep) (update : Option Updater) (data : Fields) : Migrating Fields := do
  return putField "manifestVersion" (.str step.stop.text) (← step.change update data)

end MigrationStep

/-- A manifest in the current format, with the steps that were made. -/
structure Migrated where
  data : Fields
  steps : List MigrationStep

/-- Whether a manifest was in an older format. -/
def Migrated.changed (m : Migrated) : Bool := !m.steps.isEmpty

/-- The steps from a format on. -/
def stepsFrom (version : Version) : List MigrationStep :=
  MigrationStep.all.filter fun step => !step.start.before version

/-- Brings a manifest to the current format. -/
def migrate (update : Option Updater) (data : Fields) : Migrating Migrated := do
  let written := (data.lookup "manifestVersion").getD .null
  let version ← liftM (Version.ofJson written)
  if version.before .oldest then throw (.versionTooOld written.display)
  else if Version.current.before version then
    throw (.versionTooNew written.display currentVersion)
  else
    let steps := stepsFrom version
    return ⟨← steps.foldlM (fun data step => step.run update data) data, steps⟩

/-- The warning for a layout that nobody knew better. -/
def Refresh.warning? (r : Refresh) : Option Log.Record :=
  match r.answer with
  | some _ => none
  | none => some (Log.Occasion.layoutKept.record
      ("Could not refresh storage layout of implementation " ++ r.version) [])

/-- What is told of a step. -/
def MigrationStep.note (step : MigrationStep) : Log.Record :=
  Log.Occasion.manifestMigrated.record
    ("Migrated manifest from " ++ step.start.text ++ " to " ++ step.stop.text) []

/-- Migrates a manifest, and what is told on the way: first of the layouts, then of the steps that
were made. -/
def migration (update : Option Updater) (data : Fields) :
    Except Refusal Migrated × List Refresh × List Log.Record :=
  let (result, refreshes) := (migrate update data).run.run []
  let notes := match result with
    | .ok m => m.steps.map MigrationStep.note
    | .error _ => []
  (result, refreshes, refreshes.filterMap Refresh.warning? ++ notes)

end UpgradeSafety.Manifest
