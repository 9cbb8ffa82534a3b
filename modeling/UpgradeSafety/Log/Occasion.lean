import UpgradeSafety.Log.Record

/-!
# Occasions

An occasion is a kind of thing that is told in the log. It settles how grave the record is, which
logger tells it, and which place the structured form names.
-/

namespace UpgradeSafety.Log

/-- What the log is told of. -/
inductive Occasion where
  /-- Layouts were read from a build. -/
  | layoutsImported
  /-- A build was validated. -/
  | buildValidated
  /-- A contract has errors of a kind that is allowed. -/
  | errorsAllowed
  /-- Layouts were compared without the members of their types. -/
  | membersUnchecked
  /-- Layouts were not compared. -/
  | comparisonSkipped
  /-- An upgrade was validated. -/
  | upgradeValidated
  /-- A migration kept a layout that could not be refreshed. -/
  | layoutKept
  /-- A manifest was migrated. -/
  | manifestMigrated
  /-- A manifest got the name of its network. -/
  | manifestRenamed
  /-- A lock was not to be had in time. -/
  | lockTimedOut
  /-- A proxy was recorded. -/
  | proxyRecorded
  /-- An implementation was recorded. -/
  | implementationRecorded
  /-- A beacon was recorded. -/
  | beaconRecorded
  /-- A recorded address turned out to be without code. -/
  | codeMissing
  /-- Something was deployed. -/
  | deployed
  deriving DecidableEq, Repr

namespace Occasion

/-- How grave an occasion is. -/
def level : Occasion → Level
  | lockTimedOut => 40
  | errorsAllowed | membersUnchecked | comparisonSkipped | layoutKept | codeMissing => 30
  | layoutsImported | buildValidated | upgradeValidated | manifestMigrated | manifestRenamed
  | proxyRecorded | implementationRecorded | beaconRecorded | deployed => 20

/-- The area of the program that tells an occasion, and the part of the area. -/
def teller : Occasion → String × String
  | layoutsImported => ("storage", "importer")
  | buildValidated => ("validation", "run")
  | errorsAllowed => ("validation", "safety")
  | membersUnchecked | comparisonSkipped | upgradeValidated => ("validation", "orchestrator")
  | layoutKept | manifestMigrated => ("manifest", "migrate")
  | manifestRenamed | lockTimedOut | proxyRecorded | implementationRecorded | beaconRecorded =>
    ("manifest", "store")
  | codeMissing | deployed => ("manifest", "impl_store")

/-- The place within the teller, by its name and its line. The structured form writes both. -/
def place : Occasion → String × Int
  | layoutsImported => ("extract_layouts", 193)
  | buildValidated => ("validate_build_info", 117)
  | errorsAllowed => ("process_exceptions", 200)
  | membersUnchecked => ("compare_layouts", 168)
  | comparisonSkipped => ("validate", 138)
  | upgradeValidated => ("validate", 147)
  | layoutKept => ("_to_3_1", 59)
  | manifestMigrated => ("migrate_manifest", 108)
  | manifestRenamed => ("_write_unlocked", 259)
  | lockTimedOut => ("locked_run", 150)
  | proxyRecorded => ("add_proxy", 270)
  | implementationRecorded => ("add_deployment", 305)
  | beaconRecorded => ("add_beacon", 347)
  | codeMissing => ("run", 67)
  | deployed => ("run", 75)

/-- The record of an occasion. -/
def record (o : Occasion) (message : String) (context : Fields) : Record where
  level := o.level
  logger := "proxyguard." ++ o.teller.1 ++ "." ++ o.teller.2
  message := message
  origin := ⟨o.teller.1 ++ "/" ++ o.teller.2, o.teller.2, some o.place.1, o.place.2⟩
  context := context

end Occasion

end UpgradeSafety.Log
