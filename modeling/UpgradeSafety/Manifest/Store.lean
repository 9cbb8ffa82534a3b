import UpgradeSafety.Json.Access
import UpgradeSafety.Json.Printer
import UpgradeSafety.Manifest.Migration
import UpgradeSafety.Manifest.Network
import UpgradeSafety.Workspace

/-!
# Manifest files

The records of a network are kept in a file. A *run* takes the lock of the file, reads the records,
changes them, and writes them back if anything changed. Runs inside a run share its records and
leave the writing to it. A run that fails writes nothing.

A file may still have the numbered name of its network; it is renamed by the first run. The records
of a development chain are kept in a file of their own; a fork starts with the records of the
network that it forks.
-/

namespace UpgradeSafety.Manifest

open Files

/-! ## Where records are kept -/

/-- Where the records of a network are kept. -/
structure Site where
  chainId : Int
  folder : Path

/-- The file of a network. -/
def Site.file (s : Site) : Path := s.folder.child (networkName s.chainId ++ ".json")

/-- The file of a network under its numbered name. -/
def Site.numberedFile (s : Site) : Path := s.folder.child (numberedName s.chainId ++ ".json")

/-- The file that holds the records of a network, if there is one. -/
def Site.currentFile? (s : Site) (t : Tree) : Except Failure (Option Path) :=
  if s.numberedFile != s.file && t.has s.numberedFile then
    if t.has s.file then
      .error (.refused (.twoManifests s.numberedFile.text s.file.text s.chainId))
    else .ok (some s.numberedFile)
  else .ok (if t.has s.file then some s.file else none)

/-- A development chain. -/
structure Instance where
  id : String
  forkedChainId : Option Int := none
  /-- The folder for the records of all development chains. -/
  folder : Path

/-- A store of records: its network, and the development chain if it is one. Stores of different
sessions share no runs, even when they have the same file. -/
structure Store where
  session : Nat := 0
  site : Site
  development : Option Instance := none
  lockTimeout : Float
  updater : Option Updater := none

namespace Store

/-- The name of a store's network. -/
def network (s : Store) : String := networkName s.site.chainId

/-- The chain and the development instance in a file name. -/
def instanceName (s : Store) (i : Instance) : String := toString s.site.chainId ++ "-" ++ i.id

/-- The file of a development chain. -/
def developmentFile? (s : Store) : Option Path :=
  s.development.map fun i => i.folder.join ("dev-" ++ s.instanceName i ++ ".json")

/-- The file that a store writes. -/
def file (s : Store) : Path := s.developmentFile?.getD s.site.file

/-- The lock of a store. -/
def lockFile (s : Store) : Path :=
  match s.development with
  | some i => i.folder.join ("chain-" ++ s.instanceName i ++ ".lock")
  | none => s.site.folder.child ("chain-" ++ toString s.site.chainId ++ ".lock")

/-- Where the records of the network that a store forks are kept. -/
def parent? (s : Store) : Option Site :=
  (s.development.bind (·.forkedChainId)).map fun chainId => { s.site with chainId }

/-- The file that holds the records of a store, if there is one. -/
def currentFile? (s : Store) (t : Tree) : Except Failure (Option Path) :=
  match s.developmentFile? with
  | none => s.site.currentFile? t
  | some file =>
    if t.has file then .ok (some file)
    else match s.parent? with
      | some site => site.currentFile? t
      | none => .ok none

/-- The context of a store in the log. -/
def context (s : Store) : Fields :=
  [("network", .str s.network), ("manifest_file", .str s.file.text)]

/-- Something that a store tells. -/
def note (s : Store) (occasion : Log.Occasion) (message : String) : Log.Record :=
  occasion.record message s.context

/-! ## Reading and writing files -/

variable {σ α : Type}

/-- The records in a raw manifest, and whether it was migrated. -/
def interpret (s : Store) (file : Path) (raw : Json) : Act σ (Records × Bool) := do
  match raw with
  | .obj data =>
    let (migrated, _, notes) := migration s.updater data
    Act.tell notes
    match migrated with
    | .error e => Act.refuse (.manifestCorrupted file.text e.text)
    | .ok m =>
      match Records.ofJson (.obj m.data) with
      | .valid records => return (records, m.changed)
      | .invalid problems => Act.refuse (.manifestMalformed file.text problems)
  | _ => Act.refuse (.manifestCorrupted file.text "Top-level value is not an object")

/-- Reads the records of a store, and whether they have to be written because they were migrated, or
come from a file that is not the one that the store writes. -/
def load (s : Store) : Act σ (Records × Bool) := do
  let files := (← get).files
  match ← Act.ofResult (s.currentFile? files) with
  | none => return ({}, false)
  | some file =>
    match ← Act.ofResult (files.readJson file) with
    | .error e => Act.refuse (.manifestCorrupted file.text ("Invalid JSON: " ++ e.complaint))
    | .ok raw =>
      let (records, migrated) ← s.interpret file raw
      return (records, migrated || file != s.file)

/-- The text of a manifest, if its integers can be written. -/
def fileText (records : Records) : Except Failure String := do
  return (← records.toJson.writable).writeIndented 0 ++ "\n"

/-- Writes the records of a store. A file under the numbered name is removed. -/
def save (s : Store) (records : Records) : Act σ Unit := do
  Act.onFiles (·.makeFolder s.file.parent)
  let text ← Act.ofResult (fileText records)
  Act.replaceFile s.file (Text.utf8Bytes text)
  let numbered := s.site.numberedFile
  if s.development.isNone && numbered != s.site.file && (← get).files.has numbered then
    Act.onFiles (·.remove numbered)
    Act.tell [s.note .manifestRenamed
      ("Renamed " ++ numbered.text ++ " to " ++ s.site.file.text)]

/-! ## Runs -/

/-- The draft of a session with a run in progress. -/
def draft? (session : Nat) : Act σ (Option Draft) := return (← get).drafts.lookup session

/-- Changes the draft of a session. -/
def onDraft (session : Nat) (f : Draft → Draft) : Act σ Unit := modify fun w =>
  { w with drafts := w.drafts.map fun (k, d) => (k, if k = session then f d else d) }

/-- The records in hand that a caller was given; none outside a run. -/
def handed (h : Handle) : Act σ Records := do
  return (((← draft? h.session).bind fun d => d.sets[h.index]?)).getD {}

/-- Changes the records in hand that a caller was given. -/
def change (h : Handle) (f : Records → Records) : Act σ Unit :=
  onDraft h.session fun d => { d with sets := d.sets.modify h.index f }

/-- A handle on the records in hand that count now. -/
def currentHandle? (s : Store) : Act σ (Option Handle) :=
  return (← draft? s.session).map fun d => ⟨s.session, d.current⟩

/-- The records in hand that count now; none outside a run. -/
def current (s : Store) : Act σ Records := do
  match ← s.currentHandle? with
  | some h => handed h
  | none => return {}

/-- Takes the lock of a store, which nobody else may hold. -/
def acquire (s : Store) : Act σ Unit := do
  Act.onFiles (·.makeFolder s.lockFile.parent)
  let w ← get
  if w.locks.contains s.lockFile then
    Act.tell [s.note .lockTimedOut "Manifest lock timed out"]
    Act.refuse (.lockTimeout s.lockFile.text s.lockTimeout)
  else if w.files.isFolder s.lockFile then throw (.fault .isDirectory)
  else set { w with locks := s.lockFile :: w.locks }

/-- Reads the records, lets `body` work on them, and writes them if anything changed. Records that
cannot be written are told neither before the run nor after it. -/
def runOnFile (s : Store) (body : Handle → Act σ α) : Act σ α := do
  let (records, stale) ← s.load
  let before ← Act.ofResult records.encode
  modify fun w => { w with drafts := (s.session, ⟨[records], 0⟩) :: w.drafts }
  let result ← body ⟨s.session, 0⟩
  let final ← s.current
  let after ← Act.ofResult final.encode
  if stale || !after.same before then s.save final
  return result

/-- Lets `body` work on the records of a store under its lock. It is given a handle on the records
in hand. -/
def withRecords (s : Store) (body : Handle → Act σ α) : Act σ α := do
  match ← s.currentHandle? with
  | some h => body h
  | none =>
    s.acquire
    (s.runOnFile body).andThenAlways fun w =>
      { w with
        drafts := w.drafts.filter fun (k, _) => k != s.session
        locks := w.locks.erase s.lockFile }

/-- The records of a store: those in hand, or what the file holds. -/
def read (s : Store) : Act σ Records := do
  match ← s.currentHandle? with
  | some h => handed h
  | none => return (← s.load).1

/-- Makes new records the current ones of the run in progress. -/
def replaceCurrent (s : Store) (records : Records) : Act σ Unit :=
  onDraft s.session fun d => ⟨d.sets ++ [records], d.sets.length⟩

/-- Replaces the records of a store. -/
def write (s : Store) (records : Records) : Act σ Unit :=
  s.withRecords fun _ => s.replaceCurrent records

/-! ## Records -/

/-- Changes the records of a store. -/
def update (s : Store) (f : Records → Records) : Act σ Unit := s.withRecords fun h => change h f

/-- Looks something up in the records of a store. -/
def find (s : Store) (lookup : Records → Option α) (missing : Refusal) : Act σ α :=
  s.withRecords fun h => do
    match lookup (← handed h) with
    | some a => return a
    | none => Act.refuse missing

/-- Records a proxy. -/
def addProxy (s : Store) (proxy : Proxy) : Act σ Unit := do
  s.update (·.addProxy proxy)
  Act.tell [s.note .proxyRecorded
    ("Recorded " ++ proxy.kind.name ++ " proxy at " ++ proxy.address)]

/-- Removes the proxies at an address. -/
def removeProxy (s : Store) (address : String) : Act σ Unit := s.update (·.removeProxy address)

/-- The proxy at an address. -/
def proxyAt (s : Store) (address : String) : Act σ Proxy :=
  s.find (·.proxyAt? address) (.unknownProxy address)

/-- Records an implementation under its version. -/
def addDeployment (s : Store) (version : String) (i : Implementation) : Act σ Unit := do
  s.update (·.addDeployment version i)
  Act.tell [s.note .implementationRecorded
    ("Recorded implementation " ++ version ++ " at " ++ i.address)]

/-- The implementation of a version. -/
def deployment (s : Store) (version : String) : Act σ Implementation :=
  s.find (·.deployment? version) (.unknownVersion version)

/-- The implementation at an address. -/
def deploymentAt (s : Store) (address : String) : Act σ Implementation :=
  s.find (·.deploymentAt? address) (.unknownImplementation address)

/-- The admin of proxies. -/
def admin (s : Store) : Act σ Admin := s.find (·.admin) (.noAdmin s.network)

/-- Sets or clears the admin. -/
def setAdmin (s : Store) (admin : Option Admin) : Act σ Unit := s.update (·.setAdmin admin)

/-- Records a beacon. -/
def addBeacon (s : Store) (beacon : Beacon) : Act σ Unit := do
  s.update (·.addBeacon beacon)
  Act.tell [s.note .beaconRecorded ("Recorded beacon at " ++ beacon.address)]

/-- The beacon at an address. -/
def beaconAt (s : Store) (address : String) : Act σ Beacon :=
  s.find (·.beaconAt? address) (.unknownBeacon address)

end Store

end UpgradeSafety.Manifest
