import Std.Time.Format
import UpgradeSafety.CommandLine.Run

/-!
# The program

Reads the environment and the files that a request may need, runs the request, and writes back the
files that it changed.
-/

namespace UpgradeSafety.CommandLine

open Files

/-- The variables of the environment that count. -/
def settingVariables : List String :=
  ["APP_ENV", "LOG_LEVEL", "MANIFEST_DIR", "DEV_TMP_DIR", "LOCK_TIMEOUT_SECONDS",
    "LOCK_POLL_INTERVAL", "STRICT_RENAMES", "UNSAFE_ALLOW_CUSTOM_TYPES", "BUILD_INFO_DIRS"].map
    ("PROXYGUARD_" ++ ·)

/-- The environment. Development chains are kept in the folder for temporary files. -/
def readEnvironment : IO Settings.Environment := do
  let temporary := (← IO.getEnv "TMPDIR").getD "/tmp"
  let known ← settingVariables.filterMapM fun name => do
    return (← IO.getEnv name).map fun value => (name, value)
  return ("PROXYGUARD_DEV_TMP_DIR", temporary) :: known

/-- The time of day and the moment, in coordinated universal time. -/
def readClock : IO Log.Clock := do
  let now := Std.Time.DateTime.ofTimestampWithZone (← Std.Time.Timestamp.now) Std.Time.TimeZone.UTC
  let time := now.format "HH:mm:ss"
  return ⟨time, now.format "uuuu-MM-dd" ++ "T" ++ time ++ "." ++ now.format "SSSSSS" ++ "+00:00"⟩

/-- The files and folders that a command reads. -/
def pathsOf (settings : Settings) : Command → List String
  | .validate r =>
    (if r.buildFolders.isEmpty then buildFolders settings else r.buildFolders.filterMap id) ++
      (if r.chainId.isSome then [settings.manifestDir] else [])
  | .compare r => r.former :: r.updated.toList
  | .showManifest _ folder => [(folder.bind id).getD settings.manifestDir]
  | _ => []

/-- Takes the file that a path leads to into a tree, if there is one. -/
def takeFile (t : Tree) (p : Path) : IO Tree := do
  try
    let content ← IO.FS.readBinFile p.text
    return (t.writeDeep p content.toList).toOption.getD t
  catch _ => return t

/-- Takes a file, or the files of a folder, into a tree. -/
def takePath (t : Tree) (path : String) : IO Tree := do
  let p := Path.ofText path
  let entries ← try (((← IO.currentDir) / p.text).readDir : IO _) catch _ => pure #[]
  if entries.isEmpty then takeFile t p
  else entries.toList.foldlM (fun t entry => takeFile t (p.join entry.fileName)) t

/-- The path that leads to a place. -/
def pathTo : Place → Path
  | "/" :: names => ⟨"/", names⟩
  | names => ⟨"", names⟩

/-- Writes the files of a tree that differ from an earlier one, and removes those that are gone. -/
def writeBack (before after : Tree) : IO Unit := do
  for (place, content) in after.files do
    if before.contentAt? place != some content then
      let path := pathTo place
      IO.FS.createDirAll path.parent.text
      IO.FS.writeBinFile (path.text ++ ".tmp") ⟨content.toArray⟩
      IO.FS.rename (path.text ++ ".tmp") path.text
  for (place, _) in before.files do
    if (after.contentAt? place).isNone then IO.FS.removeFile (pathTo place).text

/-- Tries to take a lock, a number of times. -/
def tryLock (handle : IO.FS.Handle) (pause : UInt32) : Nat → IO Bool
  | 0 => handle.tryLock
  | tries + 1 => do
    if ← handle.tryLock then return true
    IO.sleep pause
    tryLock handle pause tries

/-- The lock that a command needs. -/
def lockOf? (settings : Settings) : Command → Option Path
  | .validate { chainId := some (some chainId), reference := some (some reference), .. } =>
    if isAddress reference then some (storeOf settings chainId settings.manifestDir none).lockFile
    else none
  | _ => none

/-- Takes the lock that a command needs, and tells `body` which locks others hold. -/
def underLock {α : Type} (settings : Settings) (command : Command) (body : List Path → IO α) :
    IO α := do
  match lockOf? settings command with
  | none => body []
  | some lock =>
    IO.FS.createDirAll lock.parent.text
    let handle ← IO.FS.Handle.mk lock.text .append
    let tries := (settings.lockTimeout / max settings.lockPollInterval 0.001).toUInt64.toNat
    if ← tryLock handle (settings.lockPollInterval * 1000).toUInt32 tries then
      try body [] finally handle.unlock
    else body [lock]

/-- Prints what the program ends with. -/
def finish (result : Except Failure Outcome) : IO UInt32 := do
  match result with
  | .error _ =>
    IO.eprintln "proxyguard: malformed input"
    return 1
  | .ok o =>
    IO.print o.output
    IO.eprint o.errors
    return o.code.toUInt32

/-- Runs the program. -/
def start (words : List String) : IO UInt32 := do
  let env ← readEnvironment
  let clock ← readClock
  let runOn (workspace : Workspace Unit) := (run env clock words).run.run workspace
  match Settings.load env, Request.read words with
  | .ok settings, .ok r =>
    underLock settings r.command fun locks => do
      let files ← (pathsOf settings r.command).foldlM takePath {}
      let (result, after) := runOn { files, locks, outside := () }
      writeBack files after.files
      finish result
  | _, _ => finish (runOn { outside := () }).1

end UpgradeSafety.CommandLine

/-- The program. -/
def main (words : List String) : IO UInt32 := UpgradeSafety.CommandLine.start words
