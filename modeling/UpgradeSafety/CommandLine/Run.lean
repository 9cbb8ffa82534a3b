import UpgradeSafety.CommandLine.Request
import UpgradeSafety.Log.Format
import UpgradeSafety.Validation.Upgrade

/-!
# Running commands

Every command prints its result and ends with a code: zero if all is well, one for an unsafe upgrade
or a refusal, two for a command line that is not understood. The log goes to the error output.
-/

namespace UpgradeSafety.CommandLine

/-! ## Colored text -/

/-- The colors of the output. -/
inductive Color where
  | bold
  | red
  | yellow
  | green
  | cyan
  | dim
  deriving DecidableEq, Repr

/-- The code that turns a color on. -/
def Color.code : Color → String
  | bold => "\x1b[1m"
  | red => "\x1b[91m"
  | yellow => "\x1b[93m"
  | green => "\x1b[92m"
  | cyan => "\x1b[96m"
  | dim => "\x1b[2m"

/-- A text in a color. -/
def Color.paint (c : Color) (s : String) : String := c.code ++ s ++ "\x1b[0m"

/-- The version of the program. -/
def programVersion : String := "1.0.0"

/-- What is shown before the result. -/
def banner : String :=
  "\n" ++ Color.bold.code ++ Color.cyan.paint "proxyguard" ++ "\n  " ++
    Color.dim.paint ("Upgrade-safe storage layouts and deployment manifests (v" ++ programVersion ++
      ")") ++ "\n\n"

/-- A text with four spaces in front of every line. -/
def shifted (s : String) : String := "    " ++ "\n    ".intercalate (s.splitOn "\n")

/-! ## Results -/

/-- What a program ends with. -/
structure Outcome where
  code : Nat
  output : String := ""
  errors : String := ""
  deriving DecidableEq, Repr

/-- The result of a command: whether all is well, and lines to print. -/
structure Result where
  ok : Bool := true
  lines : List String

/-- The lines about a comparison of layouts. -/
def storageLines (r : Report) (quiet : Bool) : Except Failure (List String) := do
  let verdict ←
    if r.ok then pure [Color.green.paint "  ✓ Storage layout is compatible."]
    else do
      let count := "  ✗ " ++ toString (← r.errors).length ++ " storage layout error(s):"
      pure [Color.red.paint count, "", shifted (← r.explain true)]
  let found ← r.notes
  let notes ←
    if found.isEmpty || quiet then pure []
    else do
      let count := "  " ++ toString found.length ++ " note(s):"
      pure ["", Color.dim.paint count, shifted (← r.explainNotes true)]
  return verdict ++ notes

/-- The lines about an upgrade. -/
def upgradeLines (r : UpgradeReport) (quiet : Bool) : Except Failure (List String) := do
  let target := match r.reference with
    | some reference => if reference.isEmpty then "" else " against " ++ Color.cyan.paint reference
    | none => ""
  let title := if quiet then [] else
    ["\n" ++ Color.bold.paint "Validating" ++ " " ++ Color.cyan.paint r.contract ++ target ++ "\n"]
  let errors ←
    if r.errors.isEmpty then pure [Color.green.paint "  ✓ No upgrade safety errors."]
    else do
      let texts ← r.errors.mapM (·.describe)
      let count := "  ✗ " ++ toString r.errors.length ++ " upgrade safety error(s):"
      pure ([Color.red.paint count, ""] ++ texts.flatMap fun s => [shifted s, ""])
  let storage ← match r.storage with
    | some s => storageLines s quiet
    | none => pure <|
      if r.storageSkipped then [Color.yellow.paint "  ! Storage layout check skipped."] else []
  return title ++ errors ++ storage ++ [""]

/-! ## Commands -/

variable {σ : Type}

/-- Does something and marks what it tells with the network of a store. -/
def marked {α : Type} (s : Manifest.Store) (x : Act σ α) : Act σ α := do
  let known := (← get).log.length
  x.andThenAlways fun w =>
    { w with log := w.log.take known ++
        (w.log.drop known).map (·.stamp s.network s.file.text) }

/-- The store of a network. -/
def storeOf (settings : Settings) (chainId : Int) (folder : String)
    (updater : Option Manifest.Updater) : Manifest.Store :=
  { site := ⟨chainId, .ofText folder⟩, lockTimeout := settings.lockTimeout, updater }

/-- The folders of build files that the settings name. -/
def buildFolders (settings : Settings) : List String :=
  ((settings.buildInfoDirs.splitOn ",").map Text.strip).filter (!·.isEmpty)

/-- A value that has to have a word. -/
def worded {α : Type} : Word α → Act σ α
  | some a => return a
  | none => throw (.fault .wrongSort)

/-- The kind of error that a word allows. -/
def allowance : Word SafetyKind → Act σ SafetyKind
  | some kind => return kind
  | none => throw (.badValue (.safetyKind "[]"))

/-- Checks an upgrade. -/
def validateCommand (settings : Settings) (quiet : Bool) (r : ValidateRequest) : Act σ Result := do
  let folders ←
    if r.buildFolders.isEmpty then pure (buildFolders settings) else r.buildFolders.mapM worded
  let catalog ← Catalog.load folders
  let manifest ← r.chainId.mapM fun chainId => do
    return storeOf settings (← worded chainId) settings.manifestDir (some catalog.updater)
  let options : ValidationOptions := {
    kind := r.kind
    unsafeAllow := ← r.unsafeAllow.mapM allowance
    customTypes := r.customTypes || settings.unsafeAllowCustomTypes
    skipStorageCheck := r.skipStorageCheck
    strictRenames := r.strictRenames || settings.strictRenames }
  let reference (w : Word String) : Reference := w.elim .wordless .named
  let validate : Act σ UpgradeReport :=
    Validator.validate ⟨catalog, manifest, none⟩ r.contract (r.reference.map reference) options
  let report ← match manifest with
    | some store => marked store validate
    | none => validate
  if r.asJson then return ⟨report.ok, [(← Act.ofResult report.toJson).writeIndented 0]⟩
  else return ⟨report.ok, ← Act.ofResult (upgradeLines report quiet)⟩

/-- Reads a layout from a file: a persisted one, or a compiler's. -/
def readLayout (path : String) : Act σ Layout := do
  match ← Act.ofResult ((← get).files.readJson (.ofText path)) with
  | .error (.form complaint) => Act.refuse (.layoutSyntax path complaint)
  | .error (.bytes _) => throw (.fault .undecodable)
  | .ok v =>
    if (v.field? "layoutVersion").isSome then Act.ofResult (Layout.load v)
    else Act.ofResult do return (← (Import.layout v none false .null).run ⟨[], []⟩).1

/-- Compares two layouts. -/
def compareCommand (settings : Settings) (quiet : Bool) (r : CompareRequest) : Act σ Result := do
  let former ← readLayout r.former
  let updated ← readLayout (← worded r.updated)
  let options : ValidationOptions := {
    customTypes := r.customTypes || settings.unsafeAllowCustomTypes
    strictRenames := r.strictRenames || settings.strictRenames }
  let (report, notes) ← Act.ofResult (storageReport options former updated)
  Act.tell notes
  let lines ← Act.ofResult <|
    if r.asJson then do return [(← report.toJson).writeIndented 0] else storageLines report quiet
  return ⟨report.ok, lines⟩

/-- Shows the manifest of a network. -/
def showCommand (settings : Settings) (chainId : Word Int) (folder : Option (Word String)) :
    Act σ Result := do
  let folder ← (folder.getD (some settings.manifestDir) |> worded)
  let store := storeOf settings (← worded chainId) folder none
  let records ← marked store store.read
  return { lines := [(← Act.ofResult records.encode).writeIndented 0] }

/-- Shows the settings. -/
def configLines (settings : Settings) : List String :=
  ["\n" ++ Color.bold.paint "proxyguard Configuration" ++ "\n"] ++
    (settings.toFields.map fun (name, v) =>
      "  " ++ Color.dim.paint (name ++ ":") ++ "  " ++ v.display) ++ [""]

/-- Runs a command. -/
def runCommand (settings : Settings) (quiet : Bool) : Command → Act σ Result
  | .validate r => validateCommand settings quiet r
  | .compare r => compareCommand settings quiet r
  | .erc7201 id =>
    return { lines := [Namespaces.erc7201Location ((Namespaces.withoutFormula? id).getD id)] }
  | .showManifest chainId folder => showCommand settings chainId folder
  | .config => return { lines := configLines settings }
  | .manifest => return ⟨false, [grammar.usage.trimAsciiEnd.toString]⟩
  | .nothing => return { lines := [grammar.usage.trimAsciiEnd.toString] }

/-! ## The program -/

/-- Lines as they are printed. -/
def printed (lines : List String) : String := String.join (lines.map (· ++ "\n"))

/-- The log as it is printed. -/
def printedLog (setup : Log.Setup) (clock : Log.Clock) (records : List Log.Record) : String :=
  printed <| (records.filter fun r => setup.level ≤ r.level).filterMap fun r =>
    (setup.format.write clock r).toOption

/-- How the log of a request is written. -/
def logSetup (settings : Settings) (quiet : Bool) : Except Failure Log.Setup :=
  Log.Setup.of settings.stage.name (if quiet then "WARNING" else settings.logLevel)

/-- Runs a request. A refusal is printed; any other failure is left to the caller. -/
def runRequest (settings : Settings) (clock : Log.Clock) (r : Request) : Act σ Outcome := do
  let setup ← Act.ofResult (logSetup settings r.quiet)
  let front := if r.banner then banner else ""
  let log : Act σ String := do return printedLog setup clock (← get).log
  let attempt : Act σ (Except Refusal Result) := do
    return .ok (← runCommand settings r.quiet r.command)
  let result ← tryCatch attempt fun
    | .refused e => return .error e
    | e => throw e
  match result with
  | .ok result =>
    return ⟨if result.ok then 0 else 1, printed result.lines, front ++ (← log)⟩
  | .error e =>
    return ⟨1, "", front ++ (← log) ++ Color.red.paint ("\nError: " ++ e.text) ++ "\n"⟩

/-- Runs the program with the words of a command line. -/
def run (env : Settings.Environment) (clock : Log.Clock) (words : List String) : Act σ Outcome := do
  match Request.read words with
  | .error (.help page) => return { code := 0, output := page }
  | .error (.misuse program complaint) =>
    return { code := 2, errors := program ++ ": error: " ++ complaint ++ "\n" }
  | .ok r =>
    if r.version then return { code := 0, output := "proxyguard " ++ programVersion ++ "\n" }
    else runRequest (← Act.ofResult (Settings.load env)) clock r

end UpgradeSafety.CommandLine
