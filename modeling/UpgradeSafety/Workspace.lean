import UpgradeSafety.Files.Tree
import UpgradeSafety.Json.Parser
import UpgradeSafety.Log.Record
import UpgradeSafety.Manifest.Records
import UpgradeSafety.Text.Utf8

/-!
# The workspace

What the program works on: files, the locks that are held on them, the records that runs in
progress have in hand, and the log. An operation that fails keeps what it did to the workspace.
-/

namespace UpgradeSafety

/-- Record sets in hand during a run. The run may replace the current set by a new one; a caller
that was handed the earlier set still has it. -/
structure Draft where
  sets : List Manifest.Records
  current : Nat

/-- A record set in hand, by the session that has it in hand and its number there. -/
structure Handle where
  session : Nat
  index : Nat
  deriving DecidableEq, Repr

/-- What the program works on. Sessions know nothing of the runs of one another, but share the files
and their locks. `outside` is the state of what lies outside, such as a chain. -/
structure Workspace (σ : Type) where
  files : Files.Tree := {}
  locks : List Files.Path := []
  /-- The drafts of the sessions with a run in progress. -/
  drafts : List (Nat × Draft) := []
  log : List Log.Record := []
  outside : σ

/-- An operation on the workspace. -/
abbrev Act (σ : Type) := ExceptT Failure (StateM (Workspace σ))

namespace Act

variable {σ α : Type}

/-- The result of a computation without effects. -/
def ofResult (x : Except Failure α) : Act σ α := liftM x

/-- Fails with a refusal. -/
def refuse (r : Refusal) : Act σ α := throw (.refused r)

/-- Writes into the log. -/
def tell (records : List Log.Record) : Act σ Unit :=
  modify fun w => { w with log := w.log ++ records }

/-- Does something outside. -/
def outside (x : StateM σ α) : Act σ α :=
  modifyGet fun w => let (a, s) := x.run w.outside; (a, { w with outside := s })

/-- Does something to the files. -/
def onFiles (f : Files.Tree → Except Failure Files.Tree) : Act σ Unit := do
  let files ← ofResult (f (← get).files)
  modify fun w => { w with files }

/-- Writes a file at once: what is written goes into a file beside it, which then takes its place. If
it cannot, it is removed. -/
def replaceFile (p : Files.Path) (content : List UInt8) : Act σ Unit := do
  let temporary := (← get).files.pathBeside p
  onFiles (·.write temporary content)
  tryCatch (onFiles (·.rename temporary p)) fun e => do
    onFiles (·.remove temporary)
    throw e

/-- Does `cleanup` after an operation, whether it fails or not. -/
def andThenAlways (x : Act σ α) (cleanup : Workspace σ → Workspace σ) : Act σ α :=
  fun w => let (result, w) := x.run w; (result, cleanup w)

end Act

namespace Files

/-- Why a file holds no JSON value. -/
inductive Unreadable where
  | bytes (fault : Text.Utf8Fault)
  | form (complaint : String)

/-- What is wrong with a file. -/
def Unreadable.complaint : Unreadable → String
  | bytes fault => fault.message
  | form complaint => complaint

/-- The JSON value that a file holds. Line breaks of all systems are the same. An integer of too
many digits is a failure, since the file may be in order. -/
def Tree.readJson (t : Tree) (p : Path) : Except Failure (Except Unreadable Json) := do
  match Text.decodeUtf8 (← t.read p) with
  | .error fault => return .error (.bytes fault)
  | .ok text =>
    let text := String.ofList (Text.unifyBreaks text.toList)
    match Json.parse text with
    | .error e =>
      match e.complaint with
      | .overlong digits => throw (.unreadable digits)
      | _ => return .error (.form (e.message text))
    | .ok v => return .ok v

end Files

end UpgradeSafety
