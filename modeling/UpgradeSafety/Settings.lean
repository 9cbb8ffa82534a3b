import UpgradeSafety.Failure
import UpgradeSafety.Numeral.Fraction
import UpgradeSafety.Text.Lowercase

/-!
# Settings

The settings of the program come from variables of the environment whose names begin with
`PROXYGUARD_`, in any letter case. All values are texts and are read here.
-/

namespace UpgradeSafety

open Schema Numeral

/-- Where the program runs. -/
inductive Stage where
  | development
  | staging
  | production
  deriving DecidableEq, Repr

/-- The name of a stage. -/
def Stage.name : Stage → String
  | development => "development"
  | staging => "staging"
  | production => "production"

/-- The settings of the program. -/
structure Settings where
  stage : Stage := .development
  logLevel : String := "INFO"
  manifestDir : String := ".proxyguard"
  devTmpDir : String
  lockTimeout : Float := 60
  lockPollInterval : Float := 0.05
  strictRenames : Bool := false
  unsafeAllowCustomTypes : Bool := false
  buildInfoDirs : String := "artifacts/build-info,out/build-info"

namespace Settings

/-- Variables of the environment. -/
abbrev Environment := List (String × String)

/-- A written number with an optional fraction and exponent. -/
def readDecimal (cs : List Char) : Option Float :=
  let (negative, cs) := readSign cs
  let whole := cs.takeWhile Char.isDigit
  let rest := cs.dropWhile Char.isDigit
  let (fraction, rest) := match rest with
    | '.' :: r => (r.takeWhile Char.isDigit, r.dropWhile Char.isDigit)
    | r => ([], r)
  let value (ds : List Char) : Nat := ds.foldl (fun n d => n * 10 + (d.toNat - 0x30)) 0
  let number (exponent : Int) : Float :=
    floatOfDecimal negative (value (whole ++ fraction)) (exponent - fraction.length)
  if whole.isEmpty && fraction.isEmpty then
    let word := String.ofList (cs.map Char.toLower)
    if word == "inf" || word == "infinity" then some (if negative then -1.0 / 0.0 else 1.0 / 0.0)
    else if word == "nan" then some (0.0 / 0.0)
    else none
  else
    match rest with
    | [] => some (number 0)
    | e :: r =>
      if e != 'e' && e != 'E' then none
      else
        let (negativeExponent, ds) := readSign r
        if ds.isEmpty || !ds.all Char.isDigit then none
        else some (number (if negativeExponent then -(value ds : Int) else value ds))

/-- A text without its underscores; none if it has none, or one at an end or beside another. -/
def dropUnderscores (cs : List Char) : Option (List Char) :=
  let double := (cs.zip (cs.drop 1)).any fun (a, b) => a == '_' && b == '_'
  if !cs.contains '_' || cs.head? == some '_' || cs.getLast? == some '_' || double then none
  else some (cs.filter (· != '_'))

/-- A number written in a text: with blanks around it, or with underscores within it. -/
def decimal (s : String) : Checked Float :=
  match readDecimal (Text.trimBoth Text.isSpace s.toList) with
  | some x => .valid x
  | none =>
    match (dropUnderscores s.toList).bind readDecimal with
    | some x => .valid x
    | none => .fail .numberSyntax

/-- A stage by name. -/
def readStage (s : String) : Checked Stage :=
  match [Stage.development, .staging, .production].find? fun stage => stage.name == s with
  | some stage => .valid stage
  | none => .fail .notListedWord

/-- The value of a setting: the last of the variables with its name counts. -/
def find? (env : Environment) (name : String) : Option String :=
  (env.reverse.find? fun (k, _) => Text.lower k == "proxyguard_" ++ name).map (·.2)

/-- A setting with a default. -/
def setting {α : Type} (env : Environment) (name : String) (read : String → Checked α)
    (default : α) : Checked α :=
  match find? env name with
  | some s => (read s).under (.field name)
  | none => .valid default

/-- The settings that an environment asks for. -/
def read (env : Environment) : Checked Settings :=
  let standard : Settings := { devTmpDir := "tmp" }
  let flagText (s : String) : Checked Bool := flag (.str s)
  Settings.mk <$> setting env "app_env" readStage standard.stage
    <*> setting env "log_level" .valid standard.logLevel
    <*> setting env "manifest_dir" .valid standard.manifestDir
    <*> setting env "dev_tmp_dir" .valid standard.devTmpDir
    <*> setting env "lock_timeout_seconds" decimal standard.lockTimeout
    <*> setting env "lock_poll_interval" decimal standard.lockPollInterval
    <*> setting env "strict_renames" flagText standard.strictRenames
    <*> setting env "unsafe_allow_custom_types" flagText standard.unsafeAllowCustomTypes
    <*> setting env "build_info_dirs" .valid standard.buildInfoDirs

/-- The settings of an environment, or the failure for malformed ones. -/
def load (env : Environment) : Except Failure Settings :=
  match read env with
  | .valid settings => .ok settings
  | .invalid problems => .error (.invalid problems)

/-- The settings by name, in alphabetical order, with their values. -/
def toFields (s : Settings) : Fields :=
  [("app_env", .str s.stage.name), ("build_info_dirs", .str s.buildInfoDirs),
    ("dev_tmp_dir", .str s.devTmpDir), ("lock_poll_interval", .float s.lockPollInterval),
    ("lock_timeout_seconds", .float s.lockTimeout), ("log_level", .str s.logLevel),
    ("manifest_dir", .str s.manifestDir), ("strict_renames", .bool s.strictRenames),
    ("unsafe_allow_custom_types", .bool s.unsafeAllowCustomTypes)]

end Settings

end UpgradeSafety
