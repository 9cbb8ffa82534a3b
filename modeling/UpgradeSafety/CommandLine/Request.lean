import UpgradeSafety.CommandLine.Grammar
import UpgradeSafety.Safety.Kind

/-!
# Requests

What a user asks for on the command line: one of five commands with its options, how much is to be
shown, or only the version of the program.
-/

namespace UpgradeSafety.CommandLine

/-! ## The grammar -/

/-- The forms in which results are shown. -/
def formatOption : OptionSpec :=
  { names := ["--format", "-f"], value := some (.oneOf ["table", "json"]) }

/-- The option that allows types without their members. -/
def customTypesOption : OptionSpec := { names := ["--unsafe-allow-custom-types"] }

/-- The option that takes renamed variables for errors. -/
def strictRenamesOption : OptionSpec := { names := ["--strict-renames"] }

/-- Checking an upgrade. -/
def validateGrammar : Grammar :=
  .mk "proxyguard validate"
    [{ names := ["--reference", "-r"], value := some .text },
      { names := ["--build-info", "-b"], value := some .text },
      { names := ["--chain-id"], value := some .integer },
      { names := ["--kind"], value := some (.oneOf ["transparent", "uups", "beacon"]) },
      { names := ["--unsafe-allow"], value := some (.oneOf (SafetyKind.all.map (·.name))) },
      { names := ["--unsafe-skip-storage-check"] }, customTypesOption, strictRenamesOption,
      formatOption]
    ["contract"] "" []

/-- Comparing two layouts. -/
def compareGrammar : Grammar :=
  .mk "proxyguard compare" [customTypesOption, strictRenamesOption, formatOption]
    ["original", "updated"] "" []

/-- Computing the root of a namespace. -/
def erc7201Grammar : Grammar := .mk "proxyguard erc7201" [] ["namespace_id"] "" []

/-- Showing the manifest of a network. -/
def showGrammar : Grammar :=
  .mk "proxyguard manifest show"
    [{ names := ["--chain-id"], value := some .integer, required := true },
      { names := ["--dir"], value := some .text }]
    [] "" []

/-- Inspecting manifests. -/
def manifestGrammar : Grammar :=
  .mk "proxyguard manifest" [] [] "manifest_command" [("show", showGrammar)]

/-- The whole command line. -/
def grammar : Grammar :=
  .mk "proxyguard"
    [{ names := ["--version"] }, { names := ["--no-banner"] }, { names := ["--quiet", "-q"] }]
    [] "command"
    [("validate", validateGrammar), ("compare", compareGrammar), ("erc7201", erc7201Grammar),
      ("manifest", manifestGrammar), ("config", .mk "proxyguard config" [] [] "" [])]

/-! ## Requests -/

/-- A value that is given, which may be one without a word. -/
abbrev Word (α : Type) := Option α

/-- Checking an upgrade. -/
structure ValidateRequest where
  contract : String
  reference : Option (Word String) := none
  buildFolders : List (Word String) := []
  chainId : Option (Word Int) := none
  kind : Option ProxyKind := none
  unsafeAllow : List (Word SafetyKind) := []
  skipStorageCheck : Bool := false
  customTypes : Bool := false
  strictRenames : Bool := false
  asJson : Bool := false

/-- Comparing two layouts in files. -/
structure CompareRequest where
  former : String
  updated : Word String
  customTypes : Bool := false
  strictRenames : Bool := false
  asJson : Bool := false

/-- A command. -/
inductive Command where
  | validate (r : ValidateRequest)
  | compare (r : CompareRequest)
  | erc7201 (id : String)
  | showManifest (chainId : Word Int) (folder : Option (Word String))
  | config
  /-- The commands on manifests without one of them. -/
  | manifest
  | nothing

/-- A request. -/
structure Request where
  version : Bool := false
  banner : Bool := true
  quiet : Bool := false
  command : Command := .nothing

namespace Given

/-- Whether something is given. -/
def has (g : Given) (key : String) : Bool := (g.lookup key).isSome

/-- All values given under a name. -/
def values (g : Given) (key : String) : List Argument :=
  g.filterMap fun (k, a) => if k == key then some a else none

/-- The text of a value. -/
def word : Argument → Word String
  | .text s => some s
  | _ => none

/-- The integer of a value. -/
def number : Argument → Word Int
  | .integer n => some n
  | _ => none

/-- The value that was given last under a name. -/
def last? (g : Given) (key : String) : Option Argument := (values g key).getLast?

/-- The text that was given last under a name; none as well if it was given without a word. -/
def text? (g : Given) (key : String) : Option String := (last? g key).bind word

/-- An operand that has a word. -/
def operand (g : Given) (key : String) : String := (text? g key).getD ""

end Given

open Given in
/-- The command that is given. -/
def commandOf (g : Given) : Command :=
  let customTypes := has g "--unsafe-allow-custom-types"
  let strictRenames := has g "--strict-renames"
  let asJson := text? g "--format" == some "json"
  match text? g "command" with
  | some "validate" => .validate {
      contract := operand g "contract"
      reference := (last? g "--reference").map word
      buildFolders := (values g "--build-info").map word
      chainId := (last? g "--chain-id").map number
      kind := (text? g "--kind").bind ProxyKind.ofName?
      unsafeAllow := (values g "--unsafe-allow").map fun a => (word a).bind SafetyKind.ofName?
      skipStorageCheck := has g "--unsafe-skip-storage-check"
      customTypes, strictRenames, asJson }
  | some "compare" => .compare {
      former := operand g "original"
      updated := text? g "updated"
      customTypes, strictRenames, asJson }
  | some "erc7201" => .erc7201 (operand g "namespace_id")
  | some "manifest" =>
    if (text? g "manifest_command").isSome then
      .showManifest ((last? g "--chain-id").bind number) ((last? g "--dir").map word)
    else .manifest
  | some _ => .config
  | none => .nothing

open Given in
/-- Reads a request. -/
def Request.read (words : List String) : Except Stop Request := do
  let g ← grammar.read words
  return {
    version := has g "--version"
    banner := !has g "--no-banner" && !has g "--quiet"
    quiet := has g "--quiet"
    command := commandOf g }

end UpgradeSafety.CommandLine
