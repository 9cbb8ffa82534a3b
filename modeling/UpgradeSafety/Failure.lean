import UpgradeSafety.Numeral.FloatText
import UpgradeSafety.Schema.Reader
import UpgradeSafety.Text.Lines

/-!
# Failures

Why an operation ends without a result. A *refusal* is a failure that the program foresees and
words: a message of one line and details below it. The other failures are malformed records, texts
that are no number, and *faults*, which malformed data causes where nothing checks for it.
-/

namespace UpgradeSafety

/-- The families of refusals. Callers tell refusals apart by family only. -/
inductive Family where
  | general
  | layoutImport
  | contractNotFound
  | storageLayout
  | unsafeContract
  | manifestCorrupted
  | lockTimeout
  | deploymentNotFound
  | adminNotFound
  | invalidDeployment
  | migration
  | duplicateNamespace
  deriving DecidableEq, Repr

/-- Causes of refusals. -/
inductive Refusal where
  -- layouts
  | malformedLayout (problems : List Schema.Problem)
  | notALayout
  | malformedTypeId (id : String)
  | unresolvableType (id : String)
  | unnumberedEnum (id : String)
  | slotCrossed (label : String) (size offset slot : Int)
  | overlap (first second : String) (firstSlot firstOffset secondSlot secondOffset : Int)
  | recursiveType (label : String)
  -- compiler output
  | sourceUnavailable (index : Int)
  | contentUnavailable (source : String)
  | nodeNotFound (id : String) (kinds : String)
  | noTypeDescription (id : String)
  | noVariableDeclaration (label : String)
  | locationArguments
  | unknownAllowance (argument : String)
  | duplicateNamespace (id contract : String) (places : List String)
  | malformedBuildInfo
  | buildInfoSyntax (path complaint : String)
  | layoutSyntax (path complaint : String)
  | noBuildInfo
  -- validation
  | layoutUnavailable (contract : String)
  | ambiguousContract (name : String) (candidates : List String)
  | contractNotFound (name : String)
  | versionNotFound
  | noManifest (address : String)
  | unsafeContract (name : String) (errors : List String)
  | incompatibleLayout (explanation : String)
  -- manifests
  | twoManifests (fallback named : String) (chainId : Int)
  | manifestCorrupted (file reason : String)
  | manifestMalformed (file : String) (problems : List Schema.Problem)
  | lockTimeout (file : String) (seconds : Float)
  | unknownVersion (version : String)
  | unknownImplementation (address : String)
  | unknownProxy (address : String)
  | unknownBeacon (address : String)
  | noAdmin (network : String)
  | noCode (address : String)
  | unversioned
  | malformedVersion (quoted : String)
  | implsNotTable
  | implNotRecord (version : String)
  | versionTooOld (version : String)
  | versionTooNew (version current : String)

namespace Refusal

/-- The family of a refusal. -/
def family : Refusal → Family
  | malformedLayout _ | notALayout | malformedTypeId _ | unresolvableType _ | unnumberedEnum _
  | slotCrossed .. | overlap .. | sourceUnavailable _ | contentUnavailable _ | nodeNotFound ..
  | noTypeDescription _ | noVariableDeclaration _ | malformedBuildInfo | buildInfoSyntax ..
  | layoutSyntax .. | layoutUnavailable _ => .layoutImport
  | recursiveType _ | locationArguments | unknownAllowance _ | noBuildInfo | ambiguousContract ..
  | noManifest _ | twoManifests .. => .general
  | duplicateNamespace .. => .duplicateNamespace
  | contractNotFound _ | versionNotFound => .contractNotFound
  | unsafeContract .. => .unsafeContract
  | incompatibleLayout _ => .storageLayout
  | manifestCorrupted .. | manifestMalformed .. => .manifestCorrupted
  | lockTimeout .. => .lockTimeout
  | unknownVersion _ | unknownImplementation _ | unknownProxy _ | unknownBeacon _ =>
    .deploymentNotFound
  | noAdmin _ => .adminNotFound
  | noCode _ => .invalidDeployment
  | unversioned | malformedVersion _ | implsNotTable | implNotRecord _ | versionTooOld _
  | versionTooNew .. => .migration

/-- The message of a refusal. -/
def message : Refusal → String
  | malformedLayout _ | notALayout => "Malformed storage layout"
  | malformedTypeId id => "Malformed type id " ++ id
  | unresolvableType id | unnumberedEnum id => "Unresolvable type reference " ++ id
  | slotCrossed label .. => "Variable `" ++ label ++ "` crosses its storage slot"
  | overlap first second .. =>
    "Variables `" ++ first ++ "` and `" ++ second ++ "` overlap in storage"
  | recursiveType _ => "Recursive types are not supported"
  | sourceUnavailable index => "Source file " ++ toString index ++ " not available"
  | contentUnavailable source => "Content for " ++ source ++ " not available"
  | nodeNotFound id kinds => "No node with id " ++ id ++ " of type " ++ kinds
  | noTypeDescription id => "Missing type descriptions for AST node " ++ id
  | noVariableDeclaration label =>
    "Did not find variable declaration node for '" ++ label ++ "'"
  | locationArguments => "@custom:storage-location annotation must have exactly one argument"
  | unknownAllowance argument =>
    "NatSpec: oz-upgrades-unsafe-allow argument not recognized: " ++ argument
  | duplicateNamespace id contract _ =>
    "Namespace " ++ id ++ " is defined multiple times for contract " ++ contract
  | malformedBuildInfo => "Malformed build info"
  | buildInfoSyntax path _ => "Build info file " ++ path ++ " is not valid JSON"
  | layoutSyntax path _ => path ++ " is not valid JSON"
  | noBuildInfo => "No build info files found"
  | layoutUnavailable contract => "Storage layout for " ++ contract ++ " is not available"
  | ambiguousContract name _ => "Contract " ++ name ++ " is ambiguous"
  | contractNotFound name => "Could not find contract " ++ name
  | versionNotFound => "The requested contract was not found"
  | noManifest address => "Cannot resolve " ++ address ++ " without a manifest"
  | unsafeContract name _ => "Contract `" ++ name ++ "` is not upgrade safe"
  | incompatibleLayout _ => "New storage layout is incompatible"
  | twoManifests fallback named _ =>
    "Network files with different names " ++ fallback ++ " and " ++ named ++
      " were found for the same network."
  | manifestCorrupted file _ | manifestMalformed file _ =>
    "Manifest file " ++ file ++ " could not be read"
  | lockTimeout file seconds =>
    "Timed out after " ++ Numeral.FloatFormat.general.text seconds ++
      "s waiting for manifest lock " ++ file
  | unknownVersion version => "No implementation registered for version " ++ version
  | unknownImplementation address => "Deployment at address " ++ address ++ " is not registered"
  | unknownProxy address => "Proxy at address " ++ address ++ " is not registered"
  | unknownBeacon address => "Beacon at address " ++ address ++ " is not registered"
  | noAdmin network => "No proxy admin registered on " ++ network
  | noCode address => "No contract at address " ++ address ++ " (Removed from manifest)"
  | unversioned => "Manifest has no manifestVersion"
  | malformedVersion quoted => "Malformed manifestVersion " ++ quoted
  | implsNotTable => "Manifest impls is not an object"
  | implNotRecord version => "Implementation " ++ version ++ " is not an object"
  | versionTooOld version => "Manifest version " ++ version ++ " is too old"
  | versionTooNew version current =>
    "Manifest version " ++ version ++ " is newer than the supported " ++ current

/-- The placeholder for the list of a malformed record's problems. -/
def problemText : String := "<validation errors>"

/-- The details of an unreadable manifest. -/
def corruption (reason : String) : String :=
  reason ++ "\n\nFix or restore the file manually. It is never rewritten while unreadable."

/-- What stands below the message; empty when there is nothing to add. -/
def details : Refusal → String
  | malformedLayout _ => problemText
  | notALayout => "Expected an object with a `storage` list"
  | unresolvableType _ =>
    "The layout references a type id that is missing from its types table"
  | slotCrossed _ size offset slot =>
    toString size ++ " bytes at offset " ++ toString offset ++ " of slot " ++ toString slot
  | overlap first second firstSlot firstOffset secondSlot secondOffset =>
    "`" ++ second ++ "` starts at slot " ++ toString secondSlot ++ " offset " ++
      toString secondOffset ++ ", inside `" ++ first ++ "` (slot " ++ toString firstSlot ++
      " offset " ++ toString firstOffset ++ ")"
  | recursiveType label => "Recursion found in " ++ label ++ "\n"
  | duplicateNamespace id _ places =>
    "The namespace " ++ id ++ " was found in structs at the following locations:\n- " ++
      "\n- ".intercalate places ++
      "\n\nUse a unique namespace id for each struct annotated with " ++
      "'@custom:storage-location erc7201:<NAMESPACE_ID>' in your contract and its inherited " ++
      "contracts."
  | malformedBuildInfo => "Expected an object with `input` and `output`"
  | buildInfoSyntax _ complaint | layoutSyntax _ complaint => complaint
  | noBuildInfo =>
    "Compile the project with storage layout output enabled, then point " ++
      "PROXYGUARD_BUILD_INFO_DIRS at the build-info directory"
  | layoutUnavailable _ =>
    "Enable the `storageLayout` output selection in the compiler settings"
  | ambiguousContract _ candidates =>
    "Use one of the following fully qualified names:\n" ++
      "\n".intercalate (candidates.map ("  " ++ ·))
  | contractNotFound _ => "Make sure the contract is compiled and its build info is available"
  | versionNotFound => "Make sure the source code is available for compilation"
  | noManifest _ => "Pass the network's manifest, or use a contract name as reference"
  | unsafeContract _ errors => "\n\n".intercalate errors
  | incompatibleLayout explanation => explanation
  | twoManifests _ _ chainId =>
    "More than one network file was found for chain ID " ++ toString chainId ++
      ". Determine which file is the most up to date version, then take a backup of " ++
      "and delete the other file."
  | manifestCorrupted _ reason => corruption reason
  | manifestMalformed .. => corruption problemText
  | lockTimeout .. =>
    "Another process is using the manifest for this network. Retry the operation."
  | unknownImplementation _ =>
    "Import the implementation into the manifest before validating an upgrade from it"
  | versionTooOld _ => "Migrate the project with the legacy migration tooling first"
  | versionTooNew .. => "Upgrade proxyguard to read this manifest"
  | _ => ""

/-- The problems of the malformed record that caused a refusal. -/
def problems? : Refusal → Option (List Schema.Problem)
  | malformedLayout ps | manifestMalformed _ ps => some ps
  | _ => none

/-- Indents every line of a text that is not blank by four spaces. -/
def indent (s : String) : String :=
  String.join <| (Text.splitLines s).map fun (line, ending) =>
    (if line.toList.all Text.isBlank then "" else "    ") ++ line ++ ending

/-- A message with its details, indented, below it. -/
def compose (message details : String) : String :=
  if details.isEmpty then message else message ++ "\n\n" ++ indent details

/-- The complete text of a refusal. -/
def text (r : Refusal) : String := compose r.message r.details

end Refusal

/-- Texts that are not what they should be. -/
inductive BadValue where
  | integer (base : Numeral.Base) (text : String) (fault : Numeral.IntegerFault)
  | abstractContract
  /-- A value, shown in source notation, that names no kind of safety error. -/
  | safetyKind (shown : String)
  /-- An integer with more decimal digits than are written. -/
  | digitsToWrite
  /-- An integer is asked of what is no number. -/
  | notANumber
  /-- A name, shown in source notation, that names no level of the log. -/
  | logLevel (shown : String)
  /-- A value of a sort that cannot be written in the manner that a letter stands for. -/
  | manner (letter : Char) (sort : String)
  /-- A template ends within a place. -/
  | placeUnfinished
  /-- A template ends within the name of a value. -/
  | keyUnfinished
  /-- A place of a template asks for an unknown conversion. -/
  | conversion (c : Char) (position : Nat)
  | widthTooGreat
  | precisionTooGreat

/-- The wording of a bad value. -/
def BadValue.message : BadValue → String
  | integer base s fault => Schema.integerComplaint base s fault
  | abstractContract => "Abstract contract has no bytecode"
  | safetyKind shown => shown ++ " is not a valid SafetyErrorKind"
  | digitsToWrite => Schema.digitsComplaint ""
  | notANumber => "cannot convert float NaN to integer"
  | logLevel shown => "Unknown level: " ++ shown
  | manner letter sort =>
    "Unknown format code '" ++ String.singleton letter ++ "' for object of type '" ++ sort ++ "'"
  | placeUnfinished => "incomplete format"
  | keyUnfinished => "incomplete format key"
  | conversion c position =>
    "unsupported format character '" ++
      (if 0x1f ≤ c.toNat && c.toNat < 0x7f then String.singleton c else "?") ++ "' (0x" ++
      String.ofList (Nat.toDigits 16 c.toNat) ++ ") at index " ++ toString position
  | widthTooGreat => "width too big"
  | precisionTooGreat => "precision too big"

/-- What malformed data runs into where nothing checks for it. -/
inductive Fault where
  /-- A field that has to be there is absent. -/
  | missingField
  /-- A field is asked of a value that is no object. -/
  | notAnObject
  /-- A value of the wrong sort for an operation. -/
  | wrongSort
  /-- Members of a type that are not of the sort its kind has. -/
  | wrongMembers
  | divisionByZero
  /-- A position outside a list. -/
  | outOfRange
  | fileNotFound
  | isDirectory
  | notADirectory
  | fileExists
  /-- A file that is not in UTF-8. -/
  | undecodable
  /-- A number beyond the range that an operation works in. -/
  | overflow
  /-- A text that is too long to be built. -/
  | memory
  /-- A record with a number that has too many digits to be serialised. -/
  | unserialisable
  deriving DecidableEq, Repr

/-- Why an operation ends without a result. -/
inductive Failure where
  | refused (r : Refusal)
  | invalid (problems : List Schema.Problem)
  | badValue (v : BadValue)
  /-- A caller's step ended with a message of its own. -/
  | interrupted (message : String)
  | fault (f : Fault)

/-- Whether the numbers in the details of a refusal can be written. -/
def Refusal.isWritable : Refusal → Bool
  | slotCrossed _ size offset slot => [size, offset, slot].all Numeral.isWritable
  | overlap _ _ firstSlot firstOffset secondSlot secondOffset =>
    [firstSlot, firstOffset, secondSlot, secondOffset].all Numeral.isWritable
  | _ => true

/-- The failure that a refusal is, or that it cannot be told. -/
def Refusal.told (r : Refusal) : Failure :=
  if r.isWritable then .refused r else .badValue .digitsToWrite

/-- The failure for a decimal number of too many digits. -/
def Failure.unreadable (digits : Nat) : Failure := .badValue (.integer .ten "" (.tooLong digits))

end UpgradeSafety
