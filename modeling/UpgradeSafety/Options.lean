import UpgradeSafety.Compare.Comparator
import UpgradeSafety.Safety.Kind
import UpgradeSafety.Settings

/-!
# Options of a validation

What the caller of a validation allows. Two umbrella flags and the kinds they stand for imply each
other: custom types are allowed exactly when structs and enums are, and linked libraries exactly
when their linking is. Expanding the options makes both sides explicit.
-/

namespace UpgradeSafety

open Schema

/-- What a caller allows. -/
structure ValidationOptions where
  kind : Option ProxyKind := none
  unsafeAllow : List SafetyKind := []
  customTypes : Bool := false
  linkedLibraries : Bool := false
  skipStorageCheck : Bool := false
  strictRenames : Bool := false
  deriving DecidableEq, Repr

namespace ValidationOptions

/-- The options that are in force when a caller gives none. -/
def ofSettings (settings : Settings) : ValidationOptions :=
  { customTypes := settings.unsafeAllowCustomTypes, strictRenames := settings.strictRenames }

/-- Reads options, with defaults for two flags. -/
def ofFields (fields : Fields) (standard : ValidationOptions) : Checked ValidationOptions :=
  ValidationOptions.mk <$> optional fields (.plain "kind") (oneOf ProxyKind.ofName?)
    <*> defaulted fields (.plain "unsafe_allow") (list (oneOf SafetyKind.ofName?)) []
    <*> defaulted fields (.plain "unsafe_allow_custom_types") flag standard.customTypes
    <*> defaulted fields (.plain "unsafe_allow_linked_libraries") flag false
    <*> defaulted fields (.plain "unsafe_skip_storage_check") flag false
    <*> defaulted fields (.plain "strict_renames") flag standard.strictRenames

/-- Reads options. The settings are consulted only for a flag that is absent, and have to be well
formed then. -/
def load (settings : Except Failure Settings) (v : Json) : Except Failure ValidationOptions :=
  let read (standard : ValidationOptions) : Except Failure ValidationOptions :=
    match record (ofFields · standard) v with
    | .valid options => .ok options
    | .invalid problems => .error (.invalid problems)
  match v with
  | .obj fields =>
    if (fields.lookup "unsafe_allow_custom_types").isSome && (fields.lookup "strict_renames").isSome
    then read {}
    else do read (ofSettings (← settings))
  | _ => read {}

/-- A list without repetitions, each element at its first place. -/
def firstOccurrences (kinds : List SafetyKind) : List SafetyKind :=
  kinds.foldl (fun seen k => if k ∈ seen then seen else seen ++ [k]) []

/-- Makes the flags and the kinds that imply each other explicit. -/
def expand (o : ValidationOptions) : ValidationOptions :=
  let customTypes := o.customTypes ||
    (decide (.structDefinition ∈ o.unsafeAllow) && decide (.enumDefinition ∈ o.unsafeAllow))
  let linkedLibraries := o.linkedLibraries || decide (.externalLibraryLinking ∈ o.unsafeAllow)
  { o with
    customTypes, linkedLibraries
    unsafeAllow := firstOccurrences <| o.unsafeAllow ++
      (if customTypes then [.enumDefinition, .structDefinition] else []) ++
      (if linkedLibraries then [.externalLibraryLinking] else []) }

/-- What a comparison is to overlook under options. -/
def leniency (o : ValidationOptions) : Compare.Leniency := ⟨o.customTypes, o.strictRenames⟩

/-- Options as JSON. -/
def toJson (o : ValidationOptions) : Json :=
  .obj [("kind", Json.ofOption (fun k => .str k.name) o.kind),
    ("unsafe_allow", .arr (o.unsafeAllow.map fun k => .str k.name)),
    ("unsafe_allow_custom_types", .bool o.customTypes),
    ("unsafe_allow_linked_libraries", .bool o.linkedLibraries),
    ("unsafe_skip_storage_check", .bool o.skipStorageCheck),
    ("strict_renames", .bool o.strictRenames)]

end ValidationOptions

end UpgradeSafety
