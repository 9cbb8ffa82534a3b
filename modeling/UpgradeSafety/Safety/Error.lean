import UpgradeSafety.Json.Access
import UpgradeSafety.Log.Occasion
import UpgradeSafety.Options

/-!
# Safety errors

A safety error is an unsafe pattern at a place in the source. The place and the names that it tells
come from compiler output or from a caller and are kept as they are, whatever their sort. A caller
may allow kinds of errors; the errors of an allowed kind are dropped, with one warning for each
kind.
-/

namespace UpgradeSafety

/-- An unsafe pattern in a source. A name that is `null` is unknown. -/
structure SafetyError where
  kind : SafetyKind
  src : Json
  name : Json := .null
  contract : Json := .null

namespace SafetyError

/-- A name in a message. -/
def shown (name : Json) : Except Failure String :=
  (name.shown).map fun s => "`" ++ s ++ "`"

/-- The message for an error and, on the lines below, what to do. Structs and enums have no
description. -/
def describe (e : SafetyError) : Except Failure String := do
  let lines : List String ←
    match e.kind with
    | .constructor =>
      pure ["Contract " ++ (← shown e.contract) ++ " has a constructor",
        "Define an initializer instead"]
    | .delegatecall => pure ["Use of delegatecall is not allowed"]
    | .selfdestruct => pure ["Use of selfdestruct is not allowed"]
    | .stateVariableAssignment =>
      pure ["Variable " ++ (← shown e.name) ++ " is assigned an initial value",
        "Move the assignment to the initializer"]
    | .stateVariableImmutable =>
      pure ["Variable " ++ (← shown e.name) ++
          " is immutable and will be initialized on the implementation",
        "If by design, annotate with '@custom:oz-upgrades-unsafe-allow " ++
          "state-variable-immutable'\n" ++
          "Otherwise, consider a constant variable or use a mutable variable instead"]
    | .externalLibraryLinking =>
      pure ["Linking external libraries like " ++ (← shown e.name) ++ " is not yet supported",
        "Use libraries with internal functions only, or skip this check with the " ++
          "`unsafe_allow_linked_libraries` flag\n" ++
          "    if you have manually checked that the libraries are upgrade safe"]
    | .missingUpgradeTo =>
      pure ["Implementation is missing a public `upgradeTo(address)` or " ++
          "`upgradeToAndCall(address,bytes)` function",
        "Inherit UUPSUpgradeable to include one or both of these functions in your contract"]
    | .structDefinition | .enumDefinition => throw (.fault .missingField)
  return (← e.src.shown) ++ ": " ++ "\n    ".intercalate lines

/-- An error as JSON; unknown names are left out. -/
def toJson (e : SafetyError) : Json :=
  let named (key : String) : Json → Fields
    | .null => []
    | v => [(key, v)]
  .obj ([("kind", .str e.kind.name), ("src", e.src)] ++ named "name" e.name ++
    named "contract" e.contract)

/-- Reads an error. -/
def ofJson (v : Json) : Except Failure SafetyError := do
  let kind ← v.need "kind"
  let kind ← match kind.text?.bind SafetyKind.ofName? with
    | some k => pure k
    | none => throw (.badValue (.safetyKind (← kind.writable).inspect))
  return { kind, src := ← v.need "src", name := ← v.get "name", contract := ← v.get "contract" }

end SafetyError

namespace Safety

/-- The warning that a kind of error is allowed. -/
def allowedWarning (contract : String) (kind : SafetyKind) : Log.Record :=
  Log.Occasion.errorsAllowed.record
    ("Potentially unsafe deployment of " ++ contract ++ ": " ++ kind.warning)
    [("contract", .str contract)]

/-- What has come of the errors so far: those that remain, and the kinds that were dropped, each once. -/
structure Sifted where
  remaining : List SafetyError := []
  dropped : List SafetyKind := []

/-- Keeps an error, or drops it when its kind is allowed. -/
def Sifted.next (allowed : List SafetyKind) (s : Sifted) (e : SafetyError) : Sifted :=
  if e.kind ∈ allowed then
    if e.kind ∈ s.dropped then s else { s with dropped := s.dropped ++ [e.kind] }
  else { s with remaining := s.remaining ++ [e] }

/-- Drops the errors that options allow, with a warning for each kind when it is first dropped. -/
def dropAllowed (contract : String) (errors : List SafetyError) (options : ValidationOptions) :
    List SafetyError × List Log.Record :=
  let sifted := errors.foldl (Sifted.next options.expand.unsafeAllow) {}
  (sifted.remaining, sifted.dropped.map (allowedWarning contract))

end Safety

end UpgradeSafety
