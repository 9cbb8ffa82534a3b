/-!
# Kinds of unsafe patterns

The source patterns that make an implementation unsafe behind a proxy, and the kinds of proxies.
-/

namespace UpgradeSafety

/-- A pattern that breaks once the code runs behind a proxy. -/
inductive SafetyKind where
  | stateVariableAssignment
  | stateVariableImmutable
  | externalLibraryLinking
  | structDefinition
  | enumDefinition
  | constructor
  | delegatecall
  | selfdestruct
  | missingUpgradeTo
  deriving DecidableEq, Repr

namespace SafetyKind

/-- All kinds. -/
def all : List SafetyKind :=
  [stateVariableAssignment, stateVariableImmutable, externalLibraryLinking, structDefinition,
    enumDefinition, constructor, delegatecall, selfdestruct, missingUpgradeTo]

/-- The name of a kind. -/
def name : SafetyKind → String
  | stateVariableAssignment => "state-variable-assignment"
  | stateVariableImmutable => "state-variable-immutable"
  | externalLibraryLinking => "external-library-linking"
  | structDefinition => "struct-definition"
  | enumDefinition => "enum-definition"
  | constructor => "constructor"
  | delegatecall => "delegatecall"
  | selfdestruct => "selfdestruct"
  | missingUpgradeTo => "missing-public-upgradeto"

/-- The kind with a name. -/
def ofName? (s : String) : Option SafetyKind := all.find? fun k => k.name == s

theorem mem_all (k : SafetyKind) : k ∈ all := by cases k <;> decide

/-- What a user who allows a kind is told. -/
def warning (k : SafetyKind) : String :=
  let flag := "You are using the `unsafeAllow." ++ k.name ++ "` flag"
  match k with
  | externalLibraryLinking =>
    flag ++ " to include external libraries. " ++
      "Make sure you have manually checked that the linked libraries are upgrade safe."
  | structDefinition =>
    flag ++ " to skip storage checks for structs. " ++
      "Make sure you have manually checked the storage layout for incompatibilities."
  | enumDefinition =>
    flag ++ " to skip storage checks for enums. " ++
      "Make sure you have manually checked the storage layout for incompatibilities."
  | _ => flag ++ "."

end SafetyKind

/-- A kind of proxy. -/
inductive ProxyKind where
  | transparent
  | uups
  | beacon
  deriving DecidableEq, Repr

namespace ProxyKind

/-- The name of a kind of proxy. -/
def name : ProxyKind → String
  | transparent => "transparent"
  | uups => "uups"
  | beacon => "beacon"

/-- The kind of proxy with a name. -/
def ofName? (s : String) : Option ProxyKind :=
  [transparent, uups, beacon].find? fun k => k.name == s

end ProxyKind

end UpgradeSafety
