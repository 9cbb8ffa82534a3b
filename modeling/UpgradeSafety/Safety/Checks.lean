import UpgradeSafety.Safety.Error
import UpgradeSafety.Syntax.Documentation
import UpgradeSafety.Syntax.Search
import UpgradeSafety.Syntax.Source
import UpgradeSafety.Syntax.TypeNames

/-!
# Source checks

A contract's tree is searched for constructors that do something, for `delegatecall` and
`selfdestruct`, for state variables with an initial value or without a place in storage, and for
linked libraries. A node whose documentation allows a kind of error is passed over for that kind,
with everything inside it.
-/

namespace UpgradeSafety.Safety

open Syntax

/-- The kinds that a node's documentation allows. -/
def allowedBy (node : Json) : Except Failure (List SafetyKind) := do
  (← nodeArguments node "oz-upgrades-unsafe-allow").mapM fun argument =>
    match SafetyKind.ofName? argument with
    | some kind => pure kind
    | none => throw (.refused (.unknownAllowance argument))

/-- Whether a node's documentation allows a kind. -/
def allows (kind : SafetyKind) (node : Json) : Except Failure Bool := do
  return decide (kind ∈ (← allowedBy node))

/-- Constructors with statements or modifiers. -/
def constructorErrors (contract : Json) (locate : Locate) : Except Failure (List SafetyError) :=
  (searchUnless (allows .constructor) ["FunctionDefinition"] contract).collect fun f => do
    if (← f.get "kind").text? != some "constructor" then return []
    let statements ← ((← f.get "body").orElse (.obj [])).get "statements"
    let relevant ← if statements.truthy then pure true else pure (← f.get "modifiers").truthy
    if relevant then
      return [{ kind := .constructor, src := .str (← locate f), contract := ← contract.get "name" }]
    else return []

/-- Calls of functions whose type begins with a word. -/
def callErrors (kind : SafetyKind) (word : String) (contract : Json) (locate : Locate) :
    Except Failure (List SafetyError) :=
  (searchUnless (allows kind) ["FunctionCall"] contract).collect fun call => do
    let expression ← call.getOr "expression" (.obj [])
    let description := (← expression.get "typeDescriptions").orElse (.obj [])
    match (← description.get "typeIdentifier").orElse (.str "") with
    | .str type =>
      if beginsWith word type then return [{ kind, src := .str (← locate call) }] else return []
    | _ => throw (.fault .wrongSort)

/-- The error of a state variable, unless the contract or the variable allows its kind. -/
def variableError (kind : SafetyKind) (contract declaration : Json) (locate : Locate) :
    Except Failure (List SafetyError) := do
  if ← allows kind contract then return []
  if ← allows kind declaration then return []
  return [{ kind, src := .str (← locate declaration), name := ← declaration.get "name" }]

/-- State variables with an initial value, and immutable ones. -/
def variableErrors (contract : Json) (locate : Locate) : Except Failure (List SafetyError) := do
  let nodes ← (← contract.getOr "nodes" (.arr [])).elements
  let parts ← nodes.mapM fun v => do
    if (← v.get "nodeType").text? != some "VariableDeclaration" then return []
    let assigned ←
      if !(← v.get "constant").truthy then
        match ← v.get "value" with
        | .null => pure []
        | _ => variableError .stateVariableAssignment contract v locate
      else pure []
    let immutable ←
      if (← v.get "mutability").text? == some "immutable" then
        variableError .stateVariableImmutable contract v locate
      else pure []
    return assigned ++ immutable
  return parts.flatten

/-- The libraries that a bytecode is to be linked with. -/
def linkingErrors (contract bytecode : Json) : Except Failure (List SafetyError) := do
  if ← allows .externalLibraryLinking contract then return []
  let references ← ((← bytecode.get "linkReferences").orElse (.obj [])).entries
  let parts ← references.mapM fun (source, libraries) => do
    return (← libraries.elements).map fun library =>
      { kind := .externalLibraryLinking, src := .str source, name := library }
  return parts.flatten

/-- All errors of a contract. -/
def contractErrors (contract bytecode : Json) (locate : Locate) :
    Except Failure (List SafetyError) := do
  let constructors ← constructorErrors contract locate
  let delegatecalls ← callErrors .delegatecall "t_function_baredelegatecall_" contract locate
  let selfdestructs ← callErrors .selfdestruct "t_function_selfdestruct_" contract locate
  let state ← variableErrors contract locate
  let linking ← linkingErrors contract bytecode
  return constructors ++ delegatecalls ++ selfdestructs ++ state ++ linking

/-- The signatures of a contract's public and external functions. -/
def publicMethods (contract : Json) : Except Failure (List String) :=
  (search ["FunctionDefinition"] contract).collect fun f => do
    let visibility := (← f.get "visibility").text?
    if visibility != some "public" && visibility != some "external" then return []
    if (← f.get "kind").text? != some "function" then return []
    let parameters ← ((← f.get "parameters").orElse (.obj [])).getOr "parameters" (.arr [])
    let types ← (← parameters.elements).mapM fun p => do
      let description := (← p.get "typeDescriptions").orElse (.obj [])
      match ← description.getOr "typeString" (.str "") with
      | .str s => return ((s.splitOn " ").head?).getD ""
      | _ => throw (.fault .notAnObject)
    return [(← f.get "name").display ++ "(" ++ ",".intercalate types ++ ")"]

end UpgradeSafety.Safety
