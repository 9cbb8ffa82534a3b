import UpgradeSafety.Proofs.Syntax.Undocumented
import UpgradeSafety.Safety.Checks

/-!
# Findings

What is unsafe in a contract whatever its documentation allows: each error together with the nodes
around the node that it is about (`findings`). A finding is allowed if one of these nodes, the node
itself or one that encloses it in the contract, has an annotation with the kind of the error
(`Finding.isAllowed`).

This is the specification of the checks. It separates what they interleave: what is unsafe is
computed at each spot of the tree without a look at annotations, and what is allowed is decided
from the nodes around the spot. Constructors and calls are found anywhere in the tree. State
variables are only those of the contract itself, so nothing but the contract encloses them, and the
libraries that a bytecode is to be linked with are about the contract as a whole.

The lemmas at the end bring the checks of the program into the same form: errors at a spot are of
one kind and allowed together (`unallowed_findingsAt`).
-/

namespace UpgradeSafety.Safety

open Syntax

deriving instance DecidableEq for SafetyError

/-- An error, and the nodes around the node that it is about: first that node, last the contract. -/
structure Finding where
  error : SafetyError
  around : List Json

/-- The kinds that a node's annotations allow. -/
def allowedKinds (node : Json) : List SafetyKind := (allowedBy node).toOption.getD []

/-- Whether an annotation of one of some nodes allows a kind. -/
def allowedAround (kind : SafetyKind) (around : List Json) : Bool :=
  around.any fun node => decide (kind ∈ allowedKinds node)

/-- Whether a finding is allowed at its node or around it. -/
def Finding.isAllowed (f : Finding) : Bool := allowedAround f.error.kind f.around

/-! ## What is unsafe -/

/-- What is unsafe about a function as a constructor. -/
def constructorAt (contract : Json) (locate : Locate) (f : Json) :
    Except Failure (List SafetyError) := do
  if (← f.get "kind").text? != some "constructor" then return []
  let statements ← ((← f.get "body").orElse (.obj [])).get "statements"
  let relevant ← if statements.truthy then pure true else pure (← f.get "modifiers").truthy
  if relevant then
    return [{ kind := .constructor, src := .str (← locate f), contract := ← contract.get "name" }]
  else return []

/-- What is unsafe about a call of functions whose type begins with a word. -/
def callAt (kind : SafetyKind) (word : String) (locate : Locate) (call : Json) :
    Except Failure (List SafetyError) := do
  let expression ← call.getOr "expression" (.obj [])
  let description := (← expression.get "typeDescriptions").orElse (.obj [])
  match (← description.get "typeIdentifier").orElse (.str "") with
  | .str type =>
    if beginsWith word type then return [{ kind, src := .str (← locate call) }] else return []
  | _ => throw (.fault .wrongSort)

/-- An error about a declaration. -/
def declarationAt (kind : SafetyKind) (locate : Locate) (declaration : Json) :
    Except Failure (List SafetyError) := do
  return [{ kind, src := .str (← locate declaration), name := ← declaration.get "name" }]

/-- Some errors unless a value is absent. -/
def unlessNull (errors : Except Failure (List SafetyError)) : Json →
    Except Failure (List SafetyError)
  | .null => pure []
  | _ => errors

/-- What is unsafe about a variable with an initial value, unless it is a constant. `judge` gives the
errors for a kind. -/
def assignedWith (judge : SafetyKind → Json → Except Failure (List SafetyError)) (v : Json) :
    Except Failure (List SafetyError) := do
  if !(← v.get "constant").truthy then
    unlessNull (judge .stateVariableAssignment v) (← v.get "value")
  else pure []

/-- What is unsafe about a variable that is immutable. -/
def immutableWith (judge : SafetyKind → Json → Except Failure (List SafetyError)) (v : Json) :
    Except Failure (List SafetyError) := do
  if (← v.get "mutability").text? == some "immutable" then judge .stateVariableImmutable v
  else pure []

/-- What is unsafe about what stands in a contract as a state variable. -/
def variableWith (judge : SafetyKind → Json → Except Failure (List SafetyError)) (v : Json) :
    Except Failure (List SafetyError) := do
  if (← v.get "nodeType").text? != some "VariableDeclaration" then return []
  let assigned ← assignedWith judge v
  let immutable ← immutableWith judge v
  return assigned ++ immutable

/-- The libraries that a bytecode is to be linked with. -/
def linkingAt (bytecode : Json) : Except Failure (List SafetyError) := do
  let references ← ((← bytecode.get "linkReferences").orElse (.obj [])).entries
  let parts ← references.mapM fun (source, libraries) => do
    return (← libraries.elements).map fun library =>
      { kind := .externalLibraryLinking, src := .str source, name := library }
  return parts.flatten

/-- Errors as findings at a spot. -/
def findingsAt (s : Spot) (errors : List SafetyError) : List Finding :=
  errors.map fun error => ⟨error, s.around⟩

/-- What a judge of nodes finds at a spot. -/
def foundAt (judge : Json → Except Failure (List SafetyError)) (s : Spot) :
    Except Failure (List Finding) := (judge s.node).map (findingsAt s)

/-- What a judge finds at the objects of some types in a contract's tree. -/
def treeFindings (wanted : List String) (judge : Json → Except Failure (List SafetyError))
    (contract : Json) : Except Failure (List Finding) :=
  ((ofTypes wanted (spots [] contract)).mapM (foundAt judge)).map List.flatten

/-- What is unsafe about a contract's state variables, each of which only the contract encloses. -/
def stateFindings (contract : Json) (locate : Locate) : Except Failure (List Finding) := do
  let nodes ← (← contract.getOr "nodes" (.arr [])).elements
  (nodes.mapM fun v =>
    foundAt (variableWith fun kind => declarationAt kind locate) ⟨v, [v, contract]⟩).map List.flatten

/-- All that is unsafe in a contract, whatever is allowed: the constructors and the calls anywhere in its
tree, its state variables, and the libraries that its bytecode is to be linked with. -/
def findings (contract bytecode : Json) (locate : Locate) : Except Failure (List Finding) := do
  let constructors ← treeFindings ["FunctionDefinition"] (constructorAt contract locate) contract
  let delegatecalls ← treeFindings ["FunctionCall"]
    (callAt .delegatecall "t_function_baredelegatecall_" locate) contract
  let selfdestructs ← treeFindings ["FunctionCall"]
    (callAt .selfdestruct "t_function_selfdestruct_" locate) contract
  let state ← stateFindings contract locate
  let linking ← foundAt (fun _ => linkingAt bytecode) ⟨contract, [contract]⟩
  return constructors ++ delegatecalls ++ selfdestructs ++ state ++ linking

/-! ## Findings at a spot -/

section

variable {s : Spot} {errors : List SafetyError}

theorem map_error_findingsAt : (findingsAt s errors).map (·.error) = errors := by
  rw [findingsAt, List.map_map]
  exact List.map_id _

/-- Errors of one kind at a spot are allowed together. -/
theorem unallowed_findingsAt {kind : SafetyKind} (hkind : ∀ e ∈ errors, e.kind = kind) :
    ((findingsAt s errors).filter (!·.isAllowed)).map (·.error) =
      if allowedAround kind s.around then [] else errors := by
  have hallowed : ∀ f ∈ findingsAt s errors, f.isAllowed = allowedAround kind s.around := by
    intro f hf
    obtain ⟨error, herror, rfl⟩ := List.mem_map.mp hf
    rw [Finding.isAllowed, hkind error herror]
  cases hcase : allowedAround kind s.around with
  | true =>
    rw [List.filter_eq_nil_iff.mpr fun f hf => by simp [hallowed f hf, hcase]]
    rfl
  | false =>
    rw [List.filter_eq_self.mpr fun f hf => by simp [hallowed f hf, hcase], map_error_findingsAt]
    rfl

theorem foundAt_of_ok {judge : Json → Except Failure (List SafetyError)}
    (h : judge s.node = .ok errors) : foundAt judge s = .ok (findingsAt s errors) := by
  rw [foundAt, h]
  rfl

end

/-! ## The checks -/

variable {contract bytecode : Json} {locate : Locate}

theorem variableErrors_eq (contract : Json) (locate : Locate) :
    variableErrors contract locate = (do
      let nodes ← (← contract.getOr "nodes" (.arr [])).elements
      let parts ← nodes.mapM (variableWith fun kind v => variableError kind contract v locate)
      return parts.flatten) := by
  unfold variableErrors
  refine bind_congr fun _ => bind_congr fun nodes => congrArg (· >>= _) (congrArg (nodes.mapM ·) ?_)
  funext v
  have himmutable : ∀ assigned : List SafetyError, (do
      if (← v.get "mutability").text? == some "immutable" then
        let immutable ← variableError .stateVariableImmutable contract v locate
        return assigned ++ immutable
      else
        let immutable ← pure []
        return assigned ++ immutable) = (do
      let immutable ← immutableWith (fun kind v => variableError kind contract v locate) v
      return assigned ++ immutable) := by
    intro assigned
    unfold immutableWith
    rw [bind_assoc]
    refine bind_congr fun mutability : Json => ?_
    cases mutability.text? == some "immutable" <;> rfl
  unfold variableWith assignedWith
  simp only [himmutable, bind_assoc]
  refine bind_congr fun type : Json => ?_
  split
  · rfl
  · refine bind_congr fun constant : Json => ?_
    cases !constant.truthy with
    | true =>
      rw [if_pos rfl, if_pos rfl, bind_assoc]
      refine bind_congr fun value : Json => ?_
      cases value <;> rfl
    | false => rfl

theorem linkingErrors_eq (contract bytecode : Json) :
    linkingErrors contract bytecode = (do
      if ← allows .externalLibraryLinking contract then return []
      linkingAt bytecode) := rfl

end UpgradeSafety.Safety
