import UpgradeSafety.Manifest.Store

/-!
# Reusing deployments

A recorded deployment is used again if its address has code on the chain; otherwise the contract is
deployed and recorded. A deployment whose address turns out to have no code is struck off the
records again, unless they name another transaction by then.
-/

namespace UpgradeSafety.Manifest

/-- A place in the records that holds one deployment, if any. -/
structure Slot (δ : Type) where
  /-- What is deployed there. -/
  description : String
  get : Records → Option δ
  set : Records → Option δ → Records
  address : δ → String
  txHash : δ → Option String

/-- The place of the implementation of a version. -/
def Slot.implementation (version : String) : Slot Implementation where
  description := "implementation"
  get r := r.deployment? version
  set r
    | some i => r.putDeployment version i
    | none => r.dropDeployment version
  address := (·.address)
  txHash := (·.txHash)

/-- The place of the admin. -/
def Slot.admin : Slot Admin where
  description := "admin"
  get := (·.admin)
  set := Records.setAdmin
  address := (·.address)
  txHash := (·.txHash)

namespace Store

variable {σ δ : Type}

/-- The deployment in a slot if its address has code, and otherwise a new one. -/
def reuse (s : Store) (slot : Slot δ) (deploy : StateM σ (Except Failure δ))
    (hasCode : String → StateM σ Bool) (handle : Handle) : Act σ δ := do
  let anew : Act σ δ := do
    let d ← Act.ofResult (← Act.outside deploy)
    change handle fun r => slot.set r (some d)
    Act.tell [s.note .deployed ("Deployed " ++ slot.description ++ " at " ++ slot.address d)]
    return d
  match slot.get (← handed handle) with
  | none => anew
  | some known =>
    if ← Act.outside (hasCode (slot.address known)) then return known
    else
      Act.tell [s.note .codeMissing ("Recorded " ++ slot.description ++ " at " ++
        slot.address known ++ " has no code; redeploying")]
      anew

/-- Empties a slot that still holds a deployment of the same transaction. -/
def strikeOff (slot : Slot δ) (d : δ) (r : Records) : Records :=
  match slot.get r with
  | some known => if slot.txHash known == slot.txHash d then slot.set r none else r
  | none => r

/-- The deployment in a slot, deployed anew if need be. Refused, and struck off, if its address has
no code. -/
def reuseOrDeploy (s : Store) (slot : Slot δ) (deploy : StateM σ (Except Failure δ))
    (hasCode : String → StateM σ Bool) : Act σ δ := do
  let d ← s.withRecords (s.reuse slot deploy hasCode)
  if ← Act.outside (hasCode (slot.address d)) then return d
  else
    s.update (strikeOff slot d)
    Act.refuse (.noCode (slot.address d))

end Store

end UpgradeSafety.Manifest
