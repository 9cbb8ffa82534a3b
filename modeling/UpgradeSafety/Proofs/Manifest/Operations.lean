import UpgradeSafety.Proofs.Manifest.Addresses
import UpgradeSafety.Proofs.Manifest.Lasting

/-!
# Operations on records

The operations of a store as data, what each of them makes of records in memory and what it answers
(`Operation.change`, `Operation.answer`), and a sequence of operations one after another (`replay`,
`answers`). They keep the order of versions and beacons (`keysIn_replay`).

This is the specification that stores are compared with: pure functions on a set of records,
without files, locks, drafts or a log. An operation that looks something up changes nothing and may
be refused; all others succeed. What is written depends on what was recorded, so the conditions are
put on the operations: that what they record can be read back (`Operation.Storable`), can be
written as well (`Operation.Proper`), and is written as before once it was read back
(`Operation.Explicit`). Each of them passes from the operations to the records after a sequence of
them. Keys are only ever added behind those that are there, which lookups that take the first match
depend on.
-/

namespace UpgradeSafety.Manifest

open Json

/-! ## Operations and their answers -/

/-- An operation on the records of a network. -/
inductive Operation where
  | addProxy (proxy : Proxy)
  | removeProxy (address : String)
  | addDeployment (version : String) (i : Implementation)
  | setAdmin (admin : Option Admin)
  | addBeacon (beacon : Beacon)
  | proxyAt (address : String)
  | deployment (version : String)
  | deploymentAt (address : String)
  | admin
  | beaconAt (address : String)

/-- What an operation returns. -/
inductive Answer where
  | done
  | proxy (proxy : Proxy)
  | implementation (i : Implementation)
  | admin (admin : Admin)
  | beacon (beacon : Beacon)

namespace Operation

/-- What an operation makes of records. -/
def change : Operation → Records → Records
  | .addProxy proxy, r => r.addProxy proxy
  | .removeProxy address, r => r.removeProxy address
  | .addDeployment version i, r => r.addDeployment version i
  | .setAdmin a, r => r.setAdmin a
  | .addBeacon beacon, r => r.addBeacon beacon
  | .proxyAt _, r | .deployment _, r | .deploymentAt _, r | .admin, r | .beaconAt _, r => r

/-- What was looked up, or a refusal if there is none. -/
def lookedUp {α : Type} (missing : Refusal) : Option α → Except Failure α
  | some a => .ok a
  | none => .error (.refused missing)

/-- What an operation returns or raises on the records of a network. -/
def answer (network : String) : Operation → Records → Except Failure Answer
  | .proxyAt address, r => (lookedUp (.unknownProxy address) (r.proxyAt? address)).map .proxy
  | .deployment version, r =>
    (lookedUp (.unknownVersion version) (r.deployment? version)).map .implementation
  | .deploymentAt address, r =>
    (lookedUp (.unknownImplementation address) (r.deploymentAt? address)).map .implementation
  | .admin, r => (lookedUp (.noAdmin network) r.admin).map .admin
  | .beaconAt address, r => (lookedUp (.unknownBeacon address) (r.beaconAt? address)).map .beacon
  | .addProxy _, _ | .removeProxy _, _ | .addDeployment _ _, _ | .setAdmin _, _
  | .addBeacon _, _ => .ok .done

/-- What an operation records satisfies `I` if it is an implementation, and `B` if it is a beacon. -/
def Satisfies (I : Implementation → Prop) (B : Beacon → Prop) : Operation → Prop
  | .addDeployment _ i => I i
  | .addBeacon b => B b
  | _ => True

end Operation

/-- Records after a sequence of operations. -/
def replay (operations : List Operation) (r : Records) : Records :=
  operations.foldl (fun r o => o.change r) r

/-- What the operations of a sequence return or raise, one after another. -/
def answers (network : String) : List Operation → Records → List (Except Failure Answer)
  | [], _ => []
  | o :: operations, r => o.answer network r :: answers network operations (o.change r)

theorem replay_cons (o : Operation) (operations : List Operation) (r : Records) :
    replay (o :: operations) r = replay operations (o.change r) := rfl

theorem replay_append (operations others : List Operation) (r : Records) :
    replay (operations ++ others) r = replay others (replay operations r) :=
  List.foldl_append

theorem answers_append (network : String) (operations others : List Operation) (r : Records) :
    answers network (operations ++ others) r =
      answers network operations r ++ answers network others (replay operations r) := by
  induction operations generalizing r with
  | nil => rfl
  | cons o operations ih => rw [List.cons_append, answers, answers, ih, List.cons_append, replay_cons]

/-! ## Records that can be read back -/

/-- An operation looks something up and changes nothing. -/
def Operation.isLookup : Operation → Bool
  | .proxyAt _ | .deployment _ | .deploymentAt _ | .admin | .beaconAt _ => true
  | .addProxy _ | .removeProxy _ | .addDeployment _ _ | .setAdmin _ | .addBeacon _ => false

theorem Operation.change_of_isLookup {o : Operation} (h : o.isLookup = true) (r : Records) :
    o.change r = r := by
  cases o with
  | proxyAt _ | deployment _ | deploymentAt _ | admin | beaconAt _ => rfl
  | addProxy _ | removeProxy _ | addDeployment _ _ | setAdmin _ | addBeacon _ => cases h

theorem Operation.isOk_answer {o : Operation} (h : o.isLookup = false) (network : String)
    (r : Records) : (o.answer network r).isOk = true := by
  cases o with
  | proxyAt _ | deployment _ | deploymentAt _ | admin | beaconAt _ => cases h
  | addProxy _ | removeProxy _ | addDeployment _ _ | setAdmin _ | addBeacon _ => rfl

/-- What is recorded can be read back. -/
def Operation.Storable (o : Operation) : Prop :=
  o.Satisfies Implementation.Storable fun b => ∀ abi ∈ b.abi, ∀ v ∈ abi, v.IsTidy

/-- What is recorded can be written and read back. -/
def Operation.Proper (o : Operation) : Prop := o.Satisfies Implementation.Proper Beacon.Proper

/-- What is recorded has explicit layouts. -/
def Operation.Explicit (o : Operation) : Prop := o.Satisfies Implementation.Explicit fun _ => True

theorem Operation.Proper.storable {o : Operation} (h : o.Proper) : o.Storable := by
  cases o with
  | addDeployment version i =>
    have hi : i.Proper := h
    exact hi.storable
  | addBeacon b => exact fun abi habi => (h abi habi).1
  | addProxy _ | removeProxy _ | setAdmin _ | proxyAt _ | deployment _ | deploymentAt _ | admin
  | beaconAt _ => trivial

namespace Operation

variable {o : Operation} {r : Records}

theorem sound_change (h : r.Sound) (ho : o.Storable) : (o.change r).Sound := by
  have hstorable := h.storable
  cases o with
  | addProxy _ | removeProxy _ | setAdmin _ => exact ⟨⟨hstorable.impls, hstorable.beacons,
      hstorable.impls_nodup, hstorable.beacons_nodup⟩, h.version⟩
  | addDeployment version i =>
    refine ⟨hstorable.addDeployment version ho, ?_⟩
    rw [change, Records.addDeployment_eq]
    exact h.version
  | addBeacon b =>
    refine ⟨⟨hstorable.impls, fun e he => ?_, hstorable.impls_nodup,
      nodup_putField hstorable.beacons_nodup⟩, h.version⟩
    rcases mem_putField he with rfl | he
    · exact ho
    · exact hstorable.beacons e he
  | proxyAt _ | deployment _ | deploymentAt _ | admin | beaconAt _ => exact h

theorem proper_change (h : r.Proper) (ho : o.Proper) : (o.change r).Proper := by
  cases o with
  | addProxy _ | removeProxy _ | setAdmin _ =>
    exact ⟨h.version, h.impls, h.beacons, h.impls_nodup, h.beacons_nodup⟩
  | addDeployment version i => exact h.addDeployment version ho
  | addBeacon b => exact h.addBeacon ho
  | proxyAt _ | deployment _ | deploymentAt _ | admin | beaconAt _ => exact h

theorem explicit_change (h : r.Explicit) (ho : o.Explicit) : (o.change r).Explicit := by
  cases o with
  | addDeployment version i =>
    have hi : i.Explicit := ho
    intro e he
    rw [change, Records.addDeployment_eq] at he
    rcases mem_putField he with rfl | he
    · unfold Implementation.redeployed
      split
      · split
        · exact hi
        · exact ⟨hi.layout, hi.allVersions⟩
      · exact hi
    · exact h e he
  | addProxy _ | removeProxy _ | setAdmin _ | addBeacon _ | proxyAt _ | deployment _
  | deploymentAt _ | admin | beaconAt _ => exact h

end Operation

theorem Implementation.explicit_bare (address : String) : (bare address).Explicit where
  layout :=
    { version := Option.some_ne_none _
      storage := List.forall_mem_nil _
      members := List.forall_mem_nil _
      namespaces := List.forall_mem_nil _ }
  allVersions := fun _ h => absurd h (Option.not_mem_none _)

theorem sound_replay {operations : List Operation} {r : Records} (h : r.Sound)
    (ho : ∀ o ∈ operations, o.Storable) : (replay operations r).Sound := by
  induction operations generalizing r with
  | nil => exact h
  | cons o operations ih =>
    rw [List.forall_mem_cons] at ho
    exact ih (Operation.sound_change h ho.1) ho.2

theorem proper_replay {operations : List Operation} {r : Records} (h : r.Proper)
    (ho : ∀ o ∈ operations, o.Proper) : (replay operations r).Proper := by
  induction operations generalizing r with
  | nil => exact h
  | cons o operations ih =>
    rw [List.forall_mem_cons] at ho
    exact ih (Operation.proper_change h ho.1) ho.2

theorem explicit_replay {operations : List Operation} {r : Records} (h : r.Explicit)
    (ho : ∀ o ∈ operations, o.Explicit) : (replay operations r).Explicit := by
  induction operations generalizing r with
  | nil => exact h
  | cons o operations ih =>
    rw [List.forall_mem_cons] at ho
    exact ih (Operation.explicit_change h ho.1) ho.2

/-! ## Keys -/

/-- The versions and beacons of records are listed first in others. -/
structure Records.KeysIn (r r' : Records) : Prop where
  impls : r.impls.map (·.1) <+: r'.impls.map (·.1)
  beacons : r.beacons.map (·.1) <+: r'.beacons.map (·.1)

theorem Records.KeysIn.refl (r : Records) : r.KeysIn r := ⟨List.prefix_refl _, List.prefix_refl _⟩

theorem Records.KeysIn.trans {r r' r'' : Records} (h : r.KeysIn r') (h' : r'.KeysIn r'') :
    r.KeysIn r'' :=
  ⟨h.impls.trans h'.impls, h.beacons.trans h'.beacons⟩

theorem Operation.keysIn_change (o : Operation) (r : Records) :
    r.KeysIn (o.change r) := by
  cases o with
  | addDeployment version i =>
    rw [change, Records.addDeployment_eq]
    exact ⟨keys_prefix_putField, List.prefix_refl _⟩
  | addBeacon b => exact ⟨List.prefix_refl _, keys_prefix_putField⟩
  | addProxy _ | removeProxy _ | setAdmin _ | proxyAt _ | deployment _ | deploymentAt _ | admin
  | beaconAt _ => exact ⟨List.prefix_refl _, List.prefix_refl _⟩

theorem keysIn_replay (operations : List Operation) (r : Records) :
    r.KeysIn (replay operations r) := by
  induction operations generalizing r with
  | nil => exact .refl r
  | cons o operations ih => exact (o.keysIn_change r).trans (ih _)

end UpgradeSafety.Manifest
