import UpgradeSafety.Proofs.Manifest.Programs

/-!
# Lookups by address

Beacons are kept by the exact text of their address, and implementations by their version, but both
are looked up by address in whatever letter case, and the first one is found. So a lookup finds the
latest beacon of the spelling that was recorded first (`performAll_beaconAt`), and the
implementation of the first version that is or was at the address (`deploymentAt_addDeployment`),
which need not be the one that was recorded last.

A table keeps a key in the place where it was entered first and gives it the value that was put
last. So the order of the keys is that of their first occurrences, and the entry that is found has
the first key that satisfies a condition (`find?_keys`), with its latest value. For beacons the
condition is about the key, and the whole sequence can be told from the operations; for
implementations it is about the value, so one step is told at a time, by the versions that stand
before the one that is recorded.
-/

namespace UpgradeSafety.Manifest

open Stateful Json Store

/-! ## The order of keys -/

theorem keys_putField {α : Type} (key : String) (value : α) (entries : List (String × α)) :
    (putField key value entries).map (·.1) =
      if key ∈ entries.map (·.1) then entries.map (·.1) else entries.map (·.1) ++ [key] := by
  induction entries with
  | nil => rfl
  | cons e entries ih =>
    obtain ⟨k, v⟩ := e
    rw [putField]
    by_cases hk : k = key
    · subst hk
      rw [if_pos (by simp), if_pos (by simp)]
      rfl
    · rw [if_neg (by simpa using hk), List.map_cons, ih]
      simp only [List.map_cons, List.mem_cons, Ne.symm hk, false_or]
      split <;> rfl

/-- The first entry whose key satisfies a condition is the entry of the first such key. -/
theorem find?_keys {α : Type} {entries : List (String × α)} (p : String → Bool)
    (hnodup : (entries.map (·.1)).Nodup) :
    (entries.find? fun e => p e.1).map (·.2) =
      ((entries.map (·.1)).find? p).bind fun key => entries.lookup key := by
  rw [List.find?_map]
  cases hfind : entries.find? (p ∘ (·.1)) with
  | none =>
    rw [show (fun e : String × α => p e.1) = p ∘ (·.1) from rfl, hfind]
    rfl
  | some e =>
    rw [show (fun e : String × α => p e.1) = p ∘ (·.1) from rfl, hfind]
    exact (lookup_of_mem hnodup (List.mem_of_find?_eq_some hfind)).symm

/-! ## Beacons -/

/-- The beacon that an operation records, if any. -/
def Operation.beacon? : Operation → Option Beacon
  | .addBeacon beacon => some beacon
  | _ => none

/-- The beacons that a sequence of operations records. -/
def beaconsOf (operations : List Operation) : List Beacon := operations.filterMap (·.beacon?)

/-- The spelling of an address that was recorded first. -/
def firstSpelling? (beacons : List Beacon) (address : String) : Option String :=
  (beacons.map (·.address)).find? (sameAddress · address)

/-- The beacon that was recorded last under the spelling of an address that was recorded first. -/
def beaconFound? (beacons : List Beacon) (address : String) : Option Beacon :=
  (firstSpelling? beacons address).bind fun key => beacons.reverse.find? (·.address == key)

/-- Beacons recorded one after another in a table by their address. -/
def beaconTable (beacons : List Beacon) : List (String × Beacon) :=
  beacons.foldl (fun table b => putField b.address b table) []

theorem beaconTable_append (beacons : List Beacon) (b : Beacon) :
    beaconTable (beacons ++ [b]) = putField b.address b (beaconTable beacons) := by
  rw [beaconTable, List.foldl_append]
  rfl

theorem nodup_beaconTable (beacons : List Beacon) : ((beaconTable beacons).map (·.1)).Nodup := by
  induction beacons using List.reverseRecOn with
  | nil => exact List.nodup_nil
  | append_singleton beacons b ih =>
    rw [beaconTable_append]
    exact nodup_putField ih

/-- The table has the beacon that was recorded last for each spelling. -/
theorem lookup_beaconTable (beacons : List Beacon) (key : String) :
    (beaconTable beacons).lookup key = beacons.reverse.find? (·.address == key) := by
  induction beacons using List.reverseRecOn with
  | nil => rfl
  | append_singleton beacons b ih =>
    rw [beaconTable_append, List.reverse_append, List.reverse_singleton, List.singleton_append,
      List.find?_cons]
    by_cases hkey : key = b.address
    · subst hkey
      rw [lookup_putField_self, beq_self_eq_true]
    · rw [lookup_putField_other hkey, ih, beq_false_of_ne (Ne.symm hkey)]

/-- The table has the spellings in the order in which they were recorded first. -/
theorem find?_keys_beaconTable (beacons : List Beacon) (address : String) :
    ((beaconTable beacons).map (·.1)).find? (sameAddress · address) =
      firstSpelling? beacons address := by
  unfold firstSpelling?
  induction beacons using List.reverseRecOn with
  | nil => rfl
  | append_singleton beacons b ih =>
    rw [beaconTable_append, keys_putField, List.map_append, List.find?_append, ← ih]
    split
    · rename_i hmem
      cases hfind : ((beaconTable beacons).map (·.1)).find? (sameAddress · address) with
      | some key => rfl
      | none =>
        have hother := List.find?_eq_none.mp hfind _ hmem
        simp [hother]
    · rw [List.find?_append]
      rfl

theorem beacons_replay (operations : List Operation) :
    (replay operations {}).beacons = beaconTable (beaconsOf operations) := by
  induction operations using List.reverseRecOn with
  | nil => rfl
  | append_singleton operations o ih =>
    rw [replay_append, beaconsOf, List.filterMap_append]
    cases o with
    | addBeacon b =>
      refine Eq.trans ?_ (beaconTable_append (beaconsOf operations) b).symm
      rw [← ih]
      rfl
    | addDeployment version i =>
      refine Eq.trans ?_ (ih.trans (congrArg beaconTable (List.append_nil _).symm))
      rw [replay_cons, Operation.change, Records.addDeployment_eq]
      rfl
    | addProxy _ | removeProxy _ | setAdmin _ | proxyAt _ | deployment _ | deploymentAt _ | admin
    | beaconAt _ => exact ih.trans (congrArg beaconTable (List.append_nil _).symm)

theorem beaconAt?_replay (operations : List Operation) (address : String) :
    (replay operations {}).beaconAt? address = beaconFound? (beaconsOf operations) address := by
  rw [Records.beaconAt?, beacons_replay]
  refine (find?_keys (sameAddress · address) (nodup_beaconTable _)).trans ?_
  rw [find?_keys_beaconTable]
  simp only [lookup_beaconTable]
  rfl

theorem Implementation.Alike.txHash {i j : Implementation} (h : i.Alike j) :
    i.txHash = j.txHash := by
  unfold Alike at h
  rw [toJson_eq, toJson_eq] at h
  have htxHash := lookup_of_same_obj (keys_fields i) h "txHash"
  simp [fields, deploymentFields, lookup_cons_eq, rel_map_iff] at htxHash
  exact eq_of_rel_eq (fun _ _ => text_eq_of_same) htxHash

theorem Beacon.Alike.txHash {b c : Beacon} (h : b.Alike c) : b.txHash = c.txHash := by
  unfold Alike at h
  rw [toJson, toJson] at h
  have hkeys : ((deploymentFields b.address b.txHash ++ fieldIf "abi" abiJson b.abi).map
      (·.1)).Nodup := by
    rw [deploymentFields, List.map_append, List.map_cons]
    exact (((keys_fieldIf _ _).cons_cons "address").append (keys_fieldIf _ _)).nodup (by decide)
  have htxHash := lookup_of_same_obj hkeys h "txHash"
  simp [deploymentFields, lookup_cons_eq, rel_map_iff] at htxHash
  exact eq_of_rel_eq (fun _ _ => text_eq_of_same) htxHash

variable {σ : Type} {s : Store} {w w' : Workspace σ} {r : Records}

/-- After turns of stores of one place that started from no records, a lookup finds the beacon that was
recorded last under the spelling of its address that was recorded first, and is refused if none was
recorded under any spelling. -/
theorem performAll_beaconAt {turns : List (Store × Turn)} (h : s.AtRest w {})
    (hturns : Rounds s w turns) (ho : ∀ c ∈ turns, ∀ o ∈ c.2.operations, o.Storable) :
    ∃ results w', (performAll turns).run.run w = (.ok results, w') ∧ Succeed turns results ∧
      ∀ address, ∃ result w'', (s.beaconAt address).run.run w' = (result, w'') ∧
        match beaconFound? (beaconsOf (recorded turns results)) address with
        | some b => ∃ c, result = .ok c ∧ b.Alike c
        | none => result = .error (.refused (.unknownBeacon address)) := by
  obtain ⟨w', results, r, hrun, -, h', hsucceed, hm⟩ :=
    performAll_atRest likeness_samePlaces h Records.agree_empty hturns ho
      fun _ _ => lasts_samePlaces _
  refine ⟨results, w', hrun, hsucceed, fun address => ?_⟩
  obtain ⟨w'', hfind, -⟩ := h'.run_find (·.beaconAt? address) (.unknownBeacon address)
  refine ⟨_, w'', hfind, ?_⟩
  rw [← beaconAt?_replay]
  have hrel := hm.beaconAt? address
  generalize (replay (recorded turns results) {}).beaconAt? address = x at hrel
  generalize r.beaconAt? address = y at hrel
  cases hrel with
  | none => rfl
  | some halike => exact ⟨_, rfl, halike⟩

/-- Two beacons are recorded under one address in two letter cases. -/
def twoBeacons : List Operation :=
  [.addBeacon ⟨"0xa", some "0x1", none⟩, .addBeacon ⟨"0xA", some "0x2", none⟩]

theorem performAll_beaconAt_twoBeacons : ∃ results w',
    (performAll (mainTurns twoBeacons)).run.run emptyWorkspace = (.ok results, w') ∧
      Succeed (mainTurns twoBeacons) results ∧
      ∀ address, ∃ result w'', (mainStore.beaconAt address).run.run w' = (result, w'') ∧
        match beaconFound? (beaconsOf (recorded (mainTurns twoBeacons) results)) address with
        | some b => ∃ c, result = .ok c ∧ b.Alike c
        | none => result = .error (.refused (.unknownBeacon address)) := by
  refine performAll_beaconAt atRest_mainStore (rounds_mainTurns _) (forall_mainTurns fun o ho => ?_)
  fin_cases ho <;> exact nofun

/-- The beacon that was recorded last is not found, even in the letter case in which it was recorded. -/
theorem beaconAt_stale : ∃ results w' c w'',
    (performAll (mainTurns twoBeacons)).run.run emptyWorkspace = (.ok results, w') ∧
      (∀ result ∈ results, result.isOk = true) ∧
      (mainStore.beaconAt "0xA").run.run w' = (.ok c, w'') ∧ c.txHash = some "0x1" := by
  have hproper : ∀ o ∈ twoBeacons, o.Proper ∧ o.Explicit ∧ o.isLookup = false := by
    intro o ho
    fin_cases ho <;> exact ⟨nofun, trivial, rfl⟩
  obtain ⟨w', results, r, hrun, hok, h', hm⟩ := performAll_mainTurns hproper
  obtain ⟨w'', hfind, -⟩ := h'.run_find (·.beaconAt? "0xA") (.unknownBeacon "0xA")
  have hrel := hm.beaconAt? "0xA"
  have hfirst : (replay twoBeacons {}).beaconAt? "0xA" = some ⟨"0xa", some "0x1", none⟩ := rfl
  rw [hfirst] at hrel
  obtain ⟨c, hc, halike⟩ := exists_of_rel_some hrel
  rw [hc] at hfind
  exact ⟨results, w', c, w'', hrun, hok, hfind, halike.txHash.symm⟩

/-! ## Implementations -/

/-- The first version that is found at an address after an implementation was recorded there: one that
stands before the version of that implementation and is or was at the address, or that version. -/
def firstVersionAt (r : Records) (version address : String) : String :=
  (((r.impls.takeWhile (·.1 != version)).find? (·.2.hasAddress address)).map (·.1)).getD version

/-- What is found first when a value that satisfies a condition was put into a table. -/
theorem find?_putField {α : Type} {p : α → Bool} {value : α} (h : p value = true) (key : String)
    (entries : List (String × α)) :
    (putField key value entries).find? (fun e => p e.2) =
      some (((entries.takeWhile (·.1 != key)).find? fun e => p e.2).getD (key, value)) := by
  induction entries with
  | nil => simp [putField, h]
  | cons e entries ih =>
    obtain ⟨k, v⟩ := e
    rw [putField]
    by_cases hk : k = key
    · subst hk
      simp [h]
    · rw [if_neg (by simpa using hk), List.takeWhile_cons_of_pos (by simpa using hk),
        List.find?_cons, List.find?_cons]
      cases p v with
      | true => rfl
      | false => exact ih

/-- An implementation is at its address, wherever its version was deployed before. -/
theorem Implementation.hasAddress_redeployed {address : String} (d : Implementation)
    (h : sameAddress d.address address = true) (known : Option Implementation) :
    (d.redeployed known).hasAddress address = true := by
  have hsame : (d.redeployed known).address = d.address := by
    unfold redeployed
    split
    · split <;> rfl
    · rfl
  rw [hasAddress, hsame, h, Bool.true_or]

/-- What a lookup by address finds is the record of the version that is found first. -/
theorem deploymentAt?_eq {r' : Records} {version address : String} {d : Implementation}
    (hr' : r'.Proper) (haddress : sameAddress d.address address = true)
    (hm : (r.addDeployment version d).Agree Implementation.SamePlaces r') :
    ∃ i, r'.deploymentAt? address = some i ∧
      r'.deployment? (firstVersionAt r version address) = some i := by
  have hself := d.hasAddress_redeployed haddress (r.deployment? version)
  have hrel := rel_find? (p := fun e => e.2.hasAddress address)
    (q := fun e => e.2.hasAddress address) hm.impls fun e f hef => hef.2.hasAddress address
  have hfirst : (r.addDeployment version d).impls.find? (fun e => e.2.hasAddress address) =
      some (((r.impls.takeWhile (·.1 != version)).find? fun e => e.2.hasAddress address).getD
        (version, d.redeployed (r.deployment? version))) := by
    rw [Records.addDeployment_eq]
    exact find?_putField (p := (·.hasAddress address)) hself version r.impls
  obtain ⟨e, hfound, hkey, -⟩ := exists_of_rel_some (hfirst ▸ hrel)
  have hversion : firstVersionAt r version address = e.1 := by
    rw [← hkey, firstVersionAt]
    cases (r.impls.takeWhile (·.1 != version)).find? fun e => e.2.hasAddress address <;> rfl
  refine ⟨e.2, ?_, ?_⟩
  · rw [Records.deploymentAt?, List.find?_map]
    exact congrArg (Option.map (·.2)) hfound
  · rw [hversion]
    exact lookup_of_mem hr'.impls_nodup (List.mem_of_find?_eq_some hfound)

/-- A run that records an implementation and succeeds. -/
theorem Store.AtRest.ran_addDeployment {version : String} {d : Implementation} (h : s.AtRest w r)
    (hd : d.Storable) (hadd : (s.addDeployment version d).run.run w = (.ok (), w')) :
    s.Ran w w' r (r.addDeployment version d) true := by
  have hsound : (r.addDeployment version d).Sound :=
    Operation.sound_change (o := .addDeployment version d) h.proper.sound hd
  obtain ⟨w₁, result, hrun, -, hran⟩ := h.run_told (f := (·.addDeployment version d)) hsound _
  cases hrun.symm.trans hadd
  exact hran

/-- What a store holds after it recorded an implementation agrees with what was recorded. -/
theorem Store.AtRest.agree_addDeployment {version : String} {d : Implementation}
    {I : Implementation → Implementation → Prop} (h : s.AtRest w r) (hd : d.Storable)
    (hI : Likeness I) (hlasts : Lasts I [.addDeployment version d]) :
    (r.addDeployment version d).Agree I (kept r (r.addDeployment version d) true) :=
  Records.agree_kept hI (h.proper.sound.storable.addDeployment version hd)
    (Operation.keysIn_change (.addDeployment version d) r) (hlasts r h.proper h.stored)

/-- After an implementation was recorded under a version, a lookup of its address finds the record of
the first version at that address. -/
theorem deploymentAt_addDeployment {version : String} {d : Implementation} (h : s.AtRest w r)
    (hd : d.Storable) (hadd : (s.addDeployment version d).run.run w = (.ok (), w')) :
    ∃ r' i j w'', s.AtRest w' r' ∧ r'.deployment? version = some j ∧
      (d.redeployed (r.deployment? version)).SamePlaces j ∧
      (d.Explicit → (d.redeployed (r.deployment? version)).Alike j) ∧
      (s.deploymentAt d.address).run.run w' = (.ok i, w'') ∧
      r'.deployment? (firstVersionAt r version d.address) = some i := by
  have hran := h.ran_addDeployment hd hadd
  have hrecorded : (r.addDeployment version d).impls.lookup version =
      some (d.redeployed (r.deployment? version)) :=
    (r.deployment?_addDeployment version version d).trans (if_pos rfl)
  have hm := h.agree_addDeployment hd likeness_samePlaces
    (lasts_samePlaces [.addDeployment version d])
  obtain ⟨i, hi, hfirst⟩ := deploymentAt?_eq hran.rest.proper (sameAddress_refl d.address) hm
  obtain ⟨w'', hfind, -⟩ := hran.rest.run_find (·.deploymentAt? d.address)
    (.unknownImplementation d.address)
  rw [hi] at hfind
  obtain ⟨j, hj, hplaces⟩ := exists_of_rel_some (hrecorded ▸ hm.impls.lookup version)
  refine ⟨_, i, j, w'', hran.rest, hj, hplaces, fun hexplicit => ?_, hfind, hfirst⟩
  have hlasts := lasts_alike (List.forall_mem_singleton.mpr
    (show (Operation.addDeployment version d).Storable ∧
      (Operation.addDeployment version d).Explicit from ⟨hd, hexplicit⟩))
  obtain ⟨j', hj', halike⟩ := exists_of_rel_some
    (hrecorded ▸ (h.agree_addDeployment hd likeness_alike hlasts).impls.lookup version)
  cases hj.symm.trans hj'
  exact halike

theorem deploymentAt_addDeployment_bare : ∃ w' r' i j w'',
    (mainStore.addDeployment "0x1" (.bare "0xa")).run.run emptyWorkspace = (.ok (), w') ∧
      mainStore.AtRest w' r' ∧ r'.deployment? "0x1" = some j ∧
      (Implementation.redeployed none (.bare "0xa")).SamePlaces j ∧
      ((Implementation.bare "0xa").Explicit →
        (Implementation.redeployed none (.bare "0xa")).Alike j) ∧
      (mainStore.deploymentAt "0xa").run.run w' = (.ok i, w'') ∧
      r'.deployment? (firstVersionAt {} "0x1" "0xa") = some i := by
  have hbare := Implementation.proper_bare "0xa"
  have hproper := Records.proper_empty.addDeployment "0x1" hbare
  obtain ⟨w', result, hrun, hresult, -⟩ :=
    atRest_mainStore.run_told (f := (·.addDeployment "0x1" (.bare "0xa"))) hproper.sound
      [mainStore.note .implementationRecorded ("Recorded implementation " ++ "0x1" ++ " at " ++ "0xa")]
  obtain rfl := hresult.resolve_right fun himproper => himproper.1 hproper
  obtain ⟨r', i, j, w'', hrest⟩ := deploymentAt_addDeployment atRest_mainStore hbare.storable hrun
  exact ⟨w', r', i, j, w'', hrun, hrest⟩

/-- An implementation without storage that was deployed by a transaction. -/
def Implementation.sent (txHash : String) : Implementation :=
  { Implementation.bare "0xa" with txHash := some txHash }

/-- A transaction is no part of what has to be readable. -/
theorem Implementation.proper_sent (txHash : String) : (sent txHash).Proper :=
  have h := proper_bare "0xa"
  ⟨⟨h.storable.layout, h.storable.abi, h.storable.allVersions⟩, h.writable, h.abi⟩

theorem Implementation.explicit_sent (txHash : String) : (sent txHash).Explicit :=
  have h := explicit_bare "0xa"
  ⟨h.layout, h.allVersions⟩

/-- Two versions are recorded at one address. -/
def twoVersions : List Operation :=
  [.addDeployment "0x1" (.sent "0x1"), .addDeployment "0x2" (.sent "0x2")]

/-- The version that was recorded last at an address is not the one that is found there. -/
theorem deploymentAt_stale : ∃ results w' i w₁ j w₂,
    (performAll (mainTurns twoVersions)).run.run emptyWorkspace = (.ok results, w') ∧
      (∀ result ∈ results, result.isOk = true) ∧
      (mainStore.deploymentAt "0xa").run.run w' = (.ok i, w₁) ∧ i.txHash = some "0x1" ∧
      (mainStore.deployment "0x2").run.run w' = (.ok j, w₂) ∧ j.txHash = some "0x2" := by
  have hproper : ∀ o ∈ twoVersions, o.Proper ∧ o.Explicit ∧ o.isLookup = false := by
    intro o ho
    fin_cases ho
    · exact ⟨Implementation.proper_sent _, Implementation.explicit_sent _, rfl⟩
    · exact ⟨Implementation.proper_sent _, Implementation.explicit_sent _, rfl⟩
  obtain ⟨w', results, r, hrun, hok, h', hm⟩ := performAll_mainTurns hproper
  obtain ⟨w₁, hfindAt, -⟩ := h'.run_find (·.deploymentAt? "0xa") (.unknownImplementation "0xa")
  obtain ⟨w₂, hfind, -⟩ := h'.run_find (·.deployment? "0x2") (.unknownVersion "0x2")
  have hfirst : (replay twoVersions {}).deploymentAt? "0xa" = some (.sent "0x1") := rfl
  have hsecond : (replay twoVersions {}).impls.lookup "0x2" = some (.sent "0x2") := rfl
  obtain ⟨i, hi, hi'⟩ := exists_of_rel_some (hfirst ▸ hm.deploymentAt? likeness_alike "0xa")
  obtain ⟨j, hj, hj'⟩ := exists_of_rel_some (hsecond ▸ hm.impls.lookup "0x2")
  rw [hi] at hfindAt
  rw [Records.deployment?, hj] at hfind
  exact ⟨results, w', i, w₁, j, w₂, hrun, hok, hfindAt, hi'.txHash.symm, hfind, hj'.txHash.symm⟩

end UpgradeSafety.Manifest
