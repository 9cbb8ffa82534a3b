import UpgradeSafety.Proofs.Json.Equivalence
import UpgradeSafety.Proofs.Manifest.AtRest
import UpgradeSafety.Proofs.Manifest.Operations

/-!
# Records that agree

Two sets of records agree if they have the same proxies, the same admin, and the same versions and
beacons in the same order, and what is recorded for these is alike (`Records.Agree`). Operations
keep agreement and give answers that agree (`agree_replay`, `agree_answers`). So does the way
through a file: what is read back for records agrees with them (`Records.agree_stored`), and
records in which nothing seems to have changed agree with those that they were made of
(`Records.agree_of_same`).

Equality would be too much to ask, because a record that was read back may have lost what is not
written, and a run that changes nothing does not write at all, so that the file keeps the fields in
their former order. How implementations are related is a parameter (`Likeness`), with two
instances: they are written in the same way, or they are and were at the same addresses.
-/

namespace UpgradeSafety.Manifest

open Json

/-! ## What is alike -/

/-- Two implementations are written in the same way, up to the order of fields. -/
def Implementation.Alike (i j : Implementation) : Prop := i.toJson.same j.toJson = true

/-- Two beacons are written in the same way, up to the order of fields. -/
def Beacon.Alike (b c : Beacon) : Prop := b.toJson.same c.toJson = true

/-- Two implementations are and were at the same addresses. -/
def Implementation.SamePlaces (i j : Implementation) : Prop :=
  i.address = j.address ∧ i.allAddresses = j.allAddresses

/-- A relation between implementations that are at the same addresses, which holds between those that
are written in the same way. -/
structure Likeness (I : Implementation → Implementation → Prop) : Prop where
  places {i j : Implementation} : I i j → i.SamePlaces j
  trans {i j k : Implementation} : I i j → I j k → I i k
  of_same {i j : Implementation} : i.toJson.same j.toJson = true → I i j

theorem likeness_alike : Likeness Implementation.Alike where
  places := Implementation.whereabouts_of_same
  trans := same_trans
  of_same := id

theorem likeness_samePlaces : Likeness Implementation.SamePlaces where
  places := id
  trans := fun h h' => ⟨h.1.trans h'.1, h.2.trans h'.2⟩
  of_same := Implementation.whereabouts_of_same

theorem Implementation.SamePlaces.hasAddress {i j : Implementation} (h : i.SamePlaces j)
    (a : String) : i.hasAddress a = j.hasAddress a := by
  unfold Implementation.hasAddress
  rw [h.1, h.2]

theorem Implementation.Storable.redeployed {i : Implementation} (h : i.Storable)
    (known : Option Implementation) : (i.redeployed known).Storable := by
  unfold Implementation.redeployed
  split
  · split
    · exact h
    · exact ⟨h.layout, h.abi, h.allVersions⟩
  · exact h

/-! ## Agreement -/

/-- Two sets of records agree, with implementations that are related by `I`. -/
structure Records.Agree (I : Implementation → Implementation → Prop) (r r' : Records) : Prop where
  version : r.manifestVersion = r'.manifestVersion
  admin : r.admin = r'.admin
  proxies : r.proxies = r'.proxies
  impls : Matched I r.impls r'.impls
  beacons : Matched Beacon.Alike r.beacons r'.beacons

/-- Two answers agree, with implementations that are related by `I`. -/
inductive Answer.Agree (I : Implementation → Implementation → Prop) : Answer → Answer → Prop
  | done : Agree I done done
  | proxy (proxy : Proxy) : Agree I (Answer.proxy proxy) (Answer.proxy proxy)
  | implementation {i j : Implementation} : I i j →
      Agree I (Answer.implementation i) (Answer.implementation j)
  | admin (admin : Admin) : Agree I (Answer.admin admin) (Answer.admin admin)
  | beacon {b c : Beacon} : b.Alike c → Agree I (Answer.beacon b) (Answer.beacon c)

/-- Two outcomes agree: answers that do, or the same failure. -/
inductive OutcomesAgree (I : Implementation → Implementation → Prop) :
    Except Failure Answer → Except Failure Answer → Prop
  | ok {a b : Answer} : a.Agree I b → OutcomesAgree I (.ok a) (.ok b)
  | error (e : Failure) : OutcomesAgree I (.error e) (.error e)

section

variable {I : Implementation → Implementation → Prop} {r r' r'' : Records} {o : Operation}

theorem Records.Agree.trans (hI : Likeness I) (h : r.Agree I r') (h' : r'.Agree I r'') :
    r.Agree I r'' where
  version := h.version.trans h'.version
  admin := h.admin.trans h'.admin
  proxies := h.proxies.trans h'.proxies
  impls := h.impls.trans h'.impls fun _ _ _ => hI.trans
  beacons := h.beacons.trans h'.beacons fun _ _ _ => same_trans

theorem Records.agree_empty : ({} : Records).Agree I {} := ⟨rfl, rfl, rfl, .nil, .nil⟩

/-! ## Operations -/

/-- Operations make records that agree of records that agree. -/
theorem Records.Agree.change (hI : Likeness I) (h : r.Agree I r') (ho : o.Storable) :
    (o.change r).Agree I (o.change r') := by
  cases o with
  | addProxy proxy =>
    refine ⟨h.version, h.admin, ?_, h.impls, h.beacons⟩
    simp only [Operation.change, addProxy, h.proxies]
  | removeProxy address =>
    refine ⟨h.version, h.admin, ?_, h.impls, h.beacons⟩
    simp only [Operation.change, removeProxy, h.proxies]
  | addDeployment version i =>
    have hi : i.Storable := ho
    have hknown : i.redeployed (r.deployment? version) = i.redeployed (r'.deployment? version) := by
      refine i.redeployed_congr ?_
      have hlookup := h.impls.lookup version
      unfold deployment?
      generalize r.impls.lookup version = o at hlookup
      generalize r'.impls.lookup version = o' at hlookup
      cases hlookup with
      | none => rfl
      | some hij =>
        obtain ⟨haddress, hall⟩ := hI.places hij
        rw [Option.map_some, Option.map_some, haddress, hall]
    simp only [Operation.change, addDeployment_eq, hknown]
    have hself := hI.of_same (Implementation.isReflexive_toJson
      (hi.redeployed (r'.deployment? version))).2
    exact ⟨h.version, h.admin, h.proxies, h.impls.putField hself version, h.beacons⟩
  | setAdmin admin => exact ⟨h.version, rfl, h.proxies, h.impls, h.beacons⟩
  | addBeacon b =>
    have hself : b.Alike b := (Beacon.isReflexive_toJson ho).2
    exact ⟨h.version, h.admin, h.proxies, h.impls, h.beacons.putField hself b.address⟩
  | proxyAt _ | deployment _ | deploymentAt _ | admin | beaconAt _ => exact h

theorem outcomesAgree_lookedUp {α β : Type} {R : α → β → Prop} {f : α → Answer} {g : β → Answer}
    {x : Option α} {y : Option β} (missing : Refusal) (h : Option.Rel R x y)
    (hfg : ∀ a b, R a b → (f a).Agree I (g b)) :
    OutcomesAgree I ((Operation.lookedUp missing x).map f) ((Operation.lookedUp missing y).map g) := by
  cases h with
  | none => exact .error _
  | some hab => exact .ok (hfg _ _ hab)

theorem rel_eq_self {α : Type} (x : Option α) : Option.Rel (· = ·) x x := by
  cases x with
  | none => exact .none
  | some a => exact .some rfl

theorem Records.Agree.deploymentAt? (hI : Likeness I) (h : r.Agree I r') (address : String) :
    Option.Rel I (r.deploymentAt? address) (r'.deploymentAt? address) := by
  refine rel_find? ?_ fun i j hij => (hI.places hij).hasAddress address
  rw [List.forall₂_map_left_iff, List.forall₂_map_right_iff]
  exact h.impls.imp fun _ _ hef => hef.2

theorem Records.Agree.beaconAt? (h : r.Agree I r') (address : String) :
    Option.Rel Beacon.Alike (r.beaconAt? address) (r'.beaconAt? address) := by
  have hfound := rel_find? (p := fun e => sameAddress e.1 address)
    (q := fun e => sameAddress e.1 address) h.beacons fun e f hef => by rw [hef.1]
  rw [Records.beaconAt?, Records.beaconAt?]
  generalize r.beacons.find? _ = x at hfound
  generalize r'.beacons.find? _ = y at hfound
  cases hfound with
  | none => exact .none
  | some hef => exact .some hef.2

/-- An operation gives answers that agree on records that agree. -/
theorem Records.Agree.answer (hI : Likeness I) (h : r.Agree I r') (network : String)
    (o : Operation) : OutcomesAgree I (o.answer network r) (o.answer network r') := by
  cases o with
  | proxyAt address =>
    rw [Operation.answer, Operation.answer, proxyAt?, proxyAt?, h.proxies]
    exact outcomesAgree_lookedUp _ (rel_eq_self _) fun p _ hp => hp ▸ .proxy p
  | deployment version =>
    exact outcomesAgree_lookedUp _ (h.impls.lookup version) fun _ _ => .implementation
  | deploymentAt address =>
    exact outcomesAgree_lookedUp _ (h.deploymentAt? hI address) fun _ _ => .implementation
  | admin =>
    rw [Operation.answer, Operation.answer, h.admin]
    exact outcomesAgree_lookedUp _ (rel_eq_self _) fun a _ ha => ha ▸ .admin a
  | beaconAt address =>
    exact outcomesAgree_lookedUp _ (h.beaconAt? address) fun _ _ => .beacon
  | addProxy _ | removeProxy _ | addDeployment _ _ | setAdmin _ | addBeacon _ => exact .ok .done

theorem agree_replay (hI : Likeness I) {operations : List Operation} (h : r.Agree I r')
    (ho : ∀ o ∈ operations, o.Storable) : (replay operations r).Agree I (replay operations r') := by
  induction operations generalizing r r' with
  | nil => exact h
  | cons o operations ih =>
    rw [List.forall_mem_cons] at ho
    exact ih (h.change hI ho.1) ho.2

theorem agree_answers (hI : Likeness I) {operations : List Operation} (h : r.Agree I r')
    (ho : ∀ o ∈ operations, o.Storable) (network : String) :
    List.Forall₂ (OutcomesAgree I) (answers network operations r)
      (answers network operations r') := by
  induction operations generalizing r r' with
  | nil => exact .nil
  | cons o operations ih =>
    rw [List.forall_mem_cons] at ho
    exact .cons (h.answer hI network o) (ih (h.change hI ho.1) ho.2)

/-! ## The way through a file -/

/-- What is read back for records agrees with them. -/
theorem Records.agree_stored (hr : r.Storable) (hI : ∀ e ∈ r.impls, I e.2 e.2.stored) :
    r.Agree I r.stored where
  version := rfl
  admin := rfl
  proxies := rfl
  impls := .map hI
  beacons := .map fun e he => by
    rw [Beacon.Alike, Beacon.toJson_stored]
    exact (Beacon.isReflexive_toJson (hr.beacons e he)).2

theorem text_eq_of_same {a b : String} (h : (Json.str a).same (Json.str b) = true) : a = b :=
  (Json.str.inj (same_str_iff.mp h)).symm

theorem Admin.eq_of_same {a b : Admin} (h : a.toJson.same b.toJson = true) : a = b := by
  have hkeys := (isTidy_obj.mp a.isExact_toJson.isSound.1).1
  have haddress := lookup_of_same_obj hkeys h "address"
  have htxHash := lookup_of_same_obj hkeys h "txHash"
  simp [deploymentFields, lookup_cons_eq, rel_map_iff] at haddress htxHash
  obtain ⟨address, txHash⟩ := a
  obtain ⟨address', txHash'⟩ := b
  obtain rfl : address = address' := text_eq_of_same haddress
  obtain rfl : txHash = txHash' := eq_of_rel_eq (fun _ _ => text_eq_of_same) htxHash
  rfl

theorem Proxy.eq_of_same {p q : Proxy} (h : p.toJson.same q.toJson = true) : p = q := by
  have hkeys := (isTidy_obj.mp p.isExact_toJson.isSound.1).1
  have haddress := lookup_of_same_obj hkeys h "address"
  have htxHash := lookup_of_same_obj hkeys h "txHash"
  have hkind := lookup_of_same_obj hkeys h "kind"
  simp [deploymentFields, lookup_cons_eq, rel_map_iff] at haddress htxHash hkind
  obtain ⟨address, txHash, kind⟩ := p
  obtain ⟨address', txHash', kind'⟩ := q
  obtain rfl : address = address' := text_eq_of_same haddress
  obtain rfl : txHash = txHash' := eq_of_rel_eq (fun _ _ => text_eq_of_same) htxHash
  have hname : some kind = some kind' := by
    rw [← ofName?_name, ← ofName?_name, text_eq_of_same hkind]
  cases hname
  rfl

theorem eq_of_prefix_of_perm {as bs : List String} (h : as <+: bs) (hperm : as.Perm bs) : as = bs :=
  h.eq_of_length hperm.length_eq

theorem matched_of_same {α : Type} {f : α → Json} {as bs : List (String × α)}
    (has : (as.map (·.1)).Nodup) (hkeys : bs.map (·.1) <+: as.map (·.1))
    (h : (tableJson f as).same (tableJson f bs) = true) :
    Matched (fun a b => (f a).same (f b) = true) as bs := by
  have hperm := perm_keys_of_same_obj (by rwa [List.map_map]) h
  rw [List.map_map, List.map_map] at hperm
  exact .of_lookup (eq_of_prefix_of_perm hkeys hperm.symm).symm has (lookup_of_same_table has h)

/-- Records in which nothing seems to have changed agree with those that they were made of, if only
versions and beacons were added. -/
theorem Records.agree_of_same (hI : Likeness I) (hr : r.Storable) (hkeys : r'.KeysIn r)
    (h : r.toJson.same r'.toJson = true) : r.Agree I r' := by
  rw [toJson_eq, toJson_eq] at h
  have hversion := lookup_of_same_obj (keys_fields r) h "manifestVersion"
  have hadmin := lookup_of_same_obj (keys_fields r) h "admin"
  have hproxies := lookup_of_same_obj (keys_fields r) h "proxies"
  have himpls := lookup_of_same_obj (keys_fields r) h "impls"
  have hbeacons := lookup_of_same_obj (keys_fields r) h "beacons"
  simp [fields, lookup_cons_eq, rel_map_iff] at hversion hadmin hproxies himpls hbeacons
  have hsame := same_arr_iff.mp hproxies
  rw [List.forall₂_map_left_iff, List.forall₂_map_right_iff] at hsame
  refine ⟨text_eq_of_same hversion, eq_of_rel_eq (fun _ _ => Admin.eq_of_same) hadmin,
    List.forall₂_eq_eq_eq ▸ hsame.imp fun _ _ => Proxy.eq_of_same, ?_,
    matched_of_same hr.beacons_nodup hkeys.beacons hbeacons⟩
  exact (matched_of_same hr.impls_nodup hkeys.impls himpls).imp fun _ _ hef => ⟨hef.1, hI.of_same hef.2⟩

/-- What a store holds after a run agrees with what the run left. -/
theorem Records.agree_kept (hI : Likeness I) (hr' : r'.Storable) (hkeys : r.KeysIn r')
    (hstored : ∀ e ∈ r'.impls, I e.2 e.2.stored) : r'.Agree I (Store.kept r r' true) := by
  unfold Store.kept
  split
  · exact agree_stored hr' hstored
  · rename_i hsame
    refine agree_of_same hI hr' hkeys ?_
    simpa using hsame

end

end UpgradeSafety.Manifest
