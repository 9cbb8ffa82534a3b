import UpgradeSafety.Proofs.Json.Same
import UpgradeSafety.Proofs.Manifest.Transactions

/-!
# Addresses of implementations that are deployed again

A version that is recorded again at another address keeps the addresses that it had; one that is
recorded again at the address that it has loses them. So a version has the addresses of the
deployments since it was last recorded at the address that it had (`keepAll`,
`Store.addDeployments_hasAddress`). Its list of addresses holds one of them twice as soon as three
deployments are kept (`Store.addDeployments_unrepeated_iff`).

Each deployment is a run of its own, and between two of them the records are written and read back.
What counts of a record here is its address and the list of its addresses (`Records.whereabouts`),
which survive that. So the sequence is first followed in memory, by the relation between a record
and the deployments that are kept (`Recorded`), and the runs are shown to do the same, deployment
by deployment (`addDeployments_ok`).
-/

namespace UpgradeSafety.Manifest

open Files Stateful Json

/-! ## Addresses -/

theorem sameAddress_refl (a : String) : sameAddress a a = true := beq_self_eq_true _

theorem sameAddress_comm (a b : String) : sameAddress a b = sameAddress b a := by
  rw [sameAddress, sameAddress, Bool.beq_comm]

theorem sameAddress_trans {a b c : String} (h : sameAddress a b = true)
    (h' : sameAddress b c = true) : sameAddress a c = true :=
  beq_iff_eq.mpr ((beq_iff_eq.mp h).trans (beq_iff_eq.mp h'))

/-- An address is one of a list, in whatever letter case. -/
def HasAddress (addresses : List String) (a : String) : Prop :=
  ∃ b ∈ addresses, sameAddress b a = true

theorem hasAddress_append {as bs : List String} {a : String} :
    HasAddress (as ++ bs) a ↔ HasAddress as a ∨ HasAddress bs a := by
  simp [HasAddress, or_and_right, exists_or]

theorem hasAddress_cons {b : String} {bs : List String} {a : String} :
    HasAddress (b :: bs) a ↔ sameAddress b a = true ∨ HasAddress bs a := by
  simp [HasAddress]

/-- Merging loses no address and adds none but those merged. -/
theorem hasAddress_mergeAddresses {known fresh : List String} {a : String} :
    HasAddress (mergeAddresses known fresh) a ↔ HasAddress known a ∨ HasAddress fresh a := by
  unfold mergeAddresses
  induction fresh generalizing known with
  | nil => simp [HasAddress]
  | cons b fresh ih =>
    rw [List.foldl_cons, ih, hasAddress_cons]
    split
    · rename_i hany
      obtain ⟨c, hc, hbc⟩ := List.any_eq_true.mp hany
      have hknown : sameAddress b a = true → HasAddress known a := fun hba =>
        ⟨c, hc, sameAddress_trans (by rwa [sameAddress_comm]) hba⟩
      constructor
      · exact fun h => h.imp_right Or.inr
      · rintro (h | h | h)
        · exact Or.inl h
        · exact Or.inl (hknown h)
        · exact Or.inr h
    · rw [hasAddress_append, hasAddress_cons]
      simp [HasAddress, or_assoc]

/-- All addresses of an implementation. -/
def Implementation.addresses (i : Implementation) : List String :=
  i.address :: i.allAddresses.getD []

theorem Implementation.hasAddress_iff {i : Implementation} {a : String} :
    i.hasAddress a = true ↔ HasAddress i.addresses a := by
  rw [hasAddress, Bool.or_eq_true, addresses, hasAddress_cons]
  simp [HasAddress]

/-- No address occurs twice in a list, in whatever letter case. -/
def Unrepeated (addresses : List String) : Prop :=
  addresses.Pairwise fun a b => sameAddress a b = false

/-! ## Recording a version again -/

/-- What is recorded for an implementation, given what is recorded for its version. -/
def Implementation.redeployed (known : Option Implementation) (i : Implementation) :
    Implementation :=
  match known with
  | some known =>
    if sameAddress known.address i.address then i
    else { i with allAddresses := some (mergeAddresses known.addresses i.addresses) }
  | none => i

theorem Records.addDeployment_eq (r : Records) (version : String) (i : Implementation) :
    r.addDeployment version i = r.putDeployment version (i.redeployed (r.deployment? version)) := by
  unfold addDeployment Implementation.redeployed
  cases r.deployment? version with
  | none => rfl
  | some known =>
    dsimp only
    split <;> rfl

/-- The address of the record of a version, and the list of its addresses. -/
def Records.whereabouts (r : Records) (version : String) : Option (String × Option (List String)) :=
  (r.deployment? version).map fun i => (i.address, i.allAddresses)

theorem Records.whereabouts_stored (r : Records) (version : String) :
    r.stored.whereabouts version = r.whereabouts version := by
  unfold whereabouts deployment? stored
  rw [lookup_map_values]
  cases r.impls.lookup version <;> rfl

/-! ## Records that mean the same -/

theorem texts_eq_of_same {as bs : List String}
    (h : (arr (as.map Json.str)).same (arr (bs.map Json.str)) = true) : as = bs := by
  have hitems := same_arr_iff.mp h
  rw [List.forall₂_map_left_iff, List.forall₂_map_right_iff] at hitems
  refine List.forall₂_eq_eq_eq ▸ hitems.imp fun a b hab => ?_
  exact (Json.str.inj (same_str_iff.mp hab)).symm

theorem rel_map_iff {α β : Type} {R : Json → Json → Prop} {f : α → Json} {g : β → Json}
    {o : Option α} {o' : Option β} :
    Option.Rel R (o.map f) (o'.map g) ↔ Option.Rel (fun a b => R (f a) (g b)) o o' := by
  cases o with
  | none => cases o' <;> simp
  | some a => cases o' <;> simp

theorem eq_of_rel_eq {α : Type} {R : α → α → Prop} {o o' : Option α}
    (hR : ∀ a b, R a b → a = b) (h : Option.Rel R o o') : o = o' := by
  cases h with
  | none => rfl
  | some h => rw [hR _ _ h]

theorem Implementation.whereabouts_of_same {i j : Implementation}
    (h : i.toJson.same j.toJson = true) :
    i.address = j.address ∧ i.allAddresses = j.allAddresses := by
  rw [toJson_eq, toJson_eq] at h
  have haddress := lookup_of_same_obj (keys_fields i) h "address"
  have hall := lookup_of_same_obj (keys_fields i) h "allAddresses"
  simp [fields, deploymentFields, lookup_cons_eq, rel_map_iff] at haddress hall
  exact ⟨(Json.str.inj (same_str_iff.mp haddress)).symm,
    eq_of_rel_eq (fun _ _ => texts_eq_of_same) hall⟩

theorem lookup_of_same_table {α : Type} {f : α → Json} {as bs : List (String × α)}
    (has : (as.map (·.1)).Nodup) (h : (tableJson f as).same (tableJson f bs) = true)
    (key : String) :
    Option.Rel (fun a b => (f a).same (f b) = true) (as.lookup key) (bs.lookup key) := by
  have hfields := lookup_of_same_obj (by rwa [List.map_map]) h key
  rwa [lookup_map_values, lookup_map_values, rel_map_iff] at hfields

theorem Records.whereabouts_of_same {r r' : Records} (hr : r.Storable)
    (h : r.toJson.same r'.toJson = true) (version : String) :
    r.whereabouts version = r'.whereabouts version := by
  rw [toJson_eq, toJson_eq] at h
  have himpls := lookup_of_same_obj (keys_fields r) h "impls"
  simp [fields, lookup_cons_eq] at himpls
  have hversion := lookup_of_same_table hr.impls_nodup himpls version
  unfold whereabouts deployment?
  generalize r.impls.lookup version = o at hversion
  generalize r'.impls.lookup version = o' at hversion
  cases hversion with
  | none => rfl
  | some h =>
    obtain ⟨haddress, hall⟩ := Implementation.whereabouts_of_same h
    rw [Option.map_some, Option.map_some, haddress, hall]

/-! ## The deployments that are kept -/

/-- The deployments whose addresses a version has, after one more: alone, if it is at the address
that the version had. -/
def keep (kept : List Implementation) (d : Implementation) : List Implementation :=
  match kept.getLast? with
  | some last => if sameAddress last.address d.address then [d] else kept ++ [d]
  | none => [d]

/-- The deployments whose addresses a version has, after further ones. -/
def keepAll (kept ds : List Implementation) : List Implementation := ds.foldl keep kept

/-- What is recorded for a version after further deployments. -/
def redeployedAll (known : Option Implementation) (ds : List Implementation) :
    Option Implementation :=
  ds.foldl (fun known d => some (d.redeployed known)) known

theorem Implementation.addresses_redeployed_other {known i : Implementation}
    (h : sameAddress known.address i.address = false) :
    i.redeployed (some known) =
      { i with allAddresses := some (mergeAddresses known.addresses i.addresses) } := by
  rw [redeployed, if_neg (by simp [h])]

/-- The record of a version is at the address of the deployment kept last, and has the addresses of
those that are kept. -/
def Recorded (kept : List Implementation) (known : Option Implementation) : Prop :=
  match known with
  | none => kept = []
  | some i => (∃ last, kept.getLast? = some last ∧ last.address = i.address) ∧
      ∀ a, i.hasAddress a = true ↔ ∃ d ∈ kept, d.hasAddress a = true

theorem recorded_toList (known : Option Implementation) : Recorded known.toList known := by
  cases known with
  | none => rfl
  | some i => exact ⟨⟨i, rfl, rfl⟩, fun a => by simp⟩

/-- A further deployment stands alone where nothing is recorded or at the address that is, and is kept
beside the others elsewhere. -/
theorem Recorded.keep_cases {kept : List Implementation} {known : Option Implementation}
    (h : Recorded kept known) (d : Implementation) :
    (keep kept d = [d] ∧ d.redeployed known = d) ∨
      ∃ i, known = some i ∧ sameAddress i.address d.address = false ∧ keep kept d = kept ++ [d] ∧
        d.redeployed known =
          { d with allAddresses := some (mergeAddresses i.addresses d.addresses) } := by
  cases known with
  | none =>
    obtain rfl : kept = [] := h
    exact Or.inl ⟨rfl, rfl⟩
  | some i =>
    obtain ⟨⟨last, hlast, haddress⟩, -⟩ := h
    unfold Manifest.keep
    rw [hlast]
    dsimp only
    rw [haddress]
    by_cases hsame : sameAddress i.address d.address = true
    · exact Or.inl ⟨if_pos hsame, if_pos hsame⟩
    · have hother : sameAddress i.address d.address = false := Bool.eq_false_of_not_eq_true hsame
      exact Or.inr ⟨i, rfl, hother, if_neg hsame, Implementation.addresses_redeployed_other hother⟩

theorem Recorded.keep {kept : List Implementation} {known : Option Implementation}
    (h : Recorded kept known) (d : Implementation) :
    Recorded (keep kept d) (some (d.redeployed known)) := by
  rcases h.keep_cases d with ⟨hkept, hrecord⟩ | ⟨i, rfl, -, hkept, hrecord⟩
  · rw [hkept, hrecord]
    exact recorded_toList (some d)
  · rw [hkept, hrecord]
    refine ⟨⟨d, by simp, rfl⟩, fun a => ?_⟩
    have hself : sameAddress d.address a = true → d.hasAddress a = true := fun ha => by
      rw [Implementation.hasAddress, ha, Bool.true_or]
    rw [Implementation.hasAddress_iff, Implementation.addresses, hasAddress_cons,
      Option.getD_some, hasAddress_mergeAddresses, ← Implementation.hasAddress_iff,
      ← Implementation.hasAddress_iff, h.2]
    constructor
    · rintro (ha | ⟨e, he, hea⟩ | ha)
      · exact ⟨d, by simp, hself ha⟩
      · exact ⟨e, List.mem_append_left _ he, hea⟩
      · exact ⟨d, by simp, ha⟩
    · rintro ⟨e, he, hea⟩
      rcases List.mem_append.mp he with he | he
      · exact Or.inr (Or.inl ⟨e, he, hea⟩)
      · rw [List.mem_singleton.mp he] at hea
        exact Or.inr (Or.inr hea)

theorem recorded_keepAll {kept : List Implementation} {known : Option Implementation}
    (h : Recorded kept known) (ds : List Implementation) :
    Recorded (keepAll kept ds) (redeployedAll known ds) := by
  induction ds generalizing kept known with
  | nil => exact h
  | cons d ds ih => exact ih (h.keep d)

/-! ## Lists of addresses -/

theorem prefix_mergeAddresses (known fresh : List String) :
    known <+: mergeAddresses known fresh := by
  unfold mergeAddresses
  induction fresh generalizing known with
  | nil => exact List.prefix_refl known
  | cons b fresh ih =>
    rw [List.foldl_cons]
    split
    · exact ih known
    · exact (List.prefix_append known [b]).trans (ih _)

/-- How the list of addresses of a record depends on the number of deployments that are kept. -/
def Listed (n : Nat) (known : Option Implementation) : Prop :=
  match known with
  | none => n = 0
  | some i =>
    (n = 1 ∧ i.allAddresses = none) ∨
    (n = 2 ∧ ∃ a, i.allAddresses = some [a, i.address] ∧ sameAddress a i.address = false) ∨
    (2 < n ∧ ¬ Unrepeated (i.allAddresses.getD []))

theorem not_unrepeated_of_prefix {as bs : List String} (h : as <+: bs) (has : ¬ Unrepeated as) :
    ¬ Unrepeated bs :=
  fun hbs => has (hbs.sublist h.sublist)

theorem Listed.keep {kept : List Implementation} {known : Option Implementation}
    (hrecorded : Recorded kept known) (h : Listed kept.length known) {d : Implementation}
    (hd : d.allAddresses = none) :
    Listed (keep kept d).length (some (d.redeployed known)) := by
  rcases hrecorded.keep_cases d with ⟨hkept, hrecord⟩ | ⟨i, rfl, hother, hkept, hrecord⟩
  · rw [hkept, hrecord]
    exact Or.inl ⟨rfl, hd⟩
  · rw [hkept, hrecord, List.length_append, List.length_singleton]
    have hprefix := prefix_mergeAddresses i.addresses d.addresses
    rcases h with ⟨hone, hnone⟩ | ⟨htwo, a, hsome, -⟩ | ⟨hmany, hrepeated⟩
    · refine Or.inr (Or.inl ⟨by omega, i.address, ?_, hother⟩)
      have hother' : sameAddress d.address i.address = false :=
        (sameAddress_comm _ _).trans hother
      simp [Implementation.addresses, hnone, hd, mergeAddresses, hother']
    · refine Or.inr (Or.inr ⟨by omega, not_unrepeated_of_prefix hprefix ?_⟩)
      simp [Implementation.addresses, hsome, Unrepeated, sameAddress_refl]
    · refine Or.inr (Or.inr ⟨by omega, not_unrepeated_of_prefix hprefix ?_⟩)
      exact fun h => hrepeated (List.pairwise_cons.mp h).2

theorem listed_keepAll {kept : List Implementation} {known : Option Implementation}
    (hrecorded : Recorded kept known) (h : Listed kept.length known) {ds : List Implementation}
    (hds : ∀ d ∈ ds, d.allAddresses = none) :
    Listed (keepAll kept ds).length (redeployedAll known ds) := by
  induction ds generalizing kept known with
  | nil => exact h
  | cons d ds ih =>
    rw [List.forall_mem_cons] at hds
    exact ih (hrecorded.keep d) (h.keep hrecorded hds.1) hds.2

theorem Listed.unrepeated_iff {n : Nat} {i : Implementation} (h : Listed n (some i)) :
    Unrepeated (i.allAddresses.getD []) ↔ n ≤ 2 := by
  rcases h with ⟨rfl, hnone⟩ | ⟨rfl, a, hsome, hne⟩ | ⟨hmany, hrepeated⟩
  · simp [hnone, Unrepeated]
  · simp [hsome, Unrepeated, hne]
  · exact ⟨fun h => absurd h hrepeated, fun h => by omega⟩

/-! ## Sequences of deployments -/

/-- The deployments of a version. -/
def deploymentsOf (version : String) (calls : List (String × Implementation)) :
    List Implementation :=
  (calls.filter (·.1 == version)).map (·.2)

/-- Records implementations, one after another. -/
def Records.addDeployments (r : Records) (calls : List (String × Implementation)) : Records :=
  calls.foldl (fun r c => r.addDeployment c.1 c.2) r

theorem Records.deployment?_addDeployment (r : Records) (version other : String)
    (i : Implementation) :
    (r.addDeployment version i).deployment? other =
      if other = version then some (i.redeployed (r.deployment? version))
      else r.deployment? other := by
  rw [addDeployment_eq, deployment?, putDeployment]
  split
  · rename_i h
    rw [h, lookup_putField_self]
  · rename_i h
    rw [lookup_putField_other h, deployment?]

theorem Records.deployment?_addDeployments (r : Records) (version : String)
    (calls : List (String × Implementation)) :
    (r.addDeployments calls).deployment? version =
      redeployedAll (r.deployment? version) (deploymentsOf version calls) := by
  unfold addDeployments
  induction calls generalizing r with
  | nil => rfl
  | cons c calls ih =>
    obtain ⟨v, i⟩ := c
    rw [List.foldl_cons, ih, deployment?_addDeployment]
    by_cases hv : v = version
    · simp [hv, deploymentsOf, redeployedAll]
    · simp [hv, Ne.symm hv, deploymentsOf]

theorem Implementation.redeployed_congr {known known' : Option Implementation} (i : Implementation)
    (h : known.map (fun j => (j.address, j.allAddresses)) =
      known'.map fun j => (j.address, j.allAddresses)) :
    i.redeployed known = i.redeployed known' := by
  cases known with
  | none =>
    cases known' with
    | none => rfl
    | some j => cases h
  | some j =>
    cases known' with
    | none => cases h
    | some k =>
      simp only [Option.map_some, Option.some.injEq, Prod.mk.injEq] at h
      simp only [redeployed, addresses, h.1, h.2]

theorem Records.whereabouts_addDeployments {r r' : Records}
    (h : ∀ version, r.whereabouts version = r'.whereabouts version)
    (calls : List (String × Implementation)) (version : String) :
    (r.addDeployments calls).whereabouts version = (r'.addDeployments calls).whereabouts version := by
  unfold addDeployments
  induction calls generalizing r r' with
  | nil => exact h version
  | cons c calls ih =>
    refine ih fun v => ?_
    unfold whereabouts
    rw [deployment?_addDeployment, deployment?_addDeployment,
      Implementation.redeployed_congr c.2 (h c.1)]
    split
    · rfl
    · exact h v

namespace Store

variable {σ : Type} {s : Store} {w w' : Workspace σ} {t : Tree}

/-- Records implementations, one after another. -/
def addDeployments (s : Store) (calls : List (String × Implementation)) : Act σ Unit :=
  calls.forM fun (version, i) => s.addDeployment version i

/-- The files of a workspace in which a store has been at work: no file stands where a folder
stands, and the folder of the lock is made. -/
structure Settled (s : Store) (w : Workspace σ) : Prop where
  session : w.drafts.lookup s.session = none
  sound : w.files.Sound
  folder : w.files.makeFolder s.lockFile.parent = .ok w.files

/-- What a store holds after it recorded an implementation: the records as they are read back, or what
it held before if those mean the same. -/
theorem addDeployment_held {version : String} {i : Implementation}
    (hsession : w.drafts.lookup s.session = none) (hsound : w.files.Sound)
    (hupdater : AnswersTidy s.updater) (hi : i.Storable)
    (h : (s.addDeployment version i).run.run w = (.ok (), w')) :
    ∃ t r stale r', w.files.makeFolder s.lockFile.parent = .ok t ∧ s.held t = .ok (r, stale) ∧
      r.Sound ∧ s.Settled w' ∧ s.held w'.files = .ok (r', false) ∧
      (r' = (r.addDeployment version i).stored ∨
        (r' = r ∧ (r.addDeployment version i).toJson.same r.toJson = true)) := by
  obtain ⟨_, w₁, hupdate, htell⟩ := run_bind_eq_ok_iff.mp h
  obtain ⟨t, r, stale, hmake, hheld, hwritable, hcommitted, -, hdrafts, -⟩ :=
    update_ok hsession hupdate
  have hr := held_sound hupdater hheld
  have hfinal : (r.addDeployment version i).Sound := by
    refine ⟨hr.storable.addDeployment version hi, ?_⟩
    rw [Records.addDeployment_eq]
    exact hr.version
  obtain ⟨hsound', hfolders, r', hheld', hr'⟩ :=
    hcommitted.held (hsound.makeFoldersFrom hmake) hheld hfinal hwritable
  cases htell
  exact ⟨t, r, stale, r', hmake, hheld, hr,
    ⟨hdrafts ▸ hsession, hsound', Tree.makeFoldersFrom_eq_self hmake hfolders⟩, hheld', hr'⟩

/-- What the record of a version says about its addresses after an implementation was recorded. -/
theorem addDeployment_ok {version : String} {i : Implementation}
    (hsession : w.drafts.lookup s.session = none) (hsound : w.files.Sound)
    (hupdater : AnswersTidy s.updater) (hi : i.Storable)
    (h : (s.addDeployment version i).run.run w = (.ok (), w')) :
    ∃ t r stale r', w.files.makeFolder s.lockFile.parent = .ok t ∧ s.held t = .ok (r, stale) ∧
      s.Settled w' ∧ s.held w'.files = .ok (r', false) ∧
      ∀ v, r'.whereabouts v = (r.addDeployment version i).whereabouts v := by
  obtain ⟨t, r, stale, r', hmake, hheld, hr, hsettled, hheld', hr'⟩ :=
    addDeployment_held hsession hsound hupdater hi h
  refine ⟨t, r, stale, r', hmake, hheld, hsettled, hheld', fun v => ?_⟩
  rcases hr' with rfl | ⟨rfl, hsame⟩
  · exact Records.whereabouts_stored _ v
  · exact (Records.whereabouts_of_same (hr.storable.addDeployment version hi) hsame v).symm

theorem addDeployments_ok {calls : List (String × Implementation)} {r : Records} {stale : Bool}
    (hw : s.Settled w) (hupdater : AnswersTidy s.updater) (hcalls : ∀ c ∈ calls, c.2.Storable)
    (hheld : s.held w.files = .ok (r, stale))
    (h : (s.addDeployments calls).run.run w = (.ok (), w')) :
    ∃ r' stale', s.held w'.files = .ok (r', stale') ∧ w'.drafts.lookup s.session = none ∧
      ∀ v, r'.whereabouts v = (r.addDeployments calls).whereabouts v := by
  induction calls generalizing w r stale with
  | nil =>
    cases h
    exact ⟨r, stale, hheld, hw.session, fun _ => rfl⟩
  | cons c calls ih =>
    rw [List.forall_mem_cons] at hcalls
    obtain ⟨_, w₁, hfirst, hrest⟩ := run_bind_eq_ok_iff.mp h
    obtain ⟨t, r₀, stale₀, r₁, hmake, hheld₀, hw₁, hheld₁, hr₁⟩ :=
      addDeployment_ok hw.session hw.sound hupdater hcalls.1 hfirst
    cases hw.folder.symm.trans hmake
    cases hheld.symm.trans hheld₀
    obtain ⟨r', stale', hheld', hsession', hr'⟩ := ih hw₁ hcalls.2 hheld₁ hrest
    refine ⟨r', stale', hheld', hsession', fun v => (hr' v).trans ?_⟩
    exact Records.whereabouts_addDeployments hr₁ calls v

/-- On a store that is ready, a sequence of deployments that can be written succeeds. -/
theorem run_addDeployments {calls : List (String × Implementation)} {r : Records}
    (hsession : w.drafts.lookup s.session = none)
    (hmake : w.files.makeFolder s.lockFile.parent = .ok t) (hfree : s.lockFile ∉ w.locks)
    (hready : Ready s t) (hheld : s.held t = .ok (r, false)) (hr : r.Proper)
    (hcalls : ∀ c ∈ calls, c.2.Proper) :
    ∃ w', (s.addDeployments calls).run.run w = (.ok (), w') := by
  induction calls generalizing w t r with
  | nil => exact ⟨w, rfl⟩
  | cons c calls ih =>
    rw [List.forall_mem_cons] at hcalls
    have hchanged := hr.addDeployment c.1 hcalls.1
    obtain ⟨log, t', hfirst, htransacted⟩ := run_told (f := (·.addDeployment c.1 c.2))
      hsession hmake hfree hready hheld hr hchanged _
    obtain ⟨hready', r', hheld', hr', -⟩ := htransacted.held hready hheld hr hchanged
    obtain ⟨w', hrest⟩ := ih (w := { w with files := t', log := log }) hsession hready'.lockFolder
      hfree hready' hheld' hr' hcalls.2
    exact ⟨w', (run_bind_of_ok hfirst).trans hrest⟩

theorem run_read {r : Records} {stale : Bool} (hsession : w.drafts.lookup s.session = none)
    (hheld : s.held w.files = .ok (r, stale)) :
    ∃ w', (s.read : Act σ Records).run.run w = (.ok r, w') := by
  obtain ⟨notes, hload⟩ := run_load s w
  unfold read
  rw [run_bind_of_ok run_currentHandle?, hsession]
  dsimp only [Option.map_none]
  rw [run_bind, hload, hheld]
  exact ⟨_, rfl⟩

/-- What is recorded after a sequence of deployments: for every version, what the sequence makes of
the record that it had. -/
theorem addDeployments_whereabouts {calls : List (String × Implementation)} {r : Records}
    {stale : Bool} (hsession : w.drafts.lookup s.session = none) (hsound : w.files.Sound)
    (hupdater : AnswersTidy s.updater) (hcalls : ∀ c ∈ calls, c.2.Storable)
    (hmake : w.files.makeFolder s.lockFile.parent = .ok t) (hheld : s.held t = .ok (r, stale))
    (hsome : calls ≠ []) (h : (s.addDeployments calls).run.run w = (.ok (), w')) :
    ∃ r' w'', (s.read : Act σ Records).run.run w' = (.ok r', w'') ∧
      ∀ v, r'.whereabouts v = (r.addDeployments calls).whereabouts v := by
  cases calls with
  | nil => exact absurd rfl hsome
  | cons c calls =>
    rw [List.forall_mem_cons] at hcalls
    obtain ⟨_, w₁, hfirst, hrest⟩ := run_bind_eq_ok_iff.mp h
    obtain ⟨t, r₀, stale₀, r₁, hmake₀, hheld₀, hw₁, hheld₁, hr₁⟩ :=
      addDeployment_ok hsession hsound hupdater hcalls.1 hfirst
    cases hmake.symm.trans hmake₀
    cases hheld.symm.trans hheld₀
    obtain ⟨r', stale', hheld', hsession', hr'⟩ := addDeployments_ok hw₁ hupdater hcalls.2 hheld₁ hrest
    obtain ⟨w'', hread⟩ := run_read hsession' hheld'
    refine ⟨r', w'', hread, fun v => (hr' v).trans ?_⟩
    exact Records.whereabouts_addDeployments hr₁ calls v

end Store

/-- The addresses of a version are those of its deployments since it was last recorded at the address
that it had. -/
theorem Records.hasAddress_addDeployments {r r' : Records} {calls : List (String × Implementation)}
    {version : String} (h : r'.whereabouts version = (r.addDeployments calls).whereabouts version)
    (a : String) :
    (∃ i, r'.deployment? version = some i ∧ i.hasAddress a = true) ↔
      ∃ d ∈ keepAll (r.deployment? version).toList (deploymentsOf version calls),
        d.hasAddress a = true := by
  have hrecorded := recorded_keepAll (recorded_toList (r.deployment? version))
    (deploymentsOf version calls)
  unfold whereabouts at h
  rw [deployment?_addDeployments] at h
  generalize redeployedAll (r.deployment? version) (deploymentsOf version calls) = known at h hrecorded
  generalize keepAll (r.deployment? version).toList (deploymentsOf version calls) = kept at hrecorded
  cases hi : r'.deployment? version with
  | none =>
    cases known with
    | none =>
      obtain rfl : kept = [] := hrecorded
      simp
    | some j =>
      rw [hi] at h
      cases h
  | some i =>
    cases known with
    | none =>
      rw [hi] at h
      cases h
    | some j =>
      simp only [hi, Option.map_some, Option.some.injEq, Prod.mk.injEq] at h
      have hsame : i.hasAddress a = j.hasAddress a := by
        unfold Implementation.hasAddress
        rw [h.1, h.2]
      rw [← hrecorded.2 a, ← hsame]
      simp

/-! ## Deployments in a fresh workspace -/

/-- An implementation without storage. -/
def Implementation.bare (address : String) : Implementation where
  address := address
  layout := { layoutVersion := some Layout.currentVersion }

theorem Implementation.proper_bare (address : String) : (bare address).Proper where
  storable :=
    { layout :=
        { storage := List.forall_mem_nil _
          members := List.forall_mem_nil _
          namespaces := List.forall_mem_nil _
          types_nodup := List.nodup_nil
          namespaces_nodup := List.nodup_nil }
      abi := fun _ h => absurd h (Option.not_mem_none _)
      allVersions := fun _ h => absurd h (Option.not_mem_none _) }
  writable := rfl
  abi := fun _ h => absurd h (Option.not_mem_none _)

/-- Implementations without storage that are deployed one after another under one version. -/
def bareCalls (version : String) (addresses : List String) : List (String × Implementation) :=
  addresses.map fun a => (version, .bare a)

theorem proper_bareCalls (version : String) (addresses : List String) :
    ∀ c ∈ bareCalls version addresses, c.2.Proper ∧ c.2.allAddresses = none := by
  intro c hc
  obtain ⟨a, -, rfl⟩ := List.mem_map.mp hc
  exact ⟨Implementation.proper_bare a, rfl⟩

namespace Store

/-- A store of the main network in the folder `.proxyguard`. -/
def mainStore : Store := { site := ⟨1, ⟨"", [".proxyguard"]⟩⟩, lockTimeout := 10.0 }

/-- A workspace without files. -/
def emptyWorkspace : Workspace Unit := { outside := () }

theorem ready_mainStore : ∃ t, emptyWorkspace.files.makeFolder mainStore.lockFile.parent = .ok t ∧
    Ready mainStore t ∧ mainStore.held t = .ok ({}, false) :=
  ready_of_empty rfl (by decide)

theorem run_bareCalls (version : String) (addresses : List String) : ∃ w',
    (mainStore.addDeployments (bareCalls version addresses)).run.run emptyWorkspace =
      (.ok (), w') := by
  obtain ⟨t, hmake, hready, hheld⟩ := ready_mainStore
  exact run_addDeployments rfl hmake List.not_mem_nil hready hheld Records.proper_empty
    fun c hc => (proper_bareCalls version addresses c hc).1

/-- The record of a version after implementations without storage were deployed under it. -/
theorem exists_deployment_of_bareCalls (version : String) (addresses : List String)
    {address : String} {all : Option (List String)} (hsome : addresses ≠ [])
    (h : (({} : Records).addDeployments (bareCalls version addresses)).whereabouts version =
      some (address, all)) :
    ∃ w' r' w'' i,
      (mainStore.addDeployments (bareCalls version addresses)).run.run emptyWorkspace =
        (.ok (), w') ∧
      (mainStore.read : Act Unit Records).run.run w' = (.ok r', w'') ∧
      r'.deployment? version = some i ∧ i.address = address ∧ i.allAddresses = all := by
  obtain ⟨t, hmake, -, hheld⟩ := ready_mainStore
  obtain ⟨w', hrun⟩ := run_bareCalls version addresses
  obtain ⟨r', w'', hread, hr'⟩ := addDeployments_whereabouts (w := emptyWorkspace) rfl
    Tree.sound_empty answersTidy_none (fun c hc => (proper_bareCalls version addresses c hc).1.storable) hmake
    hheld (by simpa [bareCalls] using hsome) hrun
  obtain ⟨i, hi, hwhere⟩ := Option.map_eq_some_iff.mp ((hr' version).trans h)
  exact ⟨w', r', w'', i, hrun, hread, hi, congrArg Prod.fst hwhere, congrArg Prod.snd hwhere⟩

end Store

namespace Store

variable {σ : Type} {s : Store} {w w' : Workspace σ} {t : Tree}

/-- After a sequence of deployments a version has the addresses of those that are kept, in whatever
letter case. -/
theorem addDeployments_hasAddress {calls : List (String × Implementation)} {r : Records}
    {stale : Bool} (hsession : w.drafts.lookup s.session = none) (hsound : w.files.Sound)
    (hupdater : AnswersTidy s.updater) (hcalls : ∀ c ∈ calls, c.2.Storable)
    (hmake : w.files.makeFolder s.lockFile.parent = .ok t) (hheld : s.held t = .ok (r, stale))
    (hsome : calls ≠ []) (h : (s.addDeployments calls).run.run w = (.ok (), w')) :
    ∃ r' w'', (s.read : Act σ Records).run.run w' = (.ok r', w'') ∧ ∀ version a,
      (∃ i, r'.deployment? version = some i ∧ i.hasAddress a = true) ↔
        ∃ d ∈ keepAll (r.deployment? version).toList (deploymentsOf version calls),
          d.hasAddress a = true := by
  obtain ⟨r', w'', hread, hr'⟩ :=
    addDeployments_whereabouts hsession hsound hupdater hcalls hmake hheld hsome h
  exact ⟨r', w'', hread, fun version a => Records.hasAddress_addDeployments (hr' version) a⟩

theorem addDeployments_hasAddress_twice : ∃ w' r' w'',
    (mainStore.addDeployments (bareCalls "0x1" ["0xa", "0xb"])).run.run emptyWorkspace =
      (.ok (), w') ∧
    (mainStore.read : Act Unit Records).run.run w' = (.ok r', w'') ∧ ∀ version a,
      (∃ i, r'.deployment? version = some i ∧ i.hasAddress a = true) ↔
        ∃ d ∈ keepAll [] (deploymentsOf version (bareCalls "0x1" ["0xa", "0xb"])),
          d.hasAddress a = true := by
  obtain ⟨t, hmake, -, hheld⟩ := ready_mainStore
  obtain ⟨w', hrun⟩ := run_bareCalls "0x1" ["0xa", "0xb"]
  have hcalls := proper_bareCalls "0x1" ["0xa", "0xb"]
  obtain ⟨r', w'', hread, hr'⟩ := addDeployments_hasAddress (w := emptyWorkspace) rfl
    Tree.sound_empty answersTidy_none (fun c hc => (hcalls c hc).1.storable) hmake hheld
    (List.cons_ne_nil _ _) hrun
  exact ⟨w', r', w'', hrun, hread, hr'⟩

/-- A version that is deployed once more at the address that it has loses its former address. -/
theorem addDeployments_forgets : ∃ w' r' w'' i,
    (mainStore.addDeployments (bareCalls "0x1" ["0xa", "0xb", "0xb"])).run.run emptyWorkspace =
      (.ok (), w') ∧
    (mainStore.read : Act Unit Records).run.run w' = (.ok r', w'') ∧
    r'.deployment? "0x1" = some i ∧ i.hasAddress "0xa" = false := by
  have hwhere : (({} : Records).addDeployments (bareCalls "0x1" ["0xa", "0xb", "0xb"])).whereabouts
      "0x1" = some ("0xb", none) := by decide
  obtain ⟨w', r', w'', i, hrun, hread, hi, haddress, hall⟩ :=
    exists_deployment_of_bareCalls "0x1" ["0xa", "0xb", "0xb"] (List.cons_ne_nil _ _) hwhere
  refine ⟨w', r', w'', i, hrun, hread, hi, ?_⟩
  rw [Implementation.hasAddress, haddress, hall]
  decide

/-- Deployments without lists of their own, recorded where nothing was recorded before, leave a list
without repeated addresses exactly when at most two of them are kept. -/
theorem addDeployments_unrepeated_iff {calls : List (String × Implementation)} {r : Records}
    {stale : Bool} (hsession : w.drafts.lookup s.session = none) (hsound : w.files.Sound)
    (hupdater : AnswersTidy s.updater)
    (hcalls : ∀ c ∈ calls, c.2.Storable ∧ c.2.allAddresses = none)
    (hmake : w.files.makeFolder s.lockFile.parent = .ok t) (hheld : s.held t = .ok (r, stale))
    (hempty : r.impls = []) (hsome : calls ≠ [])
    (h : (s.addDeployments calls).run.run w = (.ok (), w')) :
    ∃ r' w'', (s.read : Act σ Records).run.run w' = (.ok r', w'') ∧
      ∀ version i, r'.deployment? version = some i →
        (Unrepeated (i.allAddresses.getD []) ↔
          (keepAll [] (deploymentsOf version calls)).length ≤ 2) := by
  obtain ⟨r', w'', hread, hr'⟩ := addDeployments_whereabouts hsession hsound hupdater
    (fun c hc => (hcalls c hc).1) hmake hheld hsome h
  refine ⟨r', w'', hread, fun version i hi => ?_⟩
  have hnone : r.deployment? version = none := by
    rw [Records.deployment?, hempty]
    rfl
  have hds : ∀ d ∈ deploymentsOf version calls, d.allAddresses = none := by
    intro d hd
    obtain ⟨c, hc, rfl⟩ := List.mem_map.mp hd
    exact (hcalls c (List.mem_filter.mp hc).1).2
  have hfirst : Recorded [] none ∧ Listed ([] : List Implementation).length none := ⟨rfl, rfl⟩
  have hlisted := listed_keepAll hfirst.1 hfirst.2 hds
  have hv := hr' version
  unfold Records.whereabouts at hv
  rw [Records.deployment?_addDeployments, hnone, hi] at hv
  generalize redeployedAll none (deploymentsOf version calls) = known at hv hlisted
  cases known with
  | none => cases hv
  | some j =>
    simp only [Option.map_some, Option.some.injEq, Prod.mk.injEq] at hv
    rw [hv.2]
    exact hlisted.unrepeated_iff

theorem addDeployments_unrepeated_iff_twice : ∃ w' r' w'',
    (mainStore.addDeployments (bareCalls "0x1" ["0xa", "0xb"])).run.run emptyWorkspace =
      (.ok (), w') ∧
    (mainStore.read : Act Unit Records).run.run w' = (.ok r', w'') ∧
      ∀ version i, r'.deployment? version = some i →
        (Unrepeated (i.allAddresses.getD []) ↔
          (keepAll [] (deploymentsOf version (bareCalls "0x1" ["0xa", "0xb"]))).length ≤ 2) := by
  obtain ⟨t, hmake, -, hheld⟩ := ready_mainStore
  obtain ⟨w', hrun⟩ := run_bareCalls "0x1" ["0xa", "0xb"]
  have hcalls := proper_bareCalls "0x1" ["0xa", "0xb"]
  obtain ⟨r', w'', hread, hr'⟩ := addDeployments_unrepeated_iff (w := emptyWorkspace) rfl
    Tree.sound_empty answersTidy_none
    (fun c hc => (hcalls c hc).imp_left Implementation.Proper.storable) hmake hheld rfl
    (List.cons_ne_nil _ _) hrun
  exact ⟨w', r', w'', hrun, hread, hr'⟩

/-- A version that is deployed at a third address has its second one twice. -/
theorem addDeployments_repeats : ∃ w' r' w'' i,
    (mainStore.addDeployments (bareCalls "0x1" ["0xa", "0xb", "0xc"])).run.run emptyWorkspace =
      (.ok (), w') ∧
    (mainStore.read : Act Unit Records).run.run w' = (.ok r', w'') ∧
    r'.deployment? "0x1" = some i ∧ i.allAddresses = some ["0xb", "0xa", "0xb", "0xc"] := by
  have hwhere : (({} : Records).addDeployments (bareCalls "0x1" ["0xa", "0xb", "0xc"])).whereabouts
      "0x1" = some ("0xc", some ["0xb", "0xa", "0xb", "0xc"]) := by decide
  obtain ⟨w', r', w'', i, hrun, hread, hi, -, hall⟩ :=
    exists_deployment_of_bareCalls "0x1" ["0xa", "0xb", "0xc"] (List.cons_ne_nil _ _) hwhere
  exact ⟨w', r', w'', i, hrun, hread, hi, hall⟩

end Store

end UpgradeSafety.Manifest
