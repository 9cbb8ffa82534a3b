import UpgradeSafety.Proofs.Layout.Shown
import UpgradeSafety.Proofs.Manifest.ByAddress

/-!
# What is shown of a recorded layout

Two layouts that are written alike show the same, if their namespaces are listed in the same order
(`Layout.sameShown_of_same`). So what a store holds for a version after an implementation was
recorded shows the same layout (`Store.exists_recorded`), unless the manifest held an equal record
already whose namespaces are listed in another order.

Objects are the same without regard to the order of their fields, and this is the order of types
and of namespaces in a layout. That of types is never shown. That of namespaces is, as comparisons
go through them in their order, so it has to be asked for (`Records.Ordered`).

Everything else that is shown is seen in the written form: numbers that are the same are equal,
names are texts, and a contract without a name has an empty one where its place is known. An item
is gone through field by field, and members, entries and layouts follow.
-/

namespace UpgradeSafety

open Json Manifest

/-! ## Layouts that are written alike -/

theorem int_eq_of_same {a b : Int} (h : (Json.int a).same (Json.int b) = true) : a = b :=
  (same_int_iff.mp h).symm

theorem int_eq_of_same_text {a b : Int} (h : (decimalText a).same (decimalText b) = true) : a = b :=
  Int.repr_injective (text_eq_of_same h)

theorem Item.shown_of_same {i j : Item} (h : i.toJson.same j.toJson = true) (hi : i.Storable)
    (hj : j.Storable) : i.shown = j.shown := by
  rw [toJson_eq, toJson_eq] at h
  have hfield := lookup_of_same_obj (keys_fields i) h
  have hlabel := hfield "label"
  have htype := hfield "type"
  have hcontract := hfield "contract"
  have hsrc := hfield "src"
  have hslot := hfield "slot"
  have hoffset := hfield "offset"
  have hrenamed := hfield "renamedFrom"
  have hretyped := hfield "retypedFrom"
  simp [fields, lookup_cons_eq, rel_map_iff] at hlabel htype hcontract hsrc hslot hoffset hrenamed hretyped
  have hcontract : i.contract = j.contract := by
    rcases hi.contract with hi | ⟨s, hi⟩
    · rcases hj.contract with hj | ⟨t, hj⟩
      · rw [hi, hj]
      · simp [hi, hj] at hcontract
    · rcases hj.contract with hj | ⟨t, hj⟩
      · simp [hi, hj] at hcontract
      · simp [hi, hj] at hcontract
        rw [hi, hj, text_eq_of_same hcontract]
  unfold shown
  rw [text_eq_of_same hlabel, text_eq_of_same htype, hcontract, text_eq_of_same hsrc,
    eq_of_rel_eq (fun _ _ => int_eq_of_same_text) hslot,
    eq_of_rel_eq (fun _ _ => int_eq_of_same) hoffset,
    eq_of_rel_eq (fun _ _ => text_eq_of_same) hrenamed,
    eq_of_rel_eq (fun _ _ => text_eq_of_same) hretyped]

theorem shown_items_of_same {is js : List Item}
    (h : (Json.arr (is.map Item.toJson)).same (.arr (js.map Item.toJson)) = true)
    (his : ∀ i ∈ is, i.Storable) (hjs : ∀ j ∈ js, j.Storable) :
    is.map Item.shown = js.map Item.shown := by
  have hitems := same_arr_iff.mp h
  rw [List.forall₂_map_left_iff, List.forall₂_map_right_iff] at hitems
  induction hitems with
  | nil => rfl
  | cons hij _ ih =>
    rw [List.forall_mem_cons] at his hjs
    have hrest := same_arr_iff.mpr
      (List.forall₂_map_left_iff.mpr (List.forall₂_map_right_iff.mpr ‹_›))
    rw [List.map_cons, List.map_cons, Item.shown_of_same hij his.1 hjs.1, ih hrest his.2 hjs.2]

theorem Members.shown_of_same {m n : Members} (h : m.toJson.same n.toJson = true) (hm : m.Storable)
    (hn : n.Storable) : m.shown = n.shown := by
  have hmixed {i : Item} {s : String} : ¬ i.toJson.same (.str s) = true := by
    rw [Item.toJson_eq]
    exact Bool.false_ne_true
  have hmixed' {i : Item} {s : String} : ¬ (Json.str s).same i.toJson = true := by
    rw [Item.toJson_eq]
    exact Bool.false_ne_true
  cases m with
  | unnamed => exact hm.elim
  | items is =>
    cases n with
    | unnamed => exact hn.elim
    | items js => exact congrArg items (shown_items_of_same h hm hn)
    | names ns =>
      cases is with
      | nil =>
        cases ns with
        | nil => rfl
        | cons s ns => cases same_arr_iff.mp h
      | cons i is =>
        cases ns with
        | nil => cases same_arr_iff.mp h
        | cons s ns =>
          obtain ⟨hfirst, -⟩ := List.forall₂_cons.mp (same_arr_iff.mp h)
          exact absurd hfirst hmixed
  | names ns =>
    cases n with
    | unnamed => exact hn.elim
    | names ns' => rw [texts_eq_of_same h]
    | items js =>
      cases ns with
      | nil =>
        cases js with
        | nil => rfl
        | cons j js => cases same_arr_iff.mp h
      | cons s ns =>
        cases js with
        | nil => cases same_arr_iff.mp h
        | cons j js =>
          obtain ⟨hfirst, -⟩ := List.forall₂_cons.mp (same_arr_iff.mp h)
          exact absurd hfirst hmixed'

theorem TypeEntry.shown_of_same {e f : TypeEntry} (h : e.toJson.same f.toJson = true)
    (he : ∀ m ∈ e.members, m.Storable) (hf : ∀ m ∈ f.members, m.Storable) : e.shown = f.shown := by
  rw [toJson_eq, toJson_eq] at h
  have hfield := lookup_of_same_obj (keys_fields e) h
  have hlabel := hfield "label"
  have hencoding := hfield "encoding"
  have hbytes := hfield "numberOfBytes"
  have hmembers := hfield "members"
  have hbase := hfield "base"
  have hkey := hfield "key"
  have hvalue := hfield "value"
  simp [fields, lookup_cons_eq, rel_map_iff] at hlabel hencoding hbytes hmembers hbase hkey hvalue
  have hmembers : e.members.map Members.shown = f.members.map Members.shown := by
    generalize e.members = m at hmembers he
    generalize f.members = n at hmembers hf
    cases hmembers with
    | none => rfl
    | some hmn => exact congrArg some (Members.shown_of_same hmn (he _ rfl) (hf _ rfl))
  unfold shown
  rw [text_eq_of_same hlabel, hmembers, eq_of_rel_eq (fun _ _ => text_eq_of_same) hencoding,
    eq_of_rel_eq (fun _ _ => int_eq_of_same_text) hbytes,
    eq_of_rel_eq (fun _ _ => text_eq_of_same) hbase,
    eq_of_rel_eq (fun _ _ => text_eq_of_same) hkey,
    eq_of_rel_eq (fun _ _ => text_eq_of_same) hvalue]

/-- Layouts that are written alike, with their namespaces in the same order, show the same. -/
theorem Layout.sameShown_of_same {l l' : Layout} (h : l.toJson.same l'.toJson = true)
    (hl : l.Storable) (hl' : l'.Storable)
    (hkeys : l.namespaces.map (·.1) = l'.namespaces.map (·.1)) : l.SameShown l' := by
  rw [toJson_eq, toJson_eq] at h
  have hfield := lookup_of_same_obj (keys_fields l) h
  have hstorage := hfield "storage"
  have htypes := hfield "types"
  have hnamespaces := hfield "namespaces"
  simp [fields, lookup_cons_eq] at hstorage htypes hnamespaces
  refine ⟨shown_items_of_same hstorage hl.storage hl'.storage, ?_, ?_, hl.types_nodup⟩
  · have hmatched : Matched (fun is js => is.map Item.shown = js.map Item.shown) l.namespaces
        l'.namespaces :=
      .of_lookup hkeys hl.namespaces_nodup fun key =>
        rel_lookup_imp (lookup_of_same_table hl.namespaces_nodup hnamespaces key)
          fun is js his hjs hsame =>
            shown_items_of_same hsame (hl.namespaces _ his) (hl'.namespaces _ hjs)
    exact map_eq_of_forall₂ (hmatched.imp fun e f hef => Prod.ext hef.1 hef.2)
  · have hlookup (key : String) : l.types.shown.lookup key = l'.types.shown.lookup key := by
      rw [TypeTable.lookup_shown, TypeTable.lookup_shown]
      have hrel := rel_lookup_imp (lookup_of_same_table hl.types_nodup htypes key)
        (S := fun e f => e.shown = f.shown) fun e f he hf hsame =>
          TypeEntry.shown_of_same hsame (hl.members _ he) (hl'.members _ hf)
      generalize l.types.lookup key = x at hrel ⊢
      generalize l'.types.lookup key = y at hrel ⊢
      cases hrel with
      | none => rfl
      | some hef => exact congrArg some hef
    have hnodup {types : TypeTable} (h : (types.map (·.1)).Nodup) :
        (types.shown.map (·.1)).Nodup := by
      rwa [show types.shown.map (·.1) = types.map (·.1) from List.map_map]
    exact perm_of_lookup (hnodup hl.types_nodup) (hnodup hl'.types_nodup) hlookup

namespace Manifest

/-! ## Recorded layouts -/

theorem Implementation.layout_of_alike {i j : Implementation} (h : i.Alike j) :
    i.layout.toJson.same j.layout.toJson = true := by
  unfold Alike at h
  rw [toJson_eq, toJson_eq] at h
  have hlayout := lookup_of_same_obj (keys_fields i) h "layout"
  simpa [fields, deploymentFields, lookup_cons_eq] using hlayout

theorem Implementation.layout_redeployed (d : Implementation) (known : Option Implementation) :
    (d.redeployed known).layout = d.layout := by
  unfold redeployed
  split
  · split <;> rfl
  · rfl

/-- The record of a version that was deployed at another address is another one. -/
theorem Implementation.redeployed_of_alike {d known : Implementation}
    (h : (d.redeployed (some known)).Alike known) : d.redeployed (some known) = d := by
  have haddress : (d.redeployed (some known)).address = known.address :=
    (Implementation.whereabouts_of_same h).1
  unfold redeployed at haddress ⊢
  dsimp only at haddress ⊢
  split
  · rfl
  · rename_i hother
    rw [if_neg hother] at haddress
    exact absurd (haddress ▸ sameAddress_refl known.address) hother

variable {σ : Type} {s : Store} {w w' : Workspace σ} {r r' : Records} {version : String}
  {d : Implementation}

/-- What is held for a version lists the namespaces in the order of a layout. -/
def Records.Ordered (r : Records) (version : String) (layout : Layout) : Prop :=
  ∀ i ∈ r.deployment? version, layout.namespaces.map (·.1) = i.layout.namespaces.map (·.1)

/-- The record of an implementation in records that were read back, or that meant the same before: it is
at the address of the implementation, and shows its layout. -/
theorem Records.exists_recorded (hr : r.Storable) (hd : d.Storable) (hlocated : d.layout.Located)
    (hr' : r' = (r.addDeployment version d).stored ∨
      (r' = r ∧ (r.addDeployment version d).toJson.same r.toJson = true))
    (hordered : r'.Ordered version d.layout) :
    ∃ i, r'.deployment? version = some i ∧ d.layout.SameShown i.layout ∧
      ∀ address, sameAddress d.address address = true → i.hasAddress address = true := by
  have hrecorded : (r.addDeployment version d).deployment? version =
      some (d.redeployed (r.deployment? version)) :=
    (r.deployment?_addDeployment version version d).trans (if_pos rfl)
  rcases hr' with rfl | ⟨rfl, hsame⟩
  · have hstored : (r.addDeployment version d).stored.deployment? version =
        ((r.addDeployment version d).deployment? version).map Implementation.stored :=
      lookup_map_values _
    rw [hrecorded] at hstored
    refine ⟨_, hstored, ?_, fun address => (d.hasAddress_redeployed · _)⟩
    change d.layout.SameShown (d.redeployed (r.deployment? version)).layout.stored
    rw [d.layout_redeployed]
    exact Layout.sameShown_stored hlocated hd.layout.types_nodup
  · have hagree := Records.agree_of_same likeness_alike (hr.addDeployment version hd)
      (Operation.keysIn_change (.addDeployment version d) r') hsame
    have hrel : Option.Rel Implementation.Alike ((r'.addDeployment version d).deployment? version)
      (r'.deployment? version) := hagree.impls.lookup version
    rw [hrecorded] at hrel
    obtain ⟨i, hi, halike⟩ := exists_of_rel_some hrel
    refine ⟨i, hi, ?_, fun address haddress => ?_⟩
    · rw [hi] at halike
      rw [Implementation.redeployed_of_alike halike] at halike
      exact Layout.sameShown_of_same (Implementation.layout_of_alike halike) hd.layout
        (hr.impls _ (mem_of_lookup_eq_some hi)).layout (hordered i hi)
    · rw [← (likeness_alike.places halike).hasAddress]
      exact d.hasAddress_redeployed haddress _

/-- What a store holds for the version of an implementation that it recorded. -/
theorem Store.exists_recorded {stale : Bool} (hsession : w.drafts.lookup s.session = none)
    (hsound : w.files.Sound) (hupdater : AnswersTidy s.updater) (hd : d.Storable)
    (hlocated : d.layout.Located) (hadd : (s.addDeployment version d).run.run w = (.ok (), w'))
    (hheld : s.held w'.files = .ok (r, stale)) (hordered : r.Ordered version d.layout) :
    ∃ i, r.deployment? version = some i ∧ d.layout.SameShown i.layout ∧
      ∀ address, sameAddress d.address address = true → i.hasAddress address = true := by
  obtain ⟨_, r₀, _, r', -, -, hr₀, -, hheld', hr'⟩ :=
    addDeployment_held hsession hsound hupdater hd hadd
  cases hheld.symm.trans hheld'
  exact Records.exists_recorded hr₀.storable hd hlocated hr' hordered

end Manifest

end UpgradeSafety
