import UpgradeSafety.Proofs.Json.Floats
import UpgradeSafety.Proofs.Manifest.Proper

/-!
# Records that are read back twice

What was read back is read back again as it is (`Records.stored_stored`). What is read back is
written as before (`Implementation.toJson_stored`, `Beacon.toJson_stored`), if the layouts of an
implementation name their format and the contracts of their items (`Layout.Explicit`).

The two need different things. That reading back twice is the same as once holds of all records:
what is lost in the first round is absent in the second one. That nothing changes in the file is
another matter, because a value that is absent is read as a default and written as that. A layout
without a format, or an item whose contract is not named, is written differently the second time;
so these have to be there, and what was read back always has them (`explicit_stored`).

An interface is written as it is given, up to floats that are no numbers, which are written as null
and stay so (`plainValue_plainValue`).
-/

namespace UpgradeSafety

/-! ## Layouts -/

/-- The contract of an item is named. -/
def Members.Explicit : Members → Prop
  | items is => ∀ i ∈ is, i.contract ≠ .null
  | names _ | unnamed _ => True

/-- A layout names its format and the contracts of all items. -/
structure Layout.Explicit (layout : Layout) : Prop where
  version : layout.layoutVersion ≠ none
  storage : ∀ i ∈ layout.storage, i.contract ≠ .null
  members : ∀ e ∈ layout.types, ∀ m ∈ e.2.members, m.Explicit
  namespaces : ∀ e ∈ layout.namespaces, ∀ i ∈ e.2, i.contract ≠ .null

theorem Item.stored_stored (item : Item) : item.stored.stored = item.stored := by
  by_cases h : item.contract = .null
  · simp [stored, h]
  · simp [stored, h]

theorem Item.toJson_stored {item : Item} (h : item.contract ≠ .null) :
    item.stored.toJson = item.toJson := by
  rw [toJson_eq, toJson_eq, stored, if_neg h]
  rfl

theorem map_stored_stored (items : List Item) :
    (items.map Item.stored).map Item.stored = items.map Item.stored := by
  rw [List.map_map]
  exact List.map_congr_left fun i _ => i.stored_stored

theorem map_toJson_stored {items : List Item} (h : ∀ i ∈ items, i.contract ≠ .null) :
    (items.map Item.stored).map Item.toJson = items.map Item.toJson := by
  rw [List.map_map]
  exact List.map_congr_left fun i hi => Item.toJson_stored (h i hi)

theorem Members.stored_stored (members : Members) : members.stored.stored = members.stored := by
  cases members with
  | items is => rw [stored, stored, map_stored_stored]
  | names ns => cases ns <;> rfl
  | unnamed vs => rfl

theorem Members.toJson_stored {members : Members} (h : members.Explicit) :
    members.stored.toJson = members.toJson := by
  cases members with
  | items is => rw [stored, toJson, toJson, map_toJson_stored h]
  | names ns => cases ns <;> rfl
  | unnamed vs => rfl

theorem TypeEntry.stored_stored (entry : TypeEntry) : entry.stored.stored = entry.stored := by
  unfold stored
  simp [Function.comp_def, Members.stored_stored]

theorem TypeEntry.toJson_stored {entry : TypeEntry} (h : ∀ m ∈ entry.members, m.Explicit) :
    entry.stored.toJson = entry.toJson := by
  unfold toJson stored
  cases hmembers : entry.members with
  | none => rfl
  | some members =>
    have hm := Members.toJson_stored (h members hmembers)
    simp [fieldIf, hm]

theorem tableJson_congr {α β : Type} {f : α → Json} {g : β → Json} {k : α → β}
    {entries : List (String × α)} (h : ∀ e ∈ entries, g (k e.2) = f e.2) :
    tableJson g (entries.map fun e => (e.1, k e.2)) = tableJson f entries := by
  unfold tableJson
  rw [List.map_map]
  exact congrArg Json.obj (List.map_congr_left fun e he => congrArg (Prod.mk e.1) (h e he))

namespace Layout

variable {layout : Layout}

theorem stored_stored (layout : Layout) : layout.stored.stored = layout.stored := by
  unfold stored
  simp [Function.comp_def, Item.stored_stored, TypeEntry.stored_stored]

theorem contract_stored_ne_null (item : Item) : item.stored.contract ≠ .null := by
  unfold Item.stored
  dsimp only
  split
  · exact Json.noConfusion
  · assumption

theorem explicit_members_stored (members : Members) : members.stored.Explicit := by
  cases members with
  | items is => exact List.forall_mem_map.mpr fun i _ => contract_stored_ne_null i
  | names ns =>
    cases ns with
    | nil => exact List.forall_mem_nil _
    | cons n ns => trivial
  | unnamed vs => trivial

/-- What is read back is explicit. -/
theorem explicit_stored (layout : Layout) : layout.stored.Explicit where
  version := Option.some_ne_none _
  storage := List.forall_mem_map.mpr fun i _ => contract_stored_ne_null i
  members := by
    refine List.forall_mem_map.mpr fun e _ m hm => ?_
    obtain ⟨members, -, rfl⟩ := Option.map_eq_some_iff.mp hm
    exact explicit_members_stored members
  namespaces := List.forall_mem_map.mpr fun e _ =>
    List.forall_mem_map.mpr fun i _ => contract_stored_ne_null i

/-- An explicit layout is written as before once it was read back. -/
theorem toJson_stored (h : layout.Explicit) : layout.stored.toJson = layout.toJson := by
  obtain ⟨version, hversion⟩ := Option.ne_none_iff_exists'.mp h.version
  have hstorage := map_toJson_stored h.storage
  have htypes : tableJson TypeEntry.toJson layout.stored.types =
      tableJson TypeEntry.toJson layout.types :=
    tableJson_congr fun e he => TypeEntry.toJson_stored (h.members e he)
  have hnamespaces : tableJson (fun is => Json.arr (is.map Item.toJson)) layout.stored.namespaces =
      tableJson (fun is => Json.arr (is.map Item.toJson)) layout.namespaces :=
    tableJson_congr fun e he => by rw [map_toJson_stored (h.namespaces e he)]
  unfold toJson
  rw [htypes, hnamespaces]
  simp [stored, hstorage, hversion]

end Layout

namespace Manifest

open Json Numeral

/-! ## Interfaces of contracts -/

/-- A value that is written without floats that are no numbers is read back as itself. -/
theorem reread_plainValue (v : Json) : (plainValue v).reread = plainValue v := by
  induction v using Json.induct with
  | null | bool _ | int _ | str _ => rfl
  | float x =>
    rw [plainValue]
    split
    · rename_i hfinite
      exact rereadFloat_eq hfinite
    · rfl
  | arr items ih =>
    rw [plainValue, plainValues_eq_map, reread, rereadItems_eq_map, List.map_map]
    exact congrArg Json.arr (List.map_congr_left ih)
  | obj fields ih =>
    rw [plainValue, plainFields_eq_map, reread, rereadFields_eq_map, List.map_map]
    exact congrArg Json.obj (List.map_congr_left fun f hf => congrArg (Prod.mk f.1) (ih f hf))

theorem plainValue_plainValue (v : Json) : plainValue (plainValue v) = plainValue v := by
  induction v using Json.induct with
  | null | bool _ | int _ | str _ => rfl
  | float x =>
    rw [plainValue]
    split
    · rename_i hfinite
      rw [plainValue, if_pos hfinite]
    · rfl
  | arr items ih =>
    rw [plainValue, plainValues_eq_map, plainValue, plainValues_eq_map, List.map_map]
    exact congrArg Json.arr (List.map_congr_left ih)
  | obj fields ih =>
    rw [plainValue, plainFields_eq_map, plainValue, plainFields_eq_map, List.map_map]
    exact congrArg Json.obj (List.map_congr_left fun f hf => congrArg (Prod.mk f.1) (ih f hf))

/-- What is read for a written interface is what was written. -/
theorem storedAbi_eq (abi : List Json) : storedAbi abi = plainValues abi := by
  rw [storedAbi, rereadItems_eq_map, plainValues_eq_map, List.map_map]
  exact List.map_congr_left fun v _ => reread_plainValue v

theorem plainValues_plainValues (abi : List Json) :
    plainValues (plainValues abi) = plainValues abi := by
  rw [plainValues_eq_map, plainValues_eq_map, List.map_map]
  exact List.map_congr_left fun v _ => plainValue_plainValue v

theorem storedAbi_storedAbi (abi : List Json) : storedAbi (storedAbi abi) = storedAbi abi := by
  rw [storedAbi_eq, storedAbi_eq, plainValues_plainValues]

theorem abiJson_storedAbi (abi : List Json) : abiJson (storedAbi abi) = abiJson abi := by
  rw [storedAbi_eq, abiJson, abiJson, plainValues_plainValues]

theorem fieldIf_abi_stored (abi : Option (List Json)) :
    fieldIf "abi" abiJson (abi.map storedAbi) = fieldIf "abi" abiJson abi := by
  cases abi with
  | none => rfl
  | some abi => rw [Option.map_some, fieldIf, fieldIf, abiJson_storedAbi]

/-! ## Beacons and implementations -/

theorem Beacon.stored_stored (b : Beacon) : b.stored.stored = b.stored := by
  unfold stored
  simp [Function.comp_def, storedAbi_storedAbi]

/-- A beacon is written as before once it was read back. -/
theorem Beacon.toJson_stored (b : Beacon) : b.stored.toJson = b.toJson := by
  rw [toJson, toJson, stored, fieldIf_abi_stored]

/-- All layouts of an implementation are explicit. -/
structure Implementation.Explicit (i : Implementation) : Prop where
  layout : i.layout.Explicit
  allVersions : ∀ vs ∈ i.allVersions, ∀ e ∈ vs, e.2.Explicit

theorem Implementation.stored_stored (i : Implementation) : i.stored.stored = i.stored := by
  unfold stored
  simp [Function.comp_def, storedAbi_storedAbi, Layout.stored_stored]

theorem Implementation.explicit_stored (i : Implementation) : i.stored.Explicit where
  layout := Layout.explicit_stored i.layout
  allVersions := by
    intro vs hvs
    obtain ⟨versions, -, rfl⟩ := Option.map_eq_some_iff.mp hvs
    exact List.forall_mem_map.mpr fun e _ => Layout.explicit_stored e.2

/-- An implementation with explicit layouts is written as before once it was read back. -/
theorem Implementation.toJson_stored {i : Implementation} (h : i.Explicit) :
    i.stored.toJson = i.toJson := by
  have hversions : fieldIf "allVersions" (tableJson Layout.toJson) i.stored.allVersions =
      fieldIf "allVersions" (tableJson Layout.toJson) i.allVersions := by
    cases hall : i.allVersions with
    | none => rw [stored, hall]; rfl
    | some versions =>
      have hentries := tableJson_congr (f := Layout.toJson) (g := Layout.toJson)
        fun e he => Layout.toJson_stored (h.allVersions versions hall e he)
      simp [stored, hall, fieldIf, hentries]
  unfold toJson
  rw [hversions]
  simp only [stored, Layout.toJson_stored h.layout, fieldIf_abi_stored]

/-- The layouts of all records are explicit. -/
def Records.Explicit (r : Records) : Prop := ∀ e ∈ r.impls, e.2.Explicit

theorem Records.explicit_stored (r : Records) : r.stored.Explicit :=
  List.forall_mem_map.mpr fun e _ => e.2.explicit_stored

/-- Records that were read back are read back again as they are. -/
theorem Records.stored_stored (r : Records) : r.stored.stored = r.stored := by
  unfold stored
  simp [Function.comp_def, Implementation.stored_stored, Beacon.stored_stored]

end Manifest

end UpgradeSafety
