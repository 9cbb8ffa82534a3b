import UpgradeSafety.Proofs.Manifest.Saved

/-!
# Records that can be written

Implementations, beacons and records that can be written and read again (`Implementation.Proper`,
`Beacon.Proper`, `Records.Proper`). What is read for them can be written again, and so can what the
operations on records make of them.

Two kinds of things may go wrong when records are written. A key that occurs twice, a name that is
no text or an offset outside of its slot would not come back as it was; and an integer with more
digits than are written is a failure. Both are excluded by one condition for each part, which asks
of layouts that they are storable and writable, of interfaces that they can be written and repeat
no field, and of the tables that they repeat no key. It says no more than it has to: records that a
store holds and that can be written satisfy it.

The condition passes through reading back and through recording an implementation, a beacon or a
proxy, so it may be assumed of all records on the way.
-/

namespace UpgradeSafety

open Json

namespace Json

theorem isWritable_arr {items : List Json} :
    (arr items).isWritable = true ↔ ∀ v ∈ items, v.isWritable = true := by
  rw [isWritable, areWritable_iff]

theorem isWritable_obj {fields : Fields} :
    (obj fields).isWritable = true ↔ ∀ f ∈ fields, f.2.isWritable = true := by
  rw [isWritable, fieldsAreWritable_iff]

theorem isSound_reread {v : Json} (h : v.IsSound) : v.reread.IsSound :=
  parse_isSound (parse_writeIndented h.1 h.2)

end Json

/-! ## Layouts as they are read back -/

theorem Item.isWritable_stored (item : Item) : item.stored.isWritable = item.isWritable := rfl

theorem Item.Storable.stored {item : Item} (h : item.Storable) : item.stored.Storable := by
  refine ⟨Or.inr ?_, h.offset⟩
  rcases h.contract with hnull | ⟨s, hs⟩
  · exact ⟨"", by rw [Item.stored, if_pos hnull]⟩
  · exact ⟨s, by rw [Item.stored, if_neg (by simp [hs]), hs]⟩

theorem Members.isWritable_stored (members : Members) :
    members.stored.isWritable = members.isWritable := by
  cases members with
  | items is => simp [Members.stored, Members.isWritable, List.all_map, Function.comp_def,
      Item.isWritable_stored]
  | names ns => cases ns <;> rfl
  | unnamed vs => rfl

theorem Members.Storable.stored {members : Members} (h : members.Storable) :
    members.stored.Storable := by
  cases members with
  | items is => exact List.forall_mem_map.mpr fun i hi => (h i hi).stored
  | names ns =>
    cases ns with
    | nil => exact List.forall_mem_nil _
    | cons n ns => trivial
  | unnamed vs => exact h

theorem TypeEntry.isWritable_stored (entry : TypeEntry) :
    entry.stored.isWritable = entry.isWritable := by
  unfold TypeEntry.isWritable TypeEntry.stored
  dsimp only
  cases entry.members with
  | none => rfl
  | some members =>
    rw [Option.map_some, Option.all_some, Option.all_some, Members.isWritable_stored]

theorem Layout.isWritable_stored (layout : Layout) : layout.stored.isWritable = layout.isWritable := by
  simp [Layout.isWritable, Layout.stored, List.all_map, Function.comp_def, Item.isWritable_stored,
    TypeEntry.isWritable_stored]

theorem Layout.Storable.stored {layout : Layout} (h : layout.Storable) : layout.stored.Storable where
  storage := List.forall_mem_map.mpr fun i hi => (h.storage i hi).stored
  members := by
    refine List.forall_mem_map.mpr fun e he m hm => ?_
    obtain ⟨members, hmembers, rfl⟩ := Option.map_eq_some_iff.mp hm
    exact (h.members e he members hmembers).stored
  namespaces := List.forall_mem_map.mpr fun e he =>
    List.forall_mem_map.mpr fun i hi => (h.namespaces e he i hi).stored
  types_nodup := by
    rw [Layout.stored, List.map_map]
    exact h.types_nodup
  namespaces_nodup := by
    rw [Layout.stored, List.map_map]
    exact h.namespaces_nodup

theorem Layout.isWritable_toJson {layout : Layout} (h : layout.Storable) :
    layout.toJson.isWritable = true :=
  (Layout.isExact_toJson h).isSound.2

namespace Manifest

/-! ## Interfaces of contracts -/

theorem isWritable_plainValue {v : Json} (h : v.isWritable = true) :
    (plainValue v).isWritable = true := by
  induction v using Json.induct with
  | null | bool _ | int _ | str _ => exact h
  | float x =>
    rw [plainValue]
    split <;> rfl
  | arr items ih =>
    rw [plainValue, plainValues_eq_map, isWritable_arr, List.forall_mem_map]
    exact fun v hv => ih v hv (isWritable_arr.mp h v hv)
  | obj fields ih =>
    rw [plainValue, plainFields_eq_map, isWritable_obj, List.forall_mem_map]
    exact fun f hf => ih f hf (isWritable_obj.mp h f hf)

/-- An interface that can be written and read again. -/
def ProperAbi (abi : List Json) : Prop := (∀ v ∈ abi, v.IsTidy) ∧ (abiJson abi).isWritable = true

theorem ProperAbi.stored {abi : List Json} (h : ProperAbi abi) : ProperAbi (storedAbi abi) := by
  have hsound := isSound_reread ⟨(isReflexive_abiJson h.1).1, h.2⟩
  rw [abiJson, reread] at hsound
  refine ⟨isTidy_arr.mp hsound.1, ?_⟩
  rw [abiJson, plainValues_eq_map, isWritable_arr, List.forall_mem_map]
  exact fun v hv => isWritable_plainValue (isWritable_arr.mp hsound.2 v hv)

/-! ## Implementations and beacons -/

/-- An implementation that can be written and read again. -/
structure Implementation.Proper (i : Implementation) : Prop where
  storable : i.Storable
  writable : i.isWritable = true
  abi : ∀ abi ∈ i.abi, (abiJson abi).isWritable = true

/-- A beacon that can be written and read again. -/
def Beacon.Proper (b : Beacon) : Prop := ∀ abi ∈ b.abi, ProperAbi abi

section

variable {i : Implementation} {b : Beacon}

theorem Implementation.isWritable_stored (i : Implementation) :
    i.stored.isWritable = i.isWritable := by
  unfold Implementation.isWritable Implementation.stored
  dsimp only
  rw [Layout.isWritable_stored]
  cases i.allVersions with
  | none => rfl
  | some versions =>
    simp [List.all_map, Function.comp_def, Layout.isWritable_stored]

theorem Implementation.Proper.stored (h : i.Proper) : i.stored.Proper := by
  have habi : ∀ abi ∈ i.stored.abi, ProperAbi abi := by
    intro abi hmem
    obtain ⟨written, hwritten, rfl⟩ := Option.map_eq_some_iff.mp hmem
    exact ProperAbi.stored ⟨h.storable.abi written hwritten, h.abi written hwritten⟩
  refine ⟨⟨h.storable.layout.stored, fun abi hmem => (habi abi hmem).1, ?_⟩,
    (i.isWritable_stored).trans h.writable, fun abi hmem => (habi abi hmem).2⟩
  intro versions hversions
  obtain ⟨written, hwritten, rfl⟩ := Option.map_eq_some_iff.mp hversions
  obtain ⟨hkeys, hlayouts⟩ := h.storable.allVersions written hwritten
  exact ⟨by rwa [List.map_map], List.forall_mem_map.mpr fun e he => (hlayouts e he).stored⟩

theorem Implementation.Proper.isWritable_toJson (h : i.Proper) : i.toJson.isWritable = true := by
  rw [Implementation.toJson_eq, isWritable_obj]
  simp only [Implementation.fields, deploymentFields, List.forall_mem_append, List.forall_mem_cons,
    forall_mem_fieldIf]
  refine ⟨⟨⟨⟨⟨rfl, fun _ _ => rfl⟩, Layout.isWritable_toJson h.storable.layout,
    List.forall_mem_nil _⟩, h.abi⟩,
    fun as _ => (isExact_texts as).isSound.2⟩, fun versions hversions => ?_⟩
  rw [tableJson, isWritable_obj, List.forall_mem_map]
  exact fun e he => Layout.isWritable_toJson ((h.storable.allVersions versions hversions).2 e he)

/-- An implementation stays writable when its list of addresses is replaced. -/
theorem Implementation.Proper.withAddresses (h : i.Proper) (addresses : Option (List String)) :
    Implementation.Proper { i with allAddresses := addresses } :=
  ⟨⟨h.storable.layout, h.storable.abi, h.storable.allVersions⟩, h.writable, h.abi⟩

theorem Beacon.Proper.stored (h : b.Proper) : b.stored.Proper := by
  intro abi hmem
  obtain ⟨written, hwritten, rfl⟩ := Option.map_eq_some_iff.mp hmem
  exact (h written hwritten).stored

theorem Beacon.Proper.isWritable_toJson (h : b.Proper) : b.toJson.isWritable = true := by
  rw [Beacon.toJson, isWritable_obj]
  simp only [deploymentFields, List.forall_mem_append, List.forall_mem_cons, forall_mem_fieldIf]
  exact ⟨⟨rfl, fun _ _ => rfl⟩, fun abi habi => (h abi habi).2⟩

end

/-! ## Records -/

/-- Records that can be written and read again, in the current format. -/
structure Records.Proper (r : Records) : Prop where
  version : Version.ofText r.manifestVersion = .ok .current
  impls : ∀ e ∈ r.impls, e.2.Proper
  beacons : ∀ e ∈ r.beacons, e.2.Proper
  impls_nodup : (r.impls.map (·.1)).Nodup
  beacons_nodup : (r.beacons.map (·.1)).Nodup

namespace Records

variable {r : Records}

theorem proper_empty : ({} : Records).Proper :=
  ⟨ofText_currentVersion, List.forall_mem_nil _, List.forall_mem_nil _, List.nodup_nil, List.nodup_nil⟩

theorem Proper.addProxy (h : r.Proper) (p : Proxy) : (r.addProxy p).Proper :=
  ⟨h.version, h.impls, h.beacons, h.impls_nodup, h.beacons_nodup⟩

theorem Proper.sound (h : r.Proper) : r.Sound :=
  ⟨⟨fun e he => (h.impls e he).storable, fun e he abi habi => (h.beacons e he abi habi).1,
    h.impls_nodup, h.beacons_nodup⟩, h.version⟩

theorem Proper.isWritable (h : r.Proper) : r.isWritable = true :=
  List.all_eq_true.mpr fun e he => (h.impls e he).writable

theorem Proper.isWritable_toJson (h : r.Proper) : r.toJson.isWritable = true := by
  rw [toJson_eq, isWritable_obj]
  simp only [fields, List.forall_mem_append, List.forall_mem_cons, forall_mem_fieldIf]
  refine ⟨⟨⟨rfl, List.forall_mem_nil _⟩, fun a _ => a.isExact_toJson.isSound.2⟩, ?_, ?_, ?_,
    List.forall_mem_nil _⟩
  · exact (isExact_arr (List.forall_mem_map.mpr fun p _ => p.isExact_toJson)).isSound.2
  · rw [tableJson, isWritable_obj, List.forall_mem_map]
    exact fun e he => (h.impls e he).isWritable_toJson
  · rw [tableJson, isWritable_obj, List.forall_mem_map]
    exact fun e he => (h.beacons e he).isWritable_toJson

theorem Proper.exists_fileText (h : r.Proper) : ∃ text, Store.fileText r = .ok text := by
  refine ⟨r.toJson.writeIndented 0 ++ "\n", ?_⟩
  rw [Store.fileText, writable, if_pos h.isWritable_toJson]
  rfl

theorem Proper.stored (h : r.Proper) : r.stored.Proper := by
  refine ⟨h.version, List.forall_mem_map.mpr fun e he => (h.impls e he).stored,
    List.forall_mem_map.mpr fun e he => (h.beacons e he).stored, ?_, ?_⟩
  · rw [Records.stored, List.map_map]
    exact h.impls_nodup
  · rw [Records.stored, List.map_map]
    exact h.beacons_nodup

theorem Proper.putDeployment (h : r.Proper) (version : String) {i : Implementation} (hi : i.Proper) :
    (r.putDeployment version i).Proper := by
  refine ⟨h.version, fun e he => ?_, h.beacons, nodup_putField h.impls_nodup, h.beacons_nodup⟩
  rcases mem_putField he with rfl | he
  · exact hi
  · exact h.impls e he

theorem Proper.addDeployment (h : r.Proper) (version : String) {i : Implementation} (hi : i.Proper) :
    (r.addDeployment version i).Proper := by
  unfold Records.addDeployment
  split
  · split
    · exact h.putDeployment version hi
    · exact h.putDeployment version (hi.withAddresses _)
  · exact h.putDeployment version hi

theorem Proper.addBeacon (h : r.Proper) {b : Beacon} (hb : b.Proper) : (r.addBeacon b).Proper := by
  refine ⟨h.version, h.impls, fun e he => ?_, h.impls_nodup, nodup_putField h.beacons_nodup⟩
  rcases mem_putField he with rfl | he
  · exact hb
  · exact h.beacons e he

end Records

end Manifest

end UpgradeSafety
