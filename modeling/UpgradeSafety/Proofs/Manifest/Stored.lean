import UpgradeSafety.Manifest.Records
import UpgradeSafety.Proofs.Layout.Stored

/-!
# Records that were written and read

What is read for written records are the records themselves, with their layouts as they are read
back and the interfaces of contracts as their texts say (`Records.ofJson_toJson`). Records that
were read can be written and read again (`Records.storable_ofJson`), and so they can after a
deployment was added (`Records.Storable.addDeployment`).

Admins and proxies are read back exactly. A beacon may have an interface and an implementation has
layouts and may have one, and an interface is any document: in it floats come back as their texts
say, and those that are no numbers are written as null. So each part has what is stored of it, as a
function on its own type, and the reader applied to the written value gives that. For tables and
lists this is a general lemma about readers of elements (`list_map_reread`, `table_map_reread`).

No key may occur twice in a table, since a text that repeats a field is read as having it once.
-/

namespace UpgradeSafety.Manifest

open Schema Json

/-! ## What is read back -/

/-- What is read for the written interface of a contract. -/
def storedAbi (abi : List Json) : List Json := rereadItems (plainValues abi)

/-- What is read for a written beacon. -/
def Beacon.stored (b : Beacon) : Beacon := { b with abi := b.abi.map storedAbi }

/-- What is read for a written implementation. -/
def Implementation.stored (i : Implementation) : Implementation :=
  { i with
    layout := i.layout.stored
    abi := i.abi.map storedAbi
    allVersions := i.allVersions.map fun vs => vs.map fun e => (e.1, e.2.stored) }

/-- What is read for written records. -/
def Records.stored (r : Records) : Records :=
  { r with
    impls := r.impls.map fun e => (e.1, e.2.stored)
    beacons := r.beacons.map fun e => (e.1, e.2.stored) }

/-! ## What can be read back -/

/-- The layouts of an implementation can be read back, and no field occurs twice in its interface. -/
structure Implementation.Storable (i : Implementation) : Prop where
  layout : i.layout.Storable
  abi : ∀ abi ∈ i.abi, ∀ v ∈ abi, v.IsTidy
  allVersions : ∀ vs ∈ i.allVersions, (vs.map (·.1)).Nodup ∧ ∀ e ∈ vs, e.2.Storable

/-- The implementations and beacons can be read back, and none is listed twice. -/
structure Records.Storable (r : Records) : Prop where
  impls : ∀ e ∈ r.impls, e.2.Storable
  beacons : ∀ e ∈ r.beacons, ∀ abi ∈ e.2.abi, ∀ v ∈ abi, v.IsTidy
  impls_nodup : (r.impls.map (·.1)).Nodup
  beacons_nodup : (r.beacons.map (·.1)).Nodup

/-! ## Interfaces -/

theorem plainValues_eq_map (items : List Json) : plainValues items = items.map plainValue := by
  induction items with
  | nil => rfl
  | cons v items ih => rw [plainValues, ih, List.map_cons]

theorem plainFields_eq_map (fields : Fields) :
    plainFields fields = fields.map fun f => (f.1, plainValue f.2) := by
  induction fields with
  | nil => rfl
  | cons f fields ih => rw [plainFields, ih, List.map_cons]

theorem isReflexive_plainValue {v : Json} (h : v.IsTidy) : (plainValue v).IsReflexive := by
  induction v using Json.induct with
  | null => exact ⟨trivial, rfl⟩
  | bool b => exact (isExact_bool b).isReflexive
  | int n => exact ⟨trivial, same_int_iff.mpr rfl⟩
  | str s => exact (isExact_str s).isReflexive
  | float x =>
    rw [plainValue]
    split
    · rename_i hfinite
      exact ⟨trivial, float_same_self hfinite⟩
    · exact ⟨trivial, rfl⟩
  | arr items ih =>
    rw [plainValue, plainValues_eq_map, isReflexive_arr, List.forall_mem_map]
    exact fun v hv => ih v hv (isTidy_arr.mp h v hv)
  | obj fields ih =>
    rw [plainValue, plainFields_eq_map, isReflexive_obj, List.forall_mem_map, List.map_map]
    have := isTidy_obj.mp h
    exact ⟨this.1, fun f hf => ih f hf (this.2 f hf)⟩

theorem isReflexive_abiJson {abi : List Json} (h : ∀ v ∈ abi, v.IsTidy) :
    (abiJson abi).IsReflexive := by
  rw [abiJson, plainValues_eq_map, isReflexive_arr, List.forall_mem_map]
  exact fun v hv => isReflexive_plainValue (h v hv)

theorem list_abiJson (abi : List Json) :
    list anyValue (abiJson abi).reread = .valid (storedAbi abi) := by
  have hvalues : list anyValue (.arr ((storedAbi abi).map id)) = .valid ((storedAbi abi).map id) :=
    list_map fun _ _ => rfl
  rw [List.map_id] at hvalues
  rwa [abiJson, reread]

theorem abiJson_reread_ne_null (abi : List Json) : (abiJson abi).reread ≠ .null := by
  rw [abiJson, reread]
  exact Json.noConfusion

/-! ## Values that are read back as other ones -/

section Reread

variable {α β : Type} {check : Json → Checked α} {f : β → Json} {g : β → α}

theorem list_map_reread {l : List β} (h : ∀ b ∈ l, check (f b).reread = .valid (g b)) :
    list check (arr (l.map f)).reread = .valid (l.map g) := by
  rw [reread, rereadItems_eq_map, List.map_map]
  exact list_map h

theorem table_map_reread {l : List (String × β)}
    (h : ∀ e ∈ l, check (f e.2).reread = .valid (g e.2)) :
    table check (tableJson f l).reread = .valid (l.map fun e => (e.1, g e.2)) := by
  rw [tableJson, reread_obj, List.map_map]
  exact table_map (f := fun b => (f b).reread) h

end Reread

/-! ## Admins, proxies and beacons -/

theorem Admin.isExact_toJson (a : Admin) : a.toJson.IsExact := by
  refine isExact_obj ?_ ?_
  · rw [deploymentFields, List.map_cons]
    exact ((keys_fieldIf _ _).cons_cons "address").nodup (by decide)
  · rw [deploymentFields, List.forall_mem_cons, forall_mem_fieldIf]
    exact ⟨isExact_str _, fun s _ => isExact_str s⟩

theorem Admin.ofJson_toJson (a : Admin) : Admin.ofJson a.toJson = .valid a := by
  rw [toJson, ofJson, record,
    required_written _ (v := .str a.address) (a := a.address) (by simp [deploymentFields]) rfl,
    optional_written _ (f := Json.str) (g := id) (o := a.txHash)
      (by simp [deploymentFields, txHashName, lookup_cons_eq]) fun _ _ => ⟨Json.noConfusion, rfl⟩]
  simp

theorem ofName?_name (k : ProxyKind) : ProxyKind.ofName? k.name = some k := by
  cases k <;> decide

theorem Proxy.isExact_toJson (p : Proxy) : p.toJson.IsExact := by
  refine isExact_obj ?_ ?_
  · rw [deploymentFields, List.map_append, List.map_cons]
    exact (((keys_fieldIf _ _).cons_cons "address").append (List.Sublist.refl ["kind"])).nodup
      (by decide)
  · rw [deploymentFields, List.forall_mem_append, List.forall_mem_cons, forall_mem_fieldIf]
    exact ⟨⟨isExact_str _, fun s _ => isExact_str s⟩,
      List.forall_mem_cons.mpr ⟨isExact_str _, nofun⟩⟩

theorem Proxy.ofJson_toJson (p : Proxy) : Proxy.ofJson p.toJson = .valid p := by
  have hkind : oneOf ProxyKind.ofName? (.str p.kind.name) = .valid p.kind := by
    rw [oneOf, ofName?_name]
  rw [toJson, ofJson, record,
    required_written _ (v := .str p.address) (a := p.address) (by simp [deploymentFields]) rfl,
    optional_written _ (f := Json.str) (g := id) (o := p.txHash)
      (by simp [deploymentFields, txHashName, lookup_cons_eq]) fun _ _ => ⟨Json.noConfusion, rfl⟩,
    required_written _ (by simp [deploymentFields, lookup_cons_eq]) hkind]
  simp

namespace Beacon

variable {b : Beacon}

theorem isReflexive_toJson (h : ∀ abi ∈ b.abi, ∀ v ∈ abi, v.IsTidy) : b.toJson.IsReflexive := by
  rw [toJson, isReflexive_obj]
  constructor
  · rw [deploymentFields, List.map_append, List.map_cons]
    exact (((keys_fieldIf _ _).cons_cons "address").append (keys_fieldIf _ _)).nodup (by decide)
  · rw [deploymentFields, List.forall_mem_append, List.forall_mem_cons, forall_mem_fieldIf,
      forall_mem_fieldIf]
    exact ⟨⟨(isExact_str _).isReflexive, fun s _ => (isExact_str s).isReflexive⟩,
      fun abi habi => isReflexive_abiJson (h abi habi)⟩

theorem ofJson_toJson (b : Beacon) : Beacon.ofJson b.toJson.reread = .valid b.stored := by
  rw [toJson, reread_obj, ofJson, record,
    required_written _ (v := .str b.address) (a := b.address)
      (by simp [deploymentFields, reread]) rfl,
    optional_written _ (f := Json.str) (g := id) (o := b.txHash)
      (by simp [deploymentFields, txHashName, lookup_map_values, lookup_cons_eq, reread,
        Function.comp_def]) fun _ _ => ⟨Json.noConfusion, rfl⟩,
    optional_written _ (f := fun abi => (abiJson abi).reread) (g := storedAbi) (o := b.abi)
      (by simp [deploymentFields, lookup_map_values, lookup_cons_eq, Function.comp_def])
      fun abi _ => ⟨abiJson_reread_ne_null abi, list_abiJson abi⟩]
  simp [stored]

end Beacon

/-! ## Implementations -/

namespace Implementation

variable {i : Implementation}

/-- The fields of a written implementation. -/
def fields (i : Implementation) : Fields :=
  deploymentFields i.address i.txHash ++ [("layout", i.layout.toJson)] ++
    fieldIf "abi" abiJson i.abi ++
    fieldIf "allAddresses" (fun as => .arr (as.map .str)) i.allAddresses ++
    fieldIf "allVersions" (tableJson Layout.toJson) i.allVersions

theorem toJson_eq (i : Implementation) : i.toJson = .obj i.fields := rfl

theorem keys_fields (i : Implementation) : (i.fields.map (·.1)).Nodup := by
  have hkeys : (i.fields.map (·.1)).Sublist
      (["address", "txHash"] ++ ["layout"] ++ ["abi"] ++ ["allAddresses"] ++ ["allVersions"]) := by
    simp only [fields, deploymentFields, List.map_append, List.map_cons]
    exact (((((keys_fieldIf _ _).cons_cons "address").append (List.Sublist.refl _)).append
      (keys_fieldIf _ _)).append (keys_fieldIf _ _)).append (keys_fieldIf _ _)
  exact hkeys.nodup (by decide)

theorem isExact_texts (ss : List String) : (arr (ss.map Json.str)).IsExact :=
  isExact_arr (List.forall_mem_map.mpr fun s _ => isExact_str s)

theorem list_texts (ss : List String) : list text (arr (ss.map Json.str)).reread = .valid ss := by
  rw [(isExact_texts ss).reread_eq]
  have htexts : list text (.arr (ss.map Json.str)) = .valid (ss.map id) := list_map fun _ _ => rfl
  rwa [List.map_id] at htexts

theorem isReflexive_toJson (h : i.Storable) : i.toJson.IsReflexive := by
  rw [toJson_eq, isReflexive_obj]
  refine ⟨keys_fields i, ?_⟩
  simp only [fields, deploymentFields, List.forall_mem_append, List.forall_mem_cons,
    forall_mem_fieldIf]
  exact ⟨⟨⟨⟨⟨(isExact_str _).isReflexive, fun s _ => (isExact_str s).isReflexive⟩,
    (Layout.isExact_toJson h.layout).isReflexive, nofun⟩,
    fun abi habi => isReflexive_abiJson (h.abi abi habi)⟩,
    fun as _ => (isExact_texts as).isReflexive⟩,
    fun vs hvs => (isExact_tableJson (h.allVersions vs hvs).1
      fun e he => Layout.isExact_toJson ((h.allVersions vs hvs).2 e he)).isReflexive⟩

theorem ofJson_toJson (h : i.Storable) (hwritable : i.isWritable = true) :
    Implementation.ofJson i.toJson.reread = .valid i.stored := by
  rw [isWritable, Bool.and_eq_true] at hwritable
  have hlayout {l : Layout} (hl : l.Storable) (hwritable : l.isWritable = true) :
      Layout.ofJson l.toJson.reread = .valid l.stored := by
    rw [(Layout.isExact_toJson hl).reread_eq, Layout.ofJson_toJson hl hwritable]
  have hversions : ∀ vs ∈ i.allVersions, ∀ e ∈ vs, e.2.isWritable = true := fun vs hvs => by
    have := hwritable.2
    rw [Option.mem_def.mp hvs, Option.getD_some, List.all_eq_true] at this
    exact this
  rw [toJson_eq, reread_obj, ofJson, record,
    required_written _ (v := .str i.address) (a := i.address)
      (by simp [fields, deploymentFields, reread]) rfl,
    optional_written _ (f := Json.str) (g := id) (o := i.txHash)
      (by simp [fields, deploymentFields, txHashName, lookup_map_values, lookup_cons_eq, reread,
        Function.comp_def]) fun _ _ => ⟨Json.noConfusion, rfl⟩,
    required_written _ (v := i.layout.toJson.reread)
      (by simp [fields, deploymentFields, lookup_map_values, lookup_cons_eq])
      (hlayout h.layout hwritable.1),
    optional_written _ (f := fun abi => (abiJson abi).reread) (g := storedAbi) (o := i.abi)
      (by simp [fields, deploymentFields, lookup_map_values, lookup_cons_eq, Function.comp_def])
      fun abi _ => ⟨abiJson_reread_ne_null abi, list_abiJson abi⟩,
    optional_written _ (f := fun as => (arr (as.map Json.str)).reread) (g := id) (o := i.allAddresses)
      (by simp [fields, deploymentFields, lookup_map_values, lookup_cons_eq, Function.comp_def])
      fun as _ => ⟨Json.noConfusion, list_texts as⟩,
    optional_written _ (f := fun vs => (tableJson Layout.toJson vs).reread)
      (g := fun vs => vs.map fun e => (e.1, e.2.stored)) (o := i.allVersions)
      (by simp [fields, deploymentFields, lookup_map_values, lookup_cons_eq, Function.comp_def])
      fun vs hvs => ⟨Json.noConfusion, table_map_reread fun e he =>
        hlayout ((h.allVersions vs hvs).2 e he) (hversions vs hvs e he)⟩]
  simp [stored]

end Implementation

/-! ## Records -/

namespace Records

variable {r : Records}

/-- The fields of written records. -/
def fields (r : Records) : Fields :=
  [("manifestVersion", .str r.manifestVersion)] ++ fieldIf "admin" Admin.toJson r.admin ++
    [("proxies", .arr (r.proxies.map Proxy.toJson)),
      ("impls", tableJson Implementation.toJson r.impls),
      ("beacons", tableJson Beacon.toJson r.beacons)]

theorem toJson_eq (r : Records) : r.toJson = .obj r.fields := rfl

theorem keys_fields (r : Records) : (r.fields.map (·.1)).Nodup := by
  have hkeys : (r.fields.map (·.1)).Sublist
      (["manifestVersion"] ++ ["admin"] ++ ["proxies", "impls", "beacons"]) := by
    simp only [fields, List.map_append]
    exact ((List.Sublist.refl _).append (keys_fieldIf _ _)).append (List.Sublist.refl _)
  exact hkeys.nodup (by decide)

theorem isReflexive_tableJson {α : Type} {f : α → Json} {entries : List (String × α)}
    (hkeys : (entries.map (·.1)).Nodup) (h : ∀ e ∈ entries, (f e.2).IsReflexive) :
    (tableJson f entries).IsReflexive := by
  rw [tableJson, isReflexive_obj, List.map_map, List.forall_mem_map]
  exact ⟨hkeys, h⟩

/-- No field of written records occurs twice, and they are the same as themselves. -/
theorem isReflexive_toJson (h : r.Storable) : r.toJson.IsReflexive := by
  rw [toJson_eq, isReflexive_obj]
  refine ⟨keys_fields r, ?_⟩
  simp only [fields, List.forall_mem_append, List.forall_mem_cons, forall_mem_fieldIf]
  exact ⟨⟨⟨(isExact_str _).isReflexive, nofun⟩, fun a _ => a.isExact_toJson.isReflexive⟩,
    (isExact_arr (List.forall_mem_map.mpr fun p _ => p.isExact_toJson)).isReflexive,
    isReflexive_tableJson h.impls_nodup fun e he => Implementation.isReflexive_toJson (h.impls e he),
    isReflexive_tableJson h.beacons_nodup
      fun e he => Beacon.isReflexive_toJson (h.beacons e he), nofun⟩

/-- Written records are read back. -/
theorem ofJson_toJson (h : r.Storable) (hwritable : r.isWritable = true) :
    Records.ofJson r.toJson.reread = .valid r.stored := by
  rw [isWritable, List.all_eq_true] at hwritable
  rw [toJson_eq, reread_obj, ofJson, record,
    defaulted_written _ (v := .str r.manifestVersion) (a := r.manifestVersion)
      (by simp [fields, reread]) rfl,
    optional_written _ (f := fun a => (Admin.toJson a).reread) (g := id) (o := r.admin)
      (by simp [fields, lookup_map_values, lookup_cons_eq, Function.comp_def])
      fun a _ => ⟨Json.noConfusion, by rw [a.isExact_toJson.reread_eq]; exact a.ofJson_toJson⟩,
    defaulted_written _ (v := (Json.arr (r.proxies.map Proxy.toJson)).reread) (a := r.proxies.map id)
      (by simp [fields, lookup_map_values, lookup_cons_eq])
      (list_map_reread fun p _ => by rw [p.isExact_toJson.reread_eq]; exact p.ofJson_toJson),
    defaulted_written _ (v := (tableJson Implementation.toJson r.impls).reread)
      (by simp [fields, lookup_map_values, lookup_cons_eq])
      (table_map_reread fun e he => Implementation.ofJson_toJson (h.impls e he) (hwritable e he)),
    defaulted_written _ (v := (tableJson Beacon.toJson r.beacons).reread)
      (by simp [fields, lookup_map_values, lookup_cons_eq])
      (table_map_reread fun e _ => e.2.ofJson_toJson)]
  simp [stored]

end Records

/-! ## What was read can be read back -/

section Read

variable {v : Json}

theorem isTidy_of_mem_list {α : Type} {check : Json → Checked α} {l : List α} (hv : v.IsTidy)
    (h : list check v = .valid l) {a : α} (ha : a ∈ l) : ∃ w, w.IsTidy ∧ check w = .valid a := by
  obtain ⟨items, w, rfl, hmem, hw⟩ := exists_of_mem_list h ha
  exact ⟨w, isTidy_arr.mp hv w hmem, hw⟩

theorem isTidy_of_mem_table {α : Type} {check : Json → Checked α} {l : List (String × α)}
    (hv : v.IsTidy) (h : table check v = .valid l) {e : String × α} (he : e ∈ l) :
    ∃ w, w.IsTidy ∧ check w = .valid e.2 := by
  obtain ⟨fields, w, rfl, hmem, hw⟩ := exists_of_mem_table h he
  exact ⟨w, (isTidy_obj.mp hv).2 _ hmem, hw⟩

theorem isTidy_of_abi {fields : Fields} (hv : (obj fields).IsTidy) {o : Option (List Json)}
    (h : optional fields (.plain "abi") (list anyValue) = .valid o) :
    ∀ abi ∈ o, ∀ v ∈ abi, v.IsTidy := by
  intro abi habi v hmem
  rcases optional_eq_valid_iff.mp h with ⟨w, a, hvalue, -, ha, hsome⟩ | ⟨-, hnone⟩
  · cases hsome.symm.trans habi
    obtain ⟨u, hu, hcheck⟩ := isTidy_of_mem_list (isTidy_of_value? hv hvalue) ha hmem
    cases hcheck
    exact hu
  · cases hnone.symm.trans habi

theorem Beacon.isTidy_ofJson {b : Beacon} (h : Beacon.ofJson v = .valid b) (hv : v.IsTidy) :
    ∀ abi ∈ b.abi, ∀ v ∈ abi, v.IsTidy := by
  obtain ⟨fields, rfl, hread⟩ := exists_fields_of_record h
  simp only [Checked.seq_eq_valid_iff, Checked.map_eq_valid_iff] at hread
  obtain ⟨_, abi, ⟨_, _, ⟨_, -, rfl⟩, -, rfl⟩, habi, rfl⟩ := hread
  exact isTidy_of_abi hv habi

theorem Implementation.storable_ofJson {i : Implementation}
    (h : Implementation.ofJson v = .valid i) (hv : v.IsTidy) : i.Storable := by
  obtain ⟨fields, rfl, hread⟩ := exists_fields_of_record h
  simp only [Checked.seq_eq_valid_iff, Checked.map_eq_valid_iff] at hread
  obtain ⟨_, versions, ⟨_, _, ⟨_, abi, ⟨_, layout, ⟨_, _, ⟨_, -, rfl⟩, -, rfl⟩, hlayout, rfl⟩, habi,
    rfl⟩, -, rfl⟩, hversions, rfl⟩ := hread
  refine ⟨?_, isTidy_of_abi hv habi, fun vs hvs => ?_⟩
  · obtain ⟨w, hvalue, hw⟩ := required_eq_valid_iff.mp hlayout
    exact Layout.storable_ofJson hw (isTidy_of_value? hv hvalue)
  · rcases optional_eq_valid_iff.mp hversions with ⟨w, vs', hvalue, -, hw, hsome⟩ | ⟨-, hnone⟩
    · cases hsome.symm.trans hvs
      have hw' := isTidy_of_value? hv hvalue
      refine ⟨nodup_of_table hw hw', fun e he => ?_⟩
      obtain ⟨u, hu, hcheck⟩ := isTidy_of_mem_table hw' hw he
      exact Layout.storable_ofJson hcheck hu
    · cases hnone.symm.trans hvs

/-- Records that were read can be written and read again. -/
theorem Records.storable_ofJson {r : Records} (h : Records.ofJson v = .valid r) (hv : v.IsTidy) :
    r.Storable := by
  obtain ⟨fields, rfl, hread⟩ := exists_fields_of_record h
  simp only [Checked.seq_eq_valid_iff, Checked.map_eq_valid_iff] at hread
  obtain ⟨_, beacons, ⟨_, impls, ⟨_, _, ⟨_, _, ⟨_, -, rfl⟩, -, rfl⟩, -, rfl⟩, himpls, rfl⟩, hbeacons,
    rfl⟩ := hread
  refine ⟨?_, ?_, ?_, ?_⟩
  · rcases defaulted_eq_valid_iff.mp himpls with ⟨w, hvalue, hw⟩ | ⟨-, rfl⟩
    · intro e he
      obtain ⟨u, hu, hcheck⟩ := isTidy_of_mem_table (isTidy_of_value? hv hvalue) hw he
      exact Implementation.storable_ofJson hcheck hu
    · exact List.forall_mem_nil _
  · rcases defaulted_eq_valid_iff.mp hbeacons with ⟨w, hvalue, hw⟩ | ⟨-, rfl⟩
    · intro e he
      obtain ⟨u, hu, hcheck⟩ := isTidy_of_mem_table (isTidy_of_value? hv hvalue) hw he
      exact Beacon.isTidy_ofJson hcheck hu
    · exact List.forall_mem_nil _
  · rcases defaulted_eq_valid_iff.mp himpls with ⟨w, hvalue, hw⟩ | ⟨-, rfl⟩
    · exact nodup_of_table hw (isTidy_of_value? hv hvalue)
    · exact List.nodup_nil
  · rcases defaulted_eq_valid_iff.mp hbeacons with ⟨w, hvalue, hw⟩ | ⟨-, rfl⟩
    · exact nodup_of_table hw (isTidy_of_value? hv hvalue)
    · exact List.nodup_nil

end Read

/-! ## Adding a deployment -/

theorem Records.storable_empty : ({} : Records).Storable :=
  ⟨List.forall_mem_nil _, List.forall_mem_nil _, List.nodup_nil, List.nodup_nil⟩

theorem Records.Storable.putDeployment {r : Records} (h : r.Storable) (version : String)
    {i : Implementation} (hi : i.Storable) : (r.putDeployment version i).Storable := by
  refine ⟨fun e he => ?_, h.beacons, nodup_putField h.impls_nodup, h.beacons_nodup⟩
  rcases mem_putField he with rfl | he
  · exact hi
  · exact h.impls e he

theorem Records.Storable.addDeployment {r : Records} (h : r.Storable) (version : String)
    {i : Implementation} (hi : i.Storable) : (r.addDeployment version i).Storable := by
  unfold Records.addDeployment
  split
  · split
    · exact h.putDeployment version hi
    · exact h.putDeployment version ⟨hi.layout, hi.abi, hi.allVersions⟩
  · exact h.putDeployment version hi

end UpgradeSafety.Manifest
