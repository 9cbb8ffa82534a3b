import UpgradeSafety.Proofs.Json.Reading
import UpgradeSafety.Proofs.Numeral.Decimal
import UpgradeSafety.Proofs.Schema.Fields

/-!
# Layouts that were written and read

What is read for a written layout is the layout itself, except for what is not written: the syntax
tree ids, and the difference between absent and default values (`Layout.stored`). This holds when
all names are texts, the offsets lie within a slot and no type or namespace is listed twice
(`Layout.Storable`), which is what a layout that was read satisfies in turn
(`Layout.storable_ofJson`).

Items, members, entries and layouts are gone through in this order, and of each is shown the same:
its fields with their names (`toJson_eq`), that it is written exactly (`isExact_toJson`), and that
its reader gives back what is stored of it (`ofJson_toJson`). A field that is left out when it has
no value is read as having none.

* `Layout.load_encode`: a layout that was read, written and read again is the layout without syntax
  tree ids, unless it names no format: then it has the current one when it is read again.
-/

namespace UpgradeSafety

open Schema

/-! ## What is read back -/

/-- What is read for a written item. -/
def Item.stored (item : Item) : Item :=
  { item with contract := if item.contract = .null then .str "" else item.contract, astId := none }

/-- What is read for written members: an empty list is one of variables. -/
def Members.stored : Members → Members
  | items is => items (is.map Item.stored)
  | names [] => items []
  | members => members

/-- What is read for a written type entry. -/
def TypeEntry.stored (entry : TypeEntry) : TypeEntry :=
  { entry with members := entry.members.map Members.stored }

/-- What is read for a written layout. -/
def Layout.stored (layout : Layout) : Layout where
  layoutVersion := some (layout.layoutVersion.getD currentVersion)
  solcVersion := layout.solcVersion
  storage := layout.storage.map Item.stored
  types := layout.types.map fun e => (e.1, e.2.stored)
  namespaces := layout.namespaces.map fun e => (e.1, e.2.map Item.stored)
  flat := layout.flat

/-! ## What can be read back -/

/-- The contract of an item has a text for a name, or none, and its offset lies within a slot. -/
structure Item.Storable (item : Item) : Prop where
  contract : item.contract = .null ∨ ∃ s, item.contract = .str s
  offset : ∀ n ∈ item.offset, 0 ≤ n ∧ n < 32

/-- Members are items that can be read back, or names. -/
def Members.Storable : Members → Prop
  | items is => ∀ i ∈ is, i.Storable
  | names _ => True
  | unnamed _ => False

/-- The parts of a layout can be read back, and no type or namespace is listed twice. -/
structure Layout.Storable (layout : Layout) : Prop where
  storage : ∀ i ∈ layout.storage, i.Storable
  members : ∀ e ∈ layout.types, ∀ m ∈ e.2.members, m.Storable
  namespaces : ∀ e ∈ layout.namespaces, ∀ i ∈ e.2, i.Storable
  types_nodup : (layout.types.map (·.1)).Nodup
  namespaces_nodup : (layout.namespaces.map (·.1)).Nodup

open Json

section Fields

variable {α : Type} {f : α → Json}

theorem isExact_tableJson {entries : List (String × α)} (hkeys : (entries.map (·.1)).Nodup)
    (h : ∀ e ∈ entries, (f e.2).IsExact) : (tableJson f entries).IsExact := by
  refine isExact_obj ?_ fun g hg => ?_
  · rwa [List.map_map]
  · obtain ⟨e, he, rfl⟩ := List.mem_map.mp hg
    exact h e he

theorem keys_fieldIf (name : String) (o : Option α) :
    ((fieldIf name f o).map (·.1)).Sublist [name] := by
  cases o with
  | none => exact List.nil_sublist _
  | some a => exact List.Sublist.refl _

theorem forall_mem_fieldIf {name : String} {o : Option α} {P : String × Json → Prop} :
    (∀ g ∈ fieldIf name f o, P g) ↔ ∀ a ∈ o, P (name, f a) := by
  cases o <;> simp [fieldIf]

end Fields

/-! ## Numbers -/

theorem writtenWhole_decimalText {base : Numeral.Base} (hbase : base = .asMarked ∨ base = .ten)
    {n : Int} (h : Numeral.isWritable n = true) :
    writtenWhole base (decimalText n) = .valid n := by
  rw [decimalText, writtenWhole, Numeral.readInteger_toString hbase h]

theorem readOffset_int {n : Int} (h : 0 ≤ n ∧ n < 32) : readOffset (.int n) = .valid n := by
  rw [readOffset, writtenWhole, whole, Checked.andThen, if_pos h]
  exact fun _ => Json.noConfusion

theorem isWritable_of_offset {n : Int} (h : 0 ≤ n ∧ n < 32) : Numeral.isWritable n = true :=
  isWritable_of_lt (k := 2) (by decide) (by omega)

theorem isWritable?_iff {o : Option Int} :
    isWritable? o = true ↔ ∀ n ∈ o, Numeral.isWritable n = true := by
  cases o <;> simp [isWritable?]

/-! ## Items -/

namespace Item

variable {item : Item}

/-- The fields of a written item. -/
def fields (item : Item) : Fields :=
  [("label", .str item.label), ("type", .str item.type)] ++
    fieldIf "contract" id (if item.contract = .null then none else some item.contract) ++
    [("src", .str item.src)] ++
    fieldIf "slot" decimalText item.slot ++ fieldIf "offset" Json.int item.offset ++
    fieldIf "renamedFrom" Json.str item.renamedFrom ++
    fieldIf "retypedFrom" Json.str item.retypedFrom

theorem toJson_eq (item : Item) : item.toJson = .obj item.fields := by
  rw [toJson, fields]
  split <;> rfl

theorem keys_fields (item : Item) : (item.fields.map (·.1)).Nodup := by
  have hkeys : (item.fields.map (·.1)).Sublist (["label", "type"] ++ ["contract"] ++ ["src"] ++
      ["slot"] ++ ["offset"] ++ ["renamedFrom"] ++ ["retypedFrom"]) := by
    simp only [fields, List.map_append]
    exact ((((((List.Sublist.refl _).append (keys_fieldIf _ _)).append (List.Sublist.refl _)).append
      (keys_fieldIf _ _)).append (keys_fieldIf _ _)).append (keys_fieldIf _ _)).append
      (keys_fieldIf _ _)
  exact hkeys.nodup (by decide)

theorem isExact_toJson (h : item.Storable) : item.toJson.IsExact := by
  rw [toJson_eq]
  refine isExact_obj (keys_fields item) ?_
  simp only [fields, List.forall_mem_append, forall_mem_fieldIf, List.forall_mem_cons]
  have hcontract : item.contract ≠ .null → item.contract.IsExact := by
    intro hnull
    obtain ⟨s, hs⟩ := h.contract.resolve_left hnull
    exact hs ▸ isExact_str s
  refine ⟨⟨⟨⟨⟨⟨⟨isExact_str _, isExact_str _, nofun⟩, ?_⟩, isExact_str _, nofun⟩,
    fun n _ => isExact_str _⟩, fun n hn => isExact_int (isWritable_of_offset (h.offset n hn))⟩,
    fun s _ => isExact_str s⟩, fun s _ => isExact_str s⟩
  intro v hv
  split at hv
  · cases hv
  · rename_i hnull
    cases hv
    exact hcontract hnull

theorem ofJson_toJson (h : item.Storable) (hwritable : item.isWritable = true) :
    Item.ofJson item.toJson = .valid item.stored := by
  rw [isWritable, isWritable?_iff] at hwritable
  have hcontract : Json.str <$> defaulted item.fields (.plain "contract") text "" =
      .valid item.stored.contract := by
    rw [Checked.map_eq_valid_iff]
    rcases h.contract with hnull | ⟨s, hs⟩
    · refine ⟨"", defaulted_eq_valid_iff.mpr (Or.inr ⟨?_, rfl⟩), by simp [stored, hnull]⟩
      simp [fields, lookup_cons_eq, hnull]
    · refine ⟨s, defaulted_written _ (v := .str s) ?_ rfl, by simp [stored, hs]⟩
      simp [fields, lookup_cons_eq, hs]
  rw [toJson_eq, ofJson, record, ofFields, hcontract,
    required_written _ (v := .str item.label) (a := item.label) (by simp [fields]) rfl,
    required_written _ (v := .str item.type) (a := item.type) (by simp [fields, lookup_cons_eq]) rfl,
    defaulted_written (.plain "src") (v := .str item.src) (a := item.src)
      (by simp [fields, lookup_cons_eq]) rfl,
    optional_written (.plain "slot") (f := decimalText) (g := id) (o := item.slot)
      (by simp [fields, lookup_cons_eq])
      fun n hn => ⟨Json.noConfusion, writtenWhole_decimalText (Or.inl rfl) (hwritable n hn)⟩,
    optional_written (.plain "offset") (f := Json.int) (g := id) (o := item.offset)
      (by simp [fields, lookup_cons_eq]) fun n hn => ⟨Json.noConfusion, readOffset_int (h.offset n hn)⟩,
    optional_written ⟨"astId", "ast_id"⟩ (f := Json.int) (g := id) (o := none)
      (by simp [fields, lookup_cons_eq]) (fun _ h => by cases h),
    optional_written ⟨"renamedFrom", "renamed_from"⟩ (f := Json.str) (g := id)
      (o := item.renamedFrom) (by simp [fields, lookup_cons_eq]) fun _ _ => ⟨Json.noConfusion, rfl⟩,
    optional_written ⟨"retypedFrom", "retyped_from"⟩ (f := Json.str) (g := id)
      (o := item.retypedFrom) (by simp [fields, lookup_cons_eq]) fun _ _ => ⟨Json.noConfusion, rfl⟩]
  simp [stored]

end Item

/-! ## Types -/

theorem list_items {is : List Item} (h : ∀ i ∈ is, i.Storable)
    (hwritable : ∀ i ∈ is, i.isWritable = true) :
    list Item.ofJson (.arr (is.map Item.toJson)) = .valid (is.map Item.stored) :=
  list_map fun i hi => Item.ofJson_toJson (h i hi) (hwritable i hi)

theorem isExact_items {is : List Item} (h : ∀ i ∈ is, i.Storable) :
    (arr (is.map Item.toJson)).IsExact :=
  isExact_arr fun v hv => by
    obtain ⟨i, hi, rfl⟩ := List.mem_map.mp hv
    exact Item.isExact_toJson (h i hi)

namespace Members

variable {members : Members}

theorem isExact_toJson (h : members.Storable) : members.toJson.IsExact := by
  cases members with
  | items is => exact isExact_items h
  | names ns =>
    refine isExact_arr fun v hv => ?_
    obtain ⟨s, -, rfl⟩ := List.mem_map.mp hv
    exact isExact_str s
  | unnamed vs => exact h.elim

theorem ofJson_toJson (h : members.Storable) (hwritable : members.isWritable = true) :
    Members.ofJson members.toJson = .valid members.stored := by
  cases members with
  | items is => rw [ofJson, toJson, list_items h (List.all_eq_true.mp hwritable), stored]
  | names ns =>
    cases ns with
    | nil => rfl
    | cons n ns =>
      have htexts : list text (.arr ((n :: ns).map Json.str)) = .valid ((n :: ns).map id) :=
        list_map fun _ _ => rfl
      -- the first name is no item
      obtain ⟨ps, hps⟩ : ∃ ps, list Item.ofJson (.arr ((n :: ns).map Json.str)) = .invalid ps := by
        cases hitems : list Item.ofJson (.arr ((n :: ns).map Json.str)) with
        | valid is =>
          have := Checked.allFrom_eq_valid_iff.mp hitems
          rw [List.map_cons, List.forall₂_cons_left_iff] at this
          obtain ⟨i, -, hi, -⟩ := this
          cases hi
        | invalid ps => exact ⟨ps, rfl⟩
      rw [ofJson, toJson, hps, htexts, List.map_id]
      rfl
  | unnamed vs => exact h.elim

end Members

namespace TypeEntry

variable {entry : TypeEntry}

/-- The fields of a written type entry. -/
def fields (entry : TypeEntry) : Fields :=
  [("label", Json.str entry.label)] ++ fieldIf "encoding" Json.str entry.encoding ++
    fieldIf "numberOfBytes" decimalText entry.numberOfBytes ++
    fieldIf "members" Members.toJson entry.members ++ fieldIf "base" Json.str entry.base ++
    fieldIf "key" Json.str entry.key ++ fieldIf "value" Json.str entry.value

theorem toJson_eq (entry : TypeEntry) : entry.toJson = .obj entry.fields := by
  simp [toJson, fields]

theorem keys_fields (entry : TypeEntry) : (entry.fields.map (·.1)).Nodup := by
  have hkeys : (entry.fields.map (·.1)).Sublist (["label"] ++ ["encoding"] ++ ["numberOfBytes"] ++
      ["members"] ++ ["base"] ++ ["key"] ++ ["value"]) := by
    simp only [fields, List.map_append]
    exact ((((((List.Sublist.refl _).append (keys_fieldIf _ _)).append (keys_fieldIf _ _)).append
      (keys_fieldIf _ _)).append (keys_fieldIf _ _)).append (keys_fieldIf _ _)).append
      (keys_fieldIf _ _)
  exact hkeys.nodup (by decide)

theorem isExact_toJson (h : ∀ m ∈ entry.members, m.Storable) : entry.toJson.IsExact := by
  rw [toJson_eq]
  refine isExact_obj (keys_fields entry) ?_
  simp only [fields, List.forall_mem_append, forall_mem_fieldIf, List.forall_mem_cons]
  exact ⟨⟨⟨⟨⟨⟨⟨isExact_str _, nofun⟩, fun s _ => isExact_str s⟩, fun n _ => isExact_str _⟩,
    fun m hm => Members.isExact_toJson (h m hm)⟩, fun s _ => isExact_str s⟩,
    fun s _ => isExact_str s⟩, fun s _ => isExact_str s⟩

theorem ofJson_toJson (h : ∀ m ∈ entry.members, m.Storable) (hwritable : entry.isWritable = true) :
    TypeEntry.ofJson entry.toJson = .valid entry.stored := by
  rw [isWritable, Bool.and_eq_true, isWritable?_iff] at hwritable
  have hmembers : ∀ m ∈ entry.members, m.isWritable = true := fun m hm => by
    have := hwritable.2
    rwa [Option.mem_def.mp hm] at this
  have hnull (m : Members) : m.toJson ≠ .null := by cases m <;> exact Json.noConfusion
  rw [toJson_eq, ofJson, record,
    required_written _ (v := .str entry.label) (a := entry.label) (by simp [fields]) rfl,
    optional_written (.plain "encoding") (f := Json.str) (g := id) (o := entry.encoding)
      (by simp [fields, lookup_cons_eq]) fun _ _ => ⟨Json.noConfusion, rfl⟩,
    optional_written ⟨"numberOfBytes", "number_of_bytes"⟩ (f := decimalText) (g := id)
      (o := entry.numberOfBytes) (by simp [fields, lookup_cons_eq])
      fun n hn => ⟨Json.noConfusion, writtenWhole_decimalText (Or.inr rfl) (hwritable.1 n hn)⟩,
    optional_written (.plain "members") (f := Members.toJson) (g := Members.stored)
      (o := entry.members) (by simp [fields, lookup_cons_eq])
      fun m hm => ⟨hnull m, Members.ofJson_toJson (h m hm) (hmembers m hm)⟩,
    optional_written (.plain "base") (f := Json.str) (g := id) (o := entry.base)
      (by simp [fields, lookup_cons_eq]) fun _ _ => ⟨Json.noConfusion, rfl⟩,
    optional_written (.plain "key") (f := Json.str) (g := id) (o := entry.key)
      (by simp [fields, lookup_cons_eq]) fun _ _ => ⟨Json.noConfusion, rfl⟩,
    optional_written (.plain "value") (f := Json.str) (g := id) (o := entry.value)
      (by simp [fields, lookup_cons_eq]) fun _ _ => ⟨Json.noConfusion, rfl⟩]
  simp [stored]

end TypeEntry

/-! ## Layouts -/

namespace Layout

variable {layout : Layout}

/-- The fields of a written layout. -/
def fields (layout : Layout) : Fields :=
  fieldIf "layoutVersion" Json.str layout.layoutVersion ++
    fieldIf "solcVersion" Json.str layout.solcVersion ++
    [("storage", .arr (layout.storage.map Item.toJson)),
      ("types", tableJson TypeEntry.toJson layout.types),
      ("namespaces", tableJson (fun is => .arr (is.map Item.toJson)) layout.namespaces),
      ("flat", .bool layout.flat)]

theorem toJson_eq (layout : Layout) : layout.toJson = .obj layout.fields := rfl

theorem keys_fields (layout : Layout) : (layout.fields.map (·.1)).Nodup := by
  have hkeys : (layout.fields.map (·.1)).Sublist
      (["layoutVersion"] ++ ["solcVersion"] ++ ["storage", "types", "namespaces", "flat"]) := by
    simp only [fields, List.map_append]
    exact ((keys_fieldIf _ _).append (keys_fieldIf _ _)).append (List.Sublist.refl _)
  exact hkeys.nodup (by decide)

/-- A layout that can be read back is written exactly. -/
theorem isExact_toJson (h : layout.Storable) : layout.toJson.IsExact := by
  rw [toJson_eq]
  refine isExact_obj (keys_fields layout) ?_
  simp only [fields, List.forall_mem_append, forall_mem_fieldIf, List.forall_mem_cons]
  exact ⟨⟨fun s _ => isExact_str s, fun s _ => isExact_str s⟩, isExact_items h.storage,
    isExact_tableJson h.types_nodup fun e he => TypeEntry.isExact_toJson (h.members e he),
    isExact_tableJson h.namespaces_nodup fun e he => isExact_items (h.namespaces e he),
    isExact_bool _, nofun⟩

/-- A written layout is read back. -/
theorem ofJson_toJson (h : layout.Storable) (hwritable : layout.isWritable = true) :
    Layout.ofJson layout.toJson = .valid layout.stored := by
  simp only [isWritable, Bool.and_eq_true, List.all_eq_true] at hwritable
  obtain ⟨⟨hstorage, htypes⟩, hnamespaces⟩ := hwritable
  have hversion : defaulted layout.fields ⟨"layoutVersion", "layout_version"⟩ (nullable text)
      (some currentVersion) = .valid (some (layout.layoutVersion.getD currentVersion)) := by
    rw [defaulted_eq_valid_iff]
    cases hv : layout.layoutVersion with
    | none => exact Or.inr ⟨by simp [fields, lookup_cons_eq, hv], rfl⟩
    | some v => exact Or.inl ⟨.str v, by simp [fields, hv], rfl⟩
  rw [toJson_eq, ofJson, record, hversion,
    optional_written ⟨"solcVersion", "solc_version"⟩ (f := Json.str) (g := id)
      (o := layout.solcVersion) (by simp [fields, lookup_cons_eq]) fun _ _ => ⟨Json.noConfusion, rfl⟩,
    defaulted_written _ (by simp [fields]) (list_items h.storage hstorage),
    defaulted_written _ (v := tableJson TypeEntry.toJson layout.types)
      (by simp [fields, lookup_cons_eq])
      (table_map fun e he => TypeEntry.ofJson_toJson (h.members e he) (htypes e he)),
    defaulted_written _
      (v := tableJson (fun is => .arr (is.map Item.toJson)) layout.namespaces)
      (a := layout.namespaces.map fun e => (e.1, e.2.map Item.stored))
      (by simp [fields, lookup_cons_eq])
      (table_map fun e he => list_items (h.namespaces e he) (hnamespaces e he)),
    defaulted_written _ (v := .bool layout.flat) (a := layout.flat)
      (by simp [fields, lookup_cons_eq]) rfl]
  simp [stored]

end Layout

/-! ## What was read can be read back -/

theorem readOffset_eq_valid {v : Json} {n : Int} (h : readOffset v = .valid n) : 0 ≤ n ∧ n < 32 := by
  obtain ⟨m, -, hm⟩ := Checked.andThen_eq_valid_iff.mp h
  split at hm
  · rename_i hrange
    cases hm
    exact hrange
  · split at hm <;> cases hm

theorem exists_fields_of_record {α : Type} {read : Fields → Checked α} {v : Json} {a : α}
    (h : record read v = .valid a) : ∃ fields, v = .obj fields ∧ read fields = .valid a := by
  cases v with
  | obj fields => exact ⟨fields, rfl, h⟩
  | null | bool | int | float | str | arr => cases h

theorem Item.storable_ofJson {v : Json} {item : Item} (h : Item.ofJson v = .valid item) :
    item.Storable := by
  obtain ⟨fields, rfl, hread⟩ := exists_fields_of_record h
  simp only [ofFields, Checked.seq_eq_valid_iff, Checked.map_eq_valid_iff] at hread
  obtain ⟨_, _, ⟨_, _, ⟨_, _, ⟨_, offset, ⟨_, _, ⟨_, _, ⟨_, _, ⟨_, _, ⟨_, -, rfl⟩, -, rfl⟩,
    ⟨contract, -, rfl⟩, rfl⟩, -, rfl⟩, -, rfl⟩, hoffset, rfl⟩, -, rfl⟩, -, rfl⟩, -, rfl⟩ := hread
  refine ⟨Or.inr ⟨contract, rfl⟩, fun n hn => ?_⟩
  rcases optional_eq_valid_iff.mp hoffset with ⟨w, m, -, -, hm, hsome⟩ | ⟨-, hnone⟩
  · cases hsome.symm.trans hn
    exact readOffset_eq_valid hm
  · cases hnone.symm.trans hn

theorem Members.storable_ofJson {v : Json} {members : Members}
    (h : Members.ofJson v = .valid members) : members.Storable := by
  unfold ofJson at h
  split at h
  · rename_i his
    cases h
    intro i hi
    obtain ⟨_, w, -, -, hw⟩ := exists_of_mem_list his hi
    exact Item.storable_ofJson hw
  · cases h
    exact trivial
  · cases h

theorem TypeEntry.storable_ofJson {v : Json} {entry : TypeEntry}
    (h : TypeEntry.ofJson v = .valid entry) : ∀ m ∈ entry.members, m.Storable := by
  obtain ⟨fields, rfl, hread⟩ := exists_fields_of_record h
  simp only [Checked.seq_eq_valid_iff, Checked.map_eq_valid_iff] at hread
  obtain ⟨_, _, ⟨_, _, ⟨_, _, ⟨_, members, ⟨_, _, ⟨_, _, ⟨_, -, rfl⟩, -, rfl⟩, -, rfl⟩, hmembers,
    rfl⟩, -, rfl⟩, -, rfl⟩, -, rfl⟩ := hread
  intro m hm
  rcases optional_eq_valid_iff.mp hmembers with ⟨w, m', -, -, hm', hsome⟩ | ⟨-, hnone⟩
  · cases hsome.symm.trans hm
    exact Members.storable_ofJson hm'
  · cases hnone.symm.trans hm

theorem isTidy_of_value? {fields : Fields} (h : (Json.obj fields).IsTidy) {name : Name} {v : Json}
    (hv : name.value? fields = some v) : v.IsTidy := by
  rcases Option.or_eq_some_iff.mp hv with hv | ⟨-, hv⟩
  · exact (isTidy_obj.mp h).2 _ (mem_of_lookup_eq_some hv)
  · exact (isTidy_obj.mp h).2 _ (mem_of_lookup_eq_some hv)

/-- A table that was read lists no key twice. -/
theorem nodup_of_table {α : Type} {check : Json → Checked α} {v : Json} {l : List (String × α)}
    (h : table check v = .valid l) (htidy : v.IsTidy) : (l.map (·.1)).Nodup := by
  cases v with
  | obj fields =>
    rw [keys_of_table h]
    exact htidy.1
  | null | bool | int | float | str | arr => cases h

/-- A layout that was read from a value without repeated fields can be read back when written. -/
theorem Layout.storable_ofJson {v : Json} {layout : Layout} (h : Layout.ofJson v = .valid layout)
    (htidy : v.IsTidy) : layout.Storable := by
  obtain ⟨fields, rfl, hread⟩ := exists_fields_of_record h
  simp only [Checked.seq_eq_valid_iff, Checked.map_eq_valid_iff] at hread
  obtain ⟨_, _, ⟨_, namespaces, ⟨_, types, ⟨_, storage, ⟨_, _, ⟨_, -, rfl⟩, -, rfl⟩, hstorage, rfl⟩,
    htypes, rfl⟩, hnamespaces, rfl⟩, -, rfl⟩ := hread
  have hitems {w : Json} {is : List Item} (hw : list Item.ofJson w = .valid is) :
      ∀ i ∈ is, i.Storable := fun i hi => by
    obtain ⟨_, u, -, -, hu⟩ := exists_of_mem_list hw hi
    exact Item.storable_ofJson hu
  refine ⟨?_, ?_, ?_, ?_, ?_⟩
  · rcases defaulted_eq_valid_iff.mp hstorage with ⟨w, -, hw⟩ | ⟨-, rfl⟩
    · exact hitems hw
    · exact List.forall_mem_nil _
  · rcases defaulted_eq_valid_iff.mp htypes with ⟨w, -, hw⟩ | ⟨-, rfl⟩
    · intro e he
      obtain ⟨_, u, -, -, hu⟩ := exists_of_mem_table hw he
      exact TypeEntry.storable_ofJson hu
    · exact List.forall_mem_nil _
  · rcases defaulted_eq_valid_iff.mp hnamespaces with ⟨w, -, hw⟩ | ⟨-, rfl⟩
    · intro e he
      obtain ⟨_, u, -, -, hu⟩ := exists_of_mem_table hw he
      exact hitems hu
    · exact List.forall_mem_nil _
  · rcases defaulted_eq_valid_iff.mp htypes with ⟨w, hvalue, hw⟩ | ⟨-, rfl⟩
    · exact nodup_of_table hw (isTidy_of_value? htidy hvalue)
    · exact List.nodup_nil
  · rcases defaulted_eq_valid_iff.mp hnamespaces with ⟨w, hvalue, hw⟩ | ⟨-, rfl⟩
    · exact nodup_of_table hw (isTidy_of_value? htidy hvalue)
    · exact List.nodup_nil

/-! ## Layouts that were read, written and read again -/

/-- An item without its syntax tree id. -/
def Item.withoutAstId (item : Item) : Item := { item with astId := none }

/-- Members without their syntax tree ids. -/
def Members.withoutAstIds : Members → Members
  | items is => items (is.map Item.withoutAstId)
  | members => members

/-- A type entry without the syntax tree ids of its members. -/
def TypeEntry.withoutAstIds (entry : TypeEntry) : TypeEntry :=
  { entry with members := entry.members.map Members.withoutAstIds }

/-- A layout without syntax tree ids. -/
def Layout.withoutAstIds (layout : Layout) : Layout :=
  { layout with
    storage := layout.storage.map Item.withoutAstId
    types := layout.types.map fun e => (e.1, e.2.withoutAstIds)
    namespaces := layout.namespaces.map fun e => (e.1, e.2.map Item.withoutAstId) }

theorem Item.stored_of_ofJson {v : Json} {item : Item} (h : Item.ofJson v = .valid item) :
    item.stored = item.withoutAstId := by
  obtain ⟨fields, rfl, hread⟩ := exists_fields_of_record h
  simp only [ofFields, Checked.seq_eq_valid_iff, Checked.map_eq_valid_iff] at hread
  obtain ⟨_, _, ⟨_, _, ⟨_, _, ⟨_, _, ⟨_, _, ⟨_, _, ⟨_, _, ⟨_, _, ⟨_, -, rfl⟩, -, rfl⟩,
    ⟨contract, -, rfl⟩, rfl⟩, -, rfl⟩, -, rfl⟩, -, rfl⟩, -, rfl⟩, -, rfl⟩, -, rfl⟩ := hread
  simp [stored, withoutAstId]

theorem map_stored_of_list {v : Json} {is : List Item} (h : list Item.ofJson v = .valid is) :
    is.map Item.stored = is.map Item.withoutAstId := by
  refine List.map_congr_left fun i hi => ?_
  obtain ⟨_, w, -, -, hw⟩ := exists_of_mem_list h hi
  exact Item.stored_of_ofJson hw

theorem Members.stored_of_ofJson {v : Json} {members : Members}
    (h : Members.ofJson v = .valid members) : members.stored = members.withoutAstIds := by
  unfold ofJson at h
  split at h
  · rename_i his
    cases h
    rw [stored, withoutAstIds, map_stored_of_list his]
  · rename_i ps ns hitems hnames
    cases h
    cases ns with
    | nil =>
      -- a list without elements is read as one of variables
      cases v with
      | arr items =>
        cases Checked.allFrom_eq_valid_iff.mp hnames
        cases hitems
      | null | bool | int | float | str | obj => cases hnames
    | cons n ns => rfl
  · cases h

theorem TypeEntry.stored_of_ofJson {v : Json} {entry : TypeEntry}
    (h : TypeEntry.ofJson v = .valid entry) : entry.stored = entry.withoutAstIds := by
  obtain ⟨fields, rfl, hread⟩ := exists_fields_of_record h
  simp only [Checked.seq_eq_valid_iff, Checked.map_eq_valid_iff] at hread
  obtain ⟨_, _, ⟨_, _, ⟨_, _, ⟨_, members, ⟨_, _, ⟨_, _, ⟨_, -, rfl⟩, -, rfl⟩, -, rfl⟩, hmembers,
    rfl⟩, -, rfl⟩, -, rfl⟩, -, rfl⟩ := hread
  rcases optional_eq_valid_iff.mp hmembers with ⟨w, m, -, -, hm, rfl⟩ | ⟨-, rfl⟩
  · rw [stored, withoutAstIds, Option.map_some, Option.map_some, Members.stored_of_ofJson hm]
  · rfl

/-- What is read for a written layout that was read is the layout without syntax tree ids, with the
current format in the place of none. -/
theorem Layout.stored_of_ofJson {v : Json} {layout : Layout} (h : Layout.ofJson v = .valid layout) :
    layout.stored = { layout.withoutAstIds with
      layoutVersion := some (layout.layoutVersion.getD currentVersion) } := by
  obtain ⟨fields, rfl, hread⟩ := exists_fields_of_record h
  simp only [Checked.seq_eq_valid_iff, Checked.map_eq_valid_iff] at hread
  obtain ⟨_, _, ⟨_, namespaces, ⟨_, types, ⟨_, storage, ⟨_, _, ⟨_, -, rfl⟩, -, rfl⟩, hstorage, rfl⟩,
    htypes, rfl⟩, hnamespaces, rfl⟩, -, rfl⟩ := hread
  have hitems : storage.map Item.stored = storage.map Item.withoutAstId := by
    rcases defaulted_eq_valid_iff.mp hstorage with ⟨w, -, hw⟩ | ⟨-, rfl⟩
    · exact map_stored_of_list hw
    · rfl
  have hentries : types.map (fun e => (e.1, e.2.stored)) =
      types.map fun e => (e.1, e.2.withoutAstIds) := by
    rcases defaulted_eq_valid_iff.mp htypes with ⟨w, -, hw⟩ | ⟨-, rfl⟩
    · refine List.map_congr_left fun e he => ?_
      obtain ⟨_, u, -, -, hu⟩ := exists_of_mem_table hw he
      rw [TypeEntry.stored_of_ofJson hu]
    · rfl
  have hspaces : namespaces.map (fun e => (e.1, e.2.map Item.stored)) =
      namespaces.map fun e => (e.1, e.2.map Item.withoutAstId) := by
    rcases defaulted_eq_valid_iff.mp hnamespaces with ⟨w, -, hw⟩ | ⟨-, rfl⟩
    · refine List.map_congr_left fun e he => ?_
      obtain ⟨_, u, -, -, hu⟩ := exists_of_mem_table hw he
      rw [map_stored_of_list hu]
    · rfl
  simp only [stored, withoutAstIds, hitems, hentries, hspaces]

theorem Layout.ofJson_of_load {v : Json} {layout : Layout} (h : Layout.load v = .ok layout) :
    Layout.ofJson v = .valid layout := by
  unfold load at h
  split at h
  · cases h
    assumption
  · cases h

/-- A layout has no format just when it was read from one that gives `null` as its format. -/
theorem Layout.layoutVersion_eq_none_iff {fields : Fields} {layout : Layout}
    (h : Layout.ofJson (.obj fields) = .valid layout) : layout.layoutVersion = none ↔
      Name.value? ⟨"layoutVersion", "layout_version"⟩ fields = some .null := by
  simp only [ofJson, record, Checked.seq_eq_valid_iff, Checked.map_eq_valid_iff] at h
  obtain ⟨_, _, ⟨_, _, ⟨_, _, ⟨_, _, ⟨_, _, ⟨version, hversion, rfl⟩, -, rfl⟩, -, rfl⟩, -, rfl⟩, -,
    rfl⟩, -, rfl⟩ := h
  rcases defaulted_eq_valid_iff.mp hversion with ⟨w, hw, hread⟩ | ⟨hnone, rfl⟩
  · rw [hw, Option.some.injEq]
    rcases nullable_eq_valid_iff.mp hread with ⟨rfl, rfl⟩ | ⟨hnull, a, -, rfl⟩
    · simp
    · simp [hnull]
  · simp [hnone]

/-- A layout that was read is written when its numbers can be, and what is read again is the layout
without syntax tree ids, unless it has no format: then it has the current one when it is read again. -/
theorem Layout.load_encode {fields : Fields} {layout : Layout}
    (h : Layout.load (.obj fields) = .ok layout) (htidy : (Json.obj fields).IsTidy) :
    (layout.isWritable = false → layout.encode = .error (.fault .unserialisable)) ∧
    (layout.isWritable = true → ∃ w again, layout.encode = .ok w ∧ Layout.load w = .ok again ∧
      again = { layout.withoutAstIds with
        layoutVersion := some (layout.layoutVersion.getD currentVersion) } ∧
      (again = layout.withoutAstIds ↔ layout.layoutVersion ≠ none) ∧
      (again.isCurrent = layout.isCurrent ↔ layout.layoutVersion ≠ none)) ∧
    (layout.layoutVersion = none ↔
      Name.value? ⟨"layoutVersion", "layout_version"⟩ fields = some .null) := by
  have hread := ofJson_of_load h
  refine ⟨?_, ?_, layoutVersion_eq_none_iff hread⟩
  · intro hwritable
    rw [encode, written, hwritable]
    rfl
  · intro hwritable
    refine ⟨layout.toJson, layout.stored, ?_, ?_, stored_of_ofJson hread, ?_, ?_⟩
    · rw [encode, written, hwritable]
      rfl
    · rw [load, ofJson_toJson (storable_ofJson hread htidy) hwritable]
    · rw [stored_of_ofJson hread]
      cases hversion : layout.layoutVersion with
      | none => simp [withoutAstIds, hversion]
      | some version => simp [withoutAstIds, hversion]
    · cases hversion : layout.layoutVersion with
      | none => simp [isCurrent, stored, hversion]
      | some version => simp [isCurrent, stored, hversion]

/-- A layout of an earlier format with one variable and its syntax tree id. -/
def Layout.earlier : Fields :=
  [("layoutVersion", .str "1.1"),
    ("storage", .arr [.obj [("label", .str "owner"), ("type", .str "t_address"),
      ("astId", .int 7)]])]

theorem Layout.load_encode_earlier :
    ∃ layout w again, Layout.load (.obj earlier) = .ok layout ∧ layout.encode = .ok w ∧
      Layout.load w = .ok again ∧ again = layout.withoutAstIds ∧ again ≠ layout := by
  have hload : Layout.load (.obj earlier) = .ok { layoutVersion := some "1.1", storage :=
      [⟨"owner", "t_address", .str "", "", none, none, some 7, none, none⟩] } := rfl
  have htidy : (Json.obj earlier).IsTidy := by simp [earlier, IsTidy, AreTidy, FieldsAreTidy]
  obtain ⟨w, again, hw, hagain, -, hiff, -⟩ := (Layout.load_encode hload htidy).2.1 rfl
  have heq := hiff.mpr (by decide)
  exact ⟨_, w, again, hload, hw, hagain, heq, heq ▸ by decide⟩

/-- A layout without a format has the current one when it is written and read again. -/
theorem Layout.load_encode_versionless :
    ∃ layout w again, Layout.load (.obj [("layoutVersion", .null)]) = .ok layout ∧
      layout.encode = .ok w ∧ Layout.load w = .ok again ∧
      again ≠ layout.withoutAstIds ∧ again.isCurrent = true ∧ layout.isCurrent = false :=
  ⟨⟨none, none, [], [], [], false⟩, _, ⟨some "1.2", none, [], [], [], false⟩, rfl, rfl, rfl, by decide,
    rfl, rfl⟩

end UpgradeSafety
