import UpgradeSafety.Import
import UpgradeSafety.Proofs.Json.Reading
import UpgradeSafety.Proofs.Layout.Placement
import UpgradeSafety.Proofs.Layout.Shown
import UpgradeSafety.Proofs.Tables

/-!
# Imported layouts

What every layout has that was imported from a build (`Layout.Imported`): its offsets lie within a
slot, the place of every variable is known, members of structs carry no contract, and no type and
no namespace is listed twice. Each step of an import keeps this, from the compiler's layout over
the names of enums to the namespaces (`Import.yields_layout`). So an imported layout can be written
and read back, if the names that it takes from the syntax trees are texts
(`Layout.Imported.storable`).

`Yields` says that whatever a reading returns satisfies a predicate, and nothing of readings that
fail. A loop keeps an invariant of its state when each of its steps does, here that of the table of
types and of the namespaces found so far.

The last step of an import is the check of places.

* `verify_sound_complete`: what the check accepts and what it rejects, that the order of variables
  does not matter to it, and that every imported layout has passed it.
-/

namespace UpgradeSafety

open Syntax

/-! ## What is imported -/

/-- The offset of an item lies within a slot. -/
def Item.InSlot (item : Item) : Prop := ∀ n ∈ item.offset, 0 ≤ n ∧ n < 32

/-- Members of structs carry no contract. -/
def Members.Imported : Members → Prop
  | items is => ∀ i ∈ is, i.contract = .str "" ∧ i.InSlot
  | names _ | unnamed _ => True

/-- No type of a table is listed twice, and their members are imported. -/
structure TypeTable.Imported (types : TypeTable) : Prop where
  nodup : (types.map (·.1)).Nodup
  members : ∀ e ∈ types, ∀ m ∈ e.2.members, m.Imported

/-- The offset of a variable lies within a slot, and the place of its declaration is known. -/
structure Item.Imported (item : Item) : Prop where
  inSlot : item.InSlot
  src : item.src ≠ ""

/-- What every imported layout has. -/
structure Layout.Imported (layout : Layout) : Prop where
  storage : ∀ i ∈ layout.storage, i.Imported
  types : TypeTable.Imported layout.types
  namespaces : ∀ e ∈ layout.namespaces, ∀ i ∈ e.2, i.Imported
  namespaces_nodup : (layout.namespaces.map (·.1)).Nodup

/-- The contract of an item has a text for a name, or none. -/
def Item.Textual (item : Item) : Prop := item.contract = .null ∨ ∃ s, item.contract = .str s

/-- The names that a layout takes from syntax trees are texts. -/
structure Layout.Textual (layout : Layout) : Prop where
  storage : ∀ i ∈ layout.storage, i.Textual
  members : ∀ e ∈ layout.types, ∀ vs, e.2.members ≠ some (.unnamed vs)
  namespaces : ∀ e ∈ layout.namespaces, ∀ i ∈ e.2, i.Textual

instance (item : Item) : Decidable item.Textual :=
  match h : item.contract with
  | .null => .isTrue (Or.inl h)
  | .str s => .isTrue (Or.inr ⟨s, h⟩)
  | .bool _ | .int _ | .float _ | .arr _ | .obj _ => .isFalse (by simp [Item.Textual, h])

instance (members : Option Members) : Decidable (∀ vs, members ≠ some (.unnamed vs)) :=
  match members with
  | none | some (.items _) | some (.names _) => .isTrue nofun
  | some (.unnamed vs) => .isFalse fun h => h vs rfl

instance (layout : Layout) : Decidable layout.Textual :=
  decidable_of_iff ((∀ i ∈ layout.storage, i.Textual) ∧
      (∀ e ∈ layout.types, ∀ vs, e.2.members ≠ some (.unnamed vs)) ∧
      ∀ e ∈ layout.namespaces, ∀ i ∈ e.2, i.Textual)
    ⟨fun h => ⟨h.1, h.2.1, h.2.2⟩, fun h => ⟨h.storage, h.members, h.namespaces⟩⟩

theorem Layout.Imported.storable {layout : Layout} (h : layout.Imported) (htexts : layout.Textual) :
    layout.Storable where
  storage i hi := ⟨htexts.storage i hi, (h.storage i hi).inSlot⟩
  members e he m hm := by
    have himported := h.types.members e he m hm
    cases m with
    | items is => exact fun i hi => ⟨Or.inr ⟨"", (himported i hi).1⟩, (himported i hi).2⟩
    | names ns => trivial
    | unnamed vs => exact htexts.members e he vs hm
  namespaces e he i hi := ⟨htexts.namespaces e he i hi, (h.namespaces e he i hi).inSlot⟩
  types_nodup := h.types.nodup
  namespaces_nodup := h.namespaces_nodup

theorem Layout.Imported.located {layout : Layout} (h : layout.Imported) : layout.Located where
  storage i hi _ := (h.storage i hi).src
  members e he m hm := by
    have himported := h.types.members e he m hm
    cases m with
    | items is =>
      intro i hi hnull
      rw [(himported i hi).1] at hnull
      cases hnull
    | names ns => trivial
    | unnamed vs => trivial
  namespaces e he i hi _ := (h.namespaces e he i hi).src

/-! ## Readings -/

/-- Whatever a reading returns satisfies a predicate. -/
def Yields {α : Type} (x : Reading α) (P : α → Prop) : Prop :=
  ∀ nodes a nodes', x.run nodes = .ok (a, nodes') → P a

namespace Yields

variable {α β : Type} {P : α → Prop} {Q : β → Prop}

theorem pure {a : α} (h : P a) : Yields (Pure.pure a : Reading α) P := by
  intro nodes b nodes' hrun
  cases hrun
  exact h

theorem throw (e : Failure) : Yields (MonadExcept.throw e : Reading α) P := nofun

theorem lift {x : Except Failure α} (h : ∀ a, x = .ok a → P a) : Yields (liftM x : Reading α) P := by
  intro nodes a nodes' hrun
  cases x with
  | error e => cases hrun
  | ok b =>
    cases hrun
    exact h _ rfl

theorem any (x : Reading α) : Yields x fun _ => True := fun _ _ _ _ => trivial

theorem bind {x : Reading α} {f : α → Reading β} (hx : Yields x P)
    (hf : ∀ a, P a → Yields (f a) Q) : Yields (x >>= f) Q := by
  intro nodes b nodes' hrun
  rw [StateT.run_bind] at hrun
  obtain ⟨⟨a, nodes₁⟩, ha, hb⟩ := bind_eq_ok_iff.mp hrun
  exact hf a (hx nodes a nodes₁ ha) nodes₁ b nodes' hb

theorem imp {x : Reading α} {P' : α → Prop} (hx : Yields x P) (h : ∀ a, P a → P' a) :
    Yields x P' := fun nodes a nodes' hrun => h a (hx nodes a nodes' hrun)

/-- An invariant of the state of a loop. -/
theorem foldlM {f : β → α → Reading β} {l : List α} (h : ∀ b, ∀ a ∈ l, Q b → Yields (f b a) Q)
    {b : β} (hb : Q b) : Yields (l.foldlM f b) Q := by
  induction l generalizing b with
  | nil => exact pure hb
  | cons a l ih =>
    rw [List.foldlM_cons]
    exact bind (h b a List.mem_cons_self hb)
      fun b' hb' => ih (fun b a ha => h b a (List.mem_cons_of_mem _ ha)) hb'

theorem mapM {R : α → β → Prop} {f : α → Reading β} {l : List α}
    (h : ∀ a ∈ l, Yields (f a) (R a)) : Yields (l.mapM f) (List.Forall₂ R l) := by
  induction l with
  | nil => exact pure .nil
  | cons a l ih =>
    rw [List.mapM_cons]
    exact bind (h a List.mem_cons_self) fun b hb =>
      bind (ih fun a ha => h a (List.mem_cons_of_mem _ ha)) fun bs hbs => pure (.cons hb hbs)

end Yields

/-! ## Types -/

theorem Item.imported_of_default {label type : String} :
    ({ label, type } : Item).contract = .str "" ∧ ({ label, type } : Item).InSlot := ⟨rfl, nofun⟩

theorem imported_structMembers {definition : Json} {is : List Item}
    (h : structMembers definition = .ok is) : (Members.items is).Imported := by
  unfold structMembers at h
  obtain ⟨members, -, h⟩ := bind_eq_ok_iff.mp h
  obtain ⟨elements, -, h⟩ := bind_eq_ok_iff.mp h
  intro i hi
  obtain ⟨m, -, hm⟩ := exists_of_mem_forall₂ (mapM_eq_ok_iff.mp h) hi
  obtain ⟨label, -, hm⟩ := bind_eq_ok_iff.mp hm
  obtain ⟨description, -, hm⟩ := bind_eq_ok_iff.mp hm
  split at hm
  · cases hm
    exact Item.imported_of_default
  · cases hm

theorem imported_enumNames {definition : Json} {members : Members}
    (h : enumNames definition = .ok members) : members.Imported := by
  unfold enumNames at h
  obtain ⟨members, _, h⟩ := bind_eq_ok_iff.mp h
  obtain ⟨elements, _, h⟩ := bind_eq_ok_iff.mp h
  obtain ⟨names, _, h⟩ := bind_eq_ok_iff.mp h
  split at h <;> cases h <;> trivial

/-- The members of a definition are imported. -/
theorem imported_typeMembers {definition : Json} {members : Members}
    (h : typeMembers definition = .ok members) : members.Imported := by
  unfold typeMembers at h
  obtain ⟨type, -, h⟩ := bind_eq_ok_iff.mp h
  split at h
  · obtain ⟨is, his, h⟩ := bind_eq_ok_iff.mp h
    cases h
    exact imported_structMembers his
  · exact imported_enumNames h

namespace TypeTable.Imported

variable {types : TypeTable}

theorem append {id : String} {entry : TypeEntry} (h : types.Imported)
    (hid : types.lookup id = none) (hentry : ∀ m ∈ entry.members, m.Imported) :
    (types ++ [(id, entry)]).Imported := by
  refine ⟨?_, ?_⟩
  · rw [List.map_append, List.nodup_append]
    refine ⟨h.nodup, List.nodup_singleton _, ?_⟩
    rintro a ha b hb rfl
    obtain rfl : a = id := List.mem_singleton.mp hb
    exact lookup_eq_none_iff_not_mem.mp hid ha
  · rw [List.forall_mem_append]
    exact ⟨h.members, List.forall_mem_singleton.mpr hentry⟩

theorem putField {id : String} {entry : TypeEntry} (h : types.Imported)
    (hentry : ∀ m ∈ entry.members, m.Imported) :
    TypeTable.Imported (UpgradeSafety.putField id entry types) := by
  refine ⟨nodup_putField h.nodup, fun e he => ?_⟩
  rcases mem_putField he with rfl | he
  · exact hentry
  · exact h.members e he

theorem of_lookup (h : types.Imported) {id : String} {entry : TypeEntry}
    (hentry : types.lookup id = some entry) : ∀ m ∈ entry.members, m.Imported :=
  h.members _ (mem_of_lookup_eq_some hentry)

end TypeTable.Imported

/-- The types that are entered into a table are imported. -/
theorem yields_loadPending {fuel : Nat} {met : Met} {pending : List Json} {types : TypeTable}
    (h : types.Imported) : Yields (loadPending fuel met pending types) TypeTable.Imported := by
  induction fuel generalizing met pending types with
  | zero => exact .pure h
  | succ fuel ih =>
    cases pending with
    | nil => exact .pure h
    | cons node rest =>
      unfold loadPending
      refine .bind (.any _) fun description _ => ?_
      obtain ⟨identifier, label⟩ := description
      dsimp only
      generalize hid : TypeId.normalizeIdentifier identifier = id
      have hentry : ∀ m ∈ ((types.lookup id).getD { label }).members, m.Imported := by
        cases hlookup : types.lookup id with
        | none => exact nofun
        | some entry => exact h.of_lookup hlookup
      have htypes : TypeTable.Imported (if (types.lookup id).isSome = true then types
          else types ++ [(id, (types.lookup id).getD { label })]) := by
        split
        · exact h
        · rename_i hnone
          exact h.append (Option.not_isSome_iff_eq_none.mp hnone) hentry
      refine .bind (.any _) fun reference _ => ?_
      split
      · exact ih htypes
      · split
        · exact ih htypes
        · refine .bind (.any _) fun definition _ => ?_
          split
          · refine .bind (.lift fun members hmembers => imported_typeMembers hmembers)
              fun members hmembers => .bind (.pure (htypes.putField ?_)) fun types' htypes' =>
                .bind (.any _) fun fresh _ => ih htypes'
            rintro m hm
            cases hm
            exact hmembers
          · exact .bind (.pure htypes) fun types' htypes' => .bind (.any _) fun fresh _ => ih htypes'

theorem yields_loadType {typeName : Json} {types : TypeTable} (h : types.Imported) :
    Yields (loadType typeName types) TypeTable.Imported :=
  .bind (.any _) fun _ _ => .bind (.any _) fun _ _ => yields_loadPending h

/-- The names of enums are entered into the entries of a table. -/
theorem yields_loadEnumNames {types : TypeTable} (h : types.Imported) :
    Yields (Import.loadEnumNames types) TypeTable.Imported := by
  unfold Import.loadEnumNames
  refine (Yields.mapM (R := fun e e' => e.1 = e'.1 ∧ ∀ m ∈ e'.2.members, m.Imported)
    fun e he => ?_).imp fun types' hmatched => ⟨?_, fun e' he' => ?_⟩
  · obtain ⟨id, entry⟩ := e
    dsimp only
    split
    · split
      · exact .throw _
      · have hread (digits : List Char) : Yields
            (do
              let definition ← lookUp ["EnumDefinition"] (.int (TypeId.digitsNumber digits))
              return (id, { entry with members := some (← typeMembers definition) }))
            fun e' => id = e'.1 ∧ ∀ m ∈ e'.2.members, m.Imported := by
          refine .bind (.any _) fun definition _ => ?_
          refine .bind (.lift fun members hmembers => imported_typeMembers hmembers)
            fun members hmembers => .pure ⟨rfl, ?_⟩
          rintro m hm
          cases hm
          exact hmembers
        split
        · exact .bind (P := fun _ => False) (.throw _) fun _ hfalse => hfalse.elim
        · exact hread _
    · exact .pure ⟨rfl, h.members _ he⟩
  · rw [← map_eq_of_forall₂ (hmatched.imp fun _ _ he => he.1)]
    exact h.nodup
  · obtain ⟨e, -, he⟩ := exists_of_mem_forall₂ hmatched he'
    exact he.2

/-! ## Namespaces -/

section Namespaces

open Namespaces

variable {locate : Locate} {types : TypeTable}

/-- The places that a locator names are known. -/
def Locates (locate : Locate) : Prop := ∀ node place, locate node = .ok place → place ≠ ""

theorem inSlot_compiledMembers (h : types.Imported) (label : String) :
    ∀ e ∈ compiledMembers types label, e.2.InSlot := by
  intro e he
  unfold compiledMembers at he
  rw [List.mem_reverse, List.mem_map] at he
  obtain ⟨i, hi, rfl⟩ := he
  generalize hmembers : types.findSome? _ = members at hi
  cases members with
  | none => cases hi
  | some is =>
    obtain ⟨⟨id, entry⟩, he, hfound⟩ := List.exists_of_findSome?_eq_some hmembers
    have hentry := h.members _ he
    dsimp only at hfound hentry
    split at hfound
    · rename_i j js hitems
      split at hfound
      · obtain rfl : j :: js = is := Option.some.inj hfound
        exact (hentry _ hitems i hi).2
      · cases hfound
    · split at hfound
      · obtain rfl : [] = is := Option.some.inj hfound
        cases hi
      · cases hfound
    · split at hfound
      · obtain rfl : [] = is := Option.some.inj hfound
        cases hi
      · cases hfound
    · cases hfound

/-- The items of a namespaced struct, and the table with their types. -/
def StructImported (state : List Item × TypeTable) : Prop :=
  (∀ i ∈ state.1, i.Imported) ∧ state.2.Imported

/-- An item is added with the types of its type name. -/
theorem yields_addItem {state : List Item × TypeTable} (hstate : StructImported state) {item : Item}
    (hitem : item.Imported) (typeName : Json) :
    Yields
      (do
        let types ← match typeName with
          | .null => pure state.2
          | typeName => loadType typeName state.2
        return (state.1 ++ [item], types)) StructImported := by
  have hitems : ∀ i ∈ state.1 ++ [item], i.Imported :=
    List.forall_mem_append.mpr ⟨hstate.1, List.forall_mem_singleton.mpr hitem⟩
  split
  · exact .bind (.pure hstate.2) fun _ htypes => .pure ⟨hitems, htypes⟩
  · exact .bind (yields_loadType hstate.2) fun _ htypes => .pure ⟨hitems, htypes⟩

theorem yields_structItems (hlocate : Locates locate) (h : types.Imported) (struct contract : Json)
    (location : String) :
    Yields (structItems locate struct contract location types) StructImported := by
  unfold structItems
  refine .bind (.any _) fun label _ => .bind (.any _) fun members _ =>
    .bind (.any _) fun raw _ => .bind (.any _) fun definitions _ => ?_
  have hslots := inSlot_compiledMembers h label
  split
  · refine .foldlM (fun state pair _ hstate => ?_) ⟨List.forall_mem_nil _, h⟩
    obtain ⟨member, definition⟩ := pair
    refine .bind (.any _) fun name _ => .bind (.lift (hlocate definition)) fun src hsrc =>
      .bind (.any _) fun typeName _ => yields_addItem hstate ⟨?_, hsrc⟩ typeName
    cases hlookup : (compiledMembers types label).lookup member.label with
    | none => exact nofun
    | some placed =>
      have hplaced := hslots _ (mem_of_lookup_eq_some hlookup)
      dsimp only
      split
      · exact hplaced
      · exact nofun
  · exact .pure ⟨List.forall_mem_nil _, h⟩
  · exact .pure ⟨List.forall_mem_nil _, h⟩

/-- The namespaces that were found, each at a location of its own, and the table of types. -/
structure FoundImported (state : List Namespaces.Found × TypeTable) : Prop where
  nodup : (state.1.map (·.location)).Nodup
  items : ∀ f ∈ state.1, ∀ i ∈ f.items, i.Imported
  types : TypeTable.Imported state.2

theorem yields_takeStruct (hlocate : Locates locate) (contract node : Json)
    {state : List Namespaces.Found × TypeTable} (h : FoundImported state) :
    Yields (takeStruct locate contract state node) FoundImported := by
  obtain ⟨found, types⟩ := state
  unfold takeStruct
  refine .bind (.any _) fun type _ => ?_
  split
  · exact .pure h
  · refine .bind (.any _) fun location _ => ?_
    cases location with
    | none => exact .pure h
    | some location =>
      refine .bind (.any _) fun place _ => ?_
      dsimp only
      split
      · refine .pure ⟨?_, fun f hf => ?_, h.types⟩
        · rw [List.map_map, List.map_congr_left (g := (·.location))]
          · exact h.nodup
          · intro f _
            rw [Function.comp_apply]
            split <;> rfl
        · obtain ⟨f', hf', rfl⟩ := List.mem_map.mp hf
          split
          · exact h.items f' hf'
          · exact h.items f' hf'
      · rename_i hfresh
        refine .bind (yields_structItems hlocate h.types node contract location)
          fun items himported => .pure ⟨?_, ?_, himported.2⟩
        · rw [List.map_append, List.nodup_append]
          refine ⟨h.nodup, List.nodup_singleton _, ?_⟩
          rintro a ha b hb rfl
          obtain rfl : a = location := List.mem_singleton.mp hb
          obtain ⟨f, hf, hlocation⟩ := List.mem_map.mp ha
          exact hfresh (List.any_eq_true.mpr ⟨f, hf, by simpa using hlocation⟩)
        · exact List.forall_mem_append.mpr ⟨h.items, List.forall_mem_singleton.mpr himported.1⟩

/-- The namespaces of a contract, and the table with the types of their members. -/
theorem yields_loadNamespaces (hlocate : Locates locate) (h : types.Imported) (contract : Json) :
    Yields (Namespaces.load locate contract types) fun loaded =>
      (loaded.1.map (·.1)).Nodup ∧ (∀ e ∈ loaded.1, ∀ i ∈ e.2, i.Imported) ∧
        TypeTable.Imported loaded.2 := by
  unfold Namespaces.load
  refine .bind (.any _) fun chain _ => .bind (.any _) fun ids _ => .bind (P := FoundImported) ?_
    fun state hstate => ?_
  · refine .foldlM (fun state id _ hstate => ?_) ⟨List.nodup_nil, List.forall_mem_nil _, h⟩
    refine .bind (.any _) fun base _ => .bind (.any _) fun nodes _ => .bind (.any _) fun nodes _ => ?_
    exact .foldlM (fun state node _ hstate => yields_takeStruct hlocate base node hstate) hstate
  · dsimp only
    split
    · refine .bind (.any _) fun name _ => ?_
      split
      · exact .bind (.any _) fun _ _ => .throw _
      · exact .bind (.any _) fun _ _ => .throw _
    · refine .pure ⟨?_, fun e he => ?_, hstate.types⟩
      · rw [List.map_map]
        exact hstate.nodup
      · obtain ⟨f, hf, rfl⟩ := List.mem_map.mp he
        exact hstate.items f hf

end Namespaces

/-! ## Layouts -/

namespace Import

variable {locate : Locate}

theorem annotate_eq_ok {declaration : Json} {item annotated : Item}
    (h : annotate declaration item = .ok annotated) :
    annotated.offset = item.offset ∧ annotated.src = item.src := by
  unfold annotate at h
  obtain ⟨renamed, -, h⟩ := bind_eq_ok_iff.mp h
  obtain ⟨retyped, -, h⟩ := bind_eq_ok_iff.mp h
  cases h
  exact ⟨rfl, rfl⟩

/-- The place of a variable that is attributed to a contract is known. -/
theorem yields_attributed (hlocate : Locates locate) (contract : Json) {item : Item}
    (h : item.InSlot) : Yields (attributed (some ⟨contract, some locate⟩) item) Item.Imported := by
  unfold attributed
  refine .bind (.any _) fun chain _ => .bind (.any _) fun ids _ => .bind (.any _) fun origin _ => ?_
  cases origin with
  | none => exact .throw _
  | some origin =>
    refine .bind (.lift (hlocate origin.1)) fun src hsrc => .lift fun annotated hannotated => ?_
    obtain ⟨hoffset, hplace⟩ := annotate_eq_ok hannotated
    exact ⟨fun n hn => h n (hoffset ▸ hn), hplace ▸ hsrc⟩

/-- What a compiler's layout says about types, without the places of their members. -/
theorem imported_compiledTypes {base : Layout} (h : base.Storable) :
    TypeTable.Imported (base.types.map fun (id, entry) =>
      (id, { entry with members := entry.members.map forgetOrigins })) := by
  refine ⟨?_, fun e he => ?_⟩
  · rw [List.map_map]
    exact h.types_nodup
  · obtain ⟨former, hformer, rfl⟩ := List.mem_map.mp he
    intro m hm
    obtain ⟨members, hmembers, rfl⟩ := Option.mem_map.mp hm
    have hstorable := h.members former hformer members hmembers
    cases members with
    | items is =>
      intro i hi
      obtain ⟨item, hitem, rfl⟩ := List.mem_map.mp hi
      exact ⟨rfl, (hstorable item hitem).offset⟩
    | names ns => trivial
    | unnamed vs => trivial

theorem isTidy_rawStorage? {raw storage : Json} (h : rawStorage? raw = some storage)
    (htidy : raw.IsTidy) : storage.IsTidy := by
  have hfield := htidy.field "storage"
  unfold rawStorage? at h
  split at h
  · split at h
    · rename_i hstorage
      cases h
      exact hstorage ▸ hfield
    · cases h
  · cases h

theorem storable_load {v : Json} {base : Layout} (h : Layout.load v = .ok base) (htidy : v.IsTidy) :
    base.Storable :=
  Layout.storable_ofJson (Layout.ofJson_of_load h) htidy

/-- Every layout that is imported with its contract's definition and the sources at hand. -/
theorem yields_layout {raw : Json} (htidy : raw.IsTidy) (hlocate : Locates locate)
    (contract solcVersion : Json) :
    Yields (Import.layout raw (some ⟨contract, some locate⟩) true solcVersion)
      Layout.Imported := by
  unfold Import.layout
  split
  · exact .throw _
  · rename_i storage hstorage
    have hread : (Json.obj [("storage", storage),
        ("types", (raw.field "types").orElse (.obj []))]).IsTidy :=
      Json.isTidy_obj.mpr ⟨by simp, List.forall_mem_cons.mpr ⟨isTidy_rawStorage? hstorage htidy,
        List.forall_mem_singleton.mpr ((htidy.field "types").orElse .emptyObj)⟩⟩
    refine .bind (.lift fun base hbase => storable_load hbase hread) fun base hbase => ?_
    rw [if_pos rfl]
    refine .bind (.mapM (R := fun _ i => Item.Imported i) fun i hi =>
      yields_attributed hlocate contract (hbase.storage i hi).offset) fun storage hstorage => ?_
    refine .bind (yields_loadEnumNames (imported_compiledTypes hbase)) fun types htypes => ?_
    refine .bind (yields_loadNamespaces hlocate htypes contract) fun loaded hloaded => ?_
    refine .bind (.any _) fun solcVersion _ => .bind (.any _) fun _ _ => .pure ⟨fun i hi => ?_,
      hloaded.2.2, hloaded.2.1, hloaded.1⟩
    obtain ⟨_, -, himported⟩ := exists_of_mem_forall₂ hstorage hi
    exact himported

/-! ## Places -/

/-- The variables of a layout and those of each of its namespaces stay in their slots and share no
byte. -/
def SoundlyPlaced (layout : Layout) : Prop :=
  ∃ storage namespaces, layout.resolveStorage = .ok storage ∧ layout.resolveNamespaces = .ok namespaces ∧
    Placement.Sound storage.vars ∧ ∀ e ∈ namespaces, Placement.Sound e.2.vars

theorem soundlyPlaced_of_checkLayout {layout : Layout} (h : checkLayout layout = .ok ()) :
    SoundlyPlaced layout := by
  obtain ⟨storage, hstorage, h⟩ := bind_eq_ok_iff.mp h
  obtain ⟨_, -, h⟩ := bind_eq_ok_iff.mp h
  obtain ⟨_, hverified, h⟩ := bind_eq_ok_iff.mp h
  obtain ⟨namespaces, hnamespaces, h⟩ := bind_eq_ok_iff.mp h
  obtain ⟨_, -, h⟩ := bind_eq_ok_iff.mp h
  refine ⟨storage, namespaces, mapError_eq_ok_iff.mp hstorage, mapError_eq_ok_iff.mp hnamespaces,
    Placement.sound_of_verify hverified, ?_⟩
  intro e he
  exact Placement.sound_of_verify (forM_eq_ok_iff.mp h e he)

/-- Every layout that is imported has passed the check of its places. -/
theorem yields_soundlyPlaced (raw : Json) (definition : Option Definition) (trees : Bool)
    (solcVersion : Json) : Yields (Import.layout raw definition trees solcVersion) SoundlyPlaced := by
  have hchecked {imported : Layout} :
      Yields (liftM (checkLayout imported) : Reading Unit) fun _ => SoundlyPlaced imported :=
    .lift fun _ hchecked => soundlyPlaced_of_checkLayout hchecked
  unfold Import.layout
  split
  · exact .throw _
  · refine .bind (.any _) fun base _ => .bind (.any _) fun storage _ => ?_
    -- with a definition and without, with trees and without
    split
    · split
      · refine .bind (.any _) fun _ _ => .bind (.any _) fun _ _ => .bind (.any _) fun _ _ => ?_
        exact .bind hchecked fun _ => .pure
      · refine .bind (.any _) fun _ _ => .bind (.any _) fun _ _ => .bind (.any _) fun _ _ => ?_
        exact .bind hchecked fun _ => .pure
    · split
      · refine .bind (.any _) fun _ _ => .bind (.any _) fun _ _ => .bind (.any _) fun _ _ => ?_
        exact .bind hchecked fun _ => .pure
      · refine .bind (.any _) fun _ _ => .bind (.any _) fun _ _ => .bind (.any _) fun _ _ => ?_
        exact .bind hchecked fun _ => .pure

/-- The check of places accepts only variables that stay in their slots and share no byte. Where all
sizes are positive and can be read it accepts all of these, and it does not matter to it in which order
the variables are listed. Every layout that is imported has passed it, in its storage and in each of its
namespaces. -/
theorem verify_sound_complete :
    (∀ vars, Placement.verify vars = .ok () → Placement.Sound vars) ∧
    (∀ vars, (∀ v ∈ vars, 0 < v.size) → (∀ v ∈ vars, v.sizeExcess? = none) →
      Placement.verify vars ≠ .ok () → ¬ Placement.Sound vars) ∧
    (∀ vars vars' : List Variable, vars.Perm vars' → (∀ v ∈ vars, 0 < v.size) →
      (Placement.verify vars = .ok () ↔ Placement.verify vars' = .ok ())) ∧
    ∀ raw definition trees solcVersion,
      Yields (Import.layout raw definition trees solcVersion) SoundlyPlaced := by
  refine ⟨fun _ => Placement.sound_of_verify, ?_, fun _ _ => Placement.verify_perm,
    yields_soundlyPlaced⟩
  intro vars hsize hreadable hrefused hsound
  exact hrefused ((Placement.verify_iff hsize).mpr ⟨fun v hv _ => hreadable v hv, hsound⟩)

end Import

end UpgradeSafety
