import UpgradeSafety.Layout.Resolution
import UpgradeSafety.Proofs.Layout.Stored
import UpgradeSafety.Proofs.Runs

/-!
# What is shown of a layout

Comparisons and reports look neither at the syntax tree ids of a layout nor at the order of its
types; an empty list of names passes for one of variables, and a contract without a name for one
with an empty name if the place of the declaration is known. What is left is what is *shown* of a
layout. The types of what is shown are resolved as those of the layout are
(`Layout.resolveStorage_shown`, `Layout.resolveNamespaces_shown`).

Showing is a map on items, members, entries, tables and graphs, and it commutes with everything a
resolution does: it changes no id and no reference. The order of types is not a matter of this map;
for it, two layouts show the same (`Layout.SameShown`) when their tables are permutations of each
other, and a resolution only looks types up. A layout that was written and read back shows the same
(`Layout.sameShown_stored`), which is what all of this is for.
-/

namespace UpgradeSafety

/-! ## Layouts -/

/-- What is shown of an item. -/
def Item.shown (item : Item) : Item :=
  { item with
    contract := if item.contract = .null ∧ item.src ≠ "" then .str "" else item.contract
    astId := none }

/-- What is shown of members. -/
def Members.shown : Members → Members
  | items is => items (is.map Item.shown)
  | names [] => items []
  | members => members

/-- What is shown of a type entry. -/
def TypeEntry.shown (entry : TypeEntry) : TypeEntry :=
  { entry with members := entry.members.map Members.shown }

/-- What is shown of a table of types. -/
def TypeTable.shown (types : TypeTable) : TypeTable := types.map fun e => (e.1, e.2.shown)

/-- What is shown of the items of some namespaces. -/
def shownNamespaces (namespaces : List (String × List Item)) : List (String × List Item) :=
  namespaces.map fun e => (e.1, e.2.map Item.shown)

/-- What is shown of a layout. -/
def Layout.shown (layout : Layout) : Layout :=
  { layout with
    storage := layout.storage.map Item.shown
    types := layout.types.shown
    namespaces := shownNamespaces layout.namespaces }

/-! ## Resolved types -/

/-- What is shown of a type. -/
def TypeNode.shown (t : TypeNode) : TypeNode := { t with members := t.members.map Members.shown }

/-- What is shown of a graph. -/
def TypeGraph.shown (g : TypeGraph) : TypeGraph := g.map fun e => (e.1, e.2.shown)

/-- What is shown of a variable. -/
def Variable.shown (v : Variable) : Variable := ⟨v.item.shown, v.type.shown⟩

/-- What is shown of resolved variables. -/
def Resolved.shown (r : Resolved) : Resolved := ⟨r.graph.shown, r.items.map Item.shown⟩

/-- What is shown of resolved namespaces. -/
def shownResolved (rs : List (String × Resolved)) : List (String × Resolved) :=
  rs.map fun e => (e.1, e.2.shown)

@[simp] theorem Item.shown_label (item : Item) : item.shown.label = item.label := rfl

@[simp] theorem Item.shown_type (item : Item) : item.shown.type = item.type := rfl

@[simp] theorem Item.shown_src (item : Item) : item.shown.src = item.src := rfl

@[simp] theorem Item.shown_slot (item : Item) : item.shown.slot = item.slot := rfl

@[simp] theorem Item.shown_offset (item : Item) : item.shown.offset = item.offset := rfl

@[simp] theorem Members.items?_shown (members : Members) :
    members.shown.items? = members.items?.map (·.map Item.shown) := by
  cases members with
  | items is => rfl
  | names ns => cases ns <;> rfl
  | unnamed vs => rfl

@[simp] theorem Members.names?_shown (members : Members) : members.shown.names? = members.names? := by
  cases members with
  | items is => cases is <;> rfl
  | names ns => cases ns <;> rfl
  | unnamed vs => rfl

theorem TypeTable.lookup_shown (types : TypeTable) (id : String) :
    types.shown.lookup id = (types.lookup id).map TypeEntry.shown := lookup_map_values _

theorem TypeGraph.lookup_shown (g : TypeGraph) (id : String) :
    g.shown.lookup id = (g.lookup id).map TypeNode.shown := lookup_map_values _

@[simp] theorem TypeGraph.node_shown (g : TypeGraph) (id : String) :
    g.shown.node id = (g.node id).shown := by
  unfold node
  rw [lookup_shown]
  cases g.lookup id <;> rfl

@[simp] theorem TypeGraph.variable_shown (g : TypeGraph) (item : Item) :
    g.shown.variable item.shown = (g.variable item).shown := by
  rw [TypeGraph.variable, TypeGraph.variable, Variable.shown, node_shown, Item.shown_type]

theorem Resolved.vars_shown (r : Resolved) : r.shown.vars = r.vars.map Variable.shown := by
  rw [vars, vars, shown, List.map_map, List.map_map]
  exact List.map_congr_left fun i _ => r.graph.variable_shown i

theorem TypeNode.ofEntry_shown (t : TypeId) (entry : Option TypeEntry) :
    ofEntry t (entry.map TypeEntry.shown) = (ofEntry t entry).shown := by
  cases entry <;> rfl

/-! ## Resolution -/

namespace Resolution

variable {types types' : TypeTable}

/-- Resolving the types of items one after another. -/
theorem items_shown {f f' : TypeGraph → TypeId → Except Refusal TypeGraph}
    (h : ∀ g id, f' g.shown id = (f g id).map TypeGraph.shown) (items : List Item) (g : TypeGraph) :
    (items.map Item.shown).foldlM (fun g (i : Item) => do f' g (← TypeId.read i.type)) g.shown =
      (items.foldlM (fun g (i : Item) => do f g (← TypeId.read i.type)) g).map TypeGraph.shown := by
  rw [List.foldlM_map]
  refine foldlM_of_map fun g i _ => ?_
  rw [Item.shown_type]
  cases TypeId.read i.type with
  | error e => rfl
  | ok id => exact h g id

theorem resolve_shown (types : TypeTable) (fuel : Nat) (g : TypeGraph) (t : TypeId)
    (required : Bool) :
    resolve types.shown fuel g.shown t required =
      (resolve types fuel g t required).map TypeGraph.shown := by
  induction fuel generalizing g t required with
  | zero => rfl
  | succ fuel ih =>
    unfold resolve
    rw [g.lookup_shown, types.lookup_shown]
    cases g.lookup t.text with
    | some n => rfl
    | none =>
      dsimp only [Option.map_none]
      rw [Option.isNone_map]
      split
      · rfl
      · have henter : g.shown ++ [(t.text, TypeNode.ofEntry t ((types.lookup t.text).map
            TypeEntry.shown))] =
            TypeGraph.shown (g ++ [(t.text, TypeNode.ofEntry t (types.lookup t.text))]) := by
          rw [TypeNode.ofEntry_shown]
          unfold TypeGraph.shown
          rw [List.map_append, List.map_singleton]
        rw [henter]
        -- arguments and return types are names, which are all shown
        have hargs (args : List TypeId) (b : Bool) (g : TypeGraph) :
            args.foldlM (fun g a => resolve types.shown fuel g a b) g.shown =
              (args.foldlM (fun g a => resolve types fuel g a b) g).map TypeGraph.shown :=
          foldlM_of_map fun g a _ => ih g a b
        refine bind_of_map (hargs _ _ _) fun g => bind_of_map (hargs _ _ g) fun g => ?_
        cases hentry : types.lookup t.text with
        | none => rfl
        | some entry =>
          obtain ⟨label, encoding, bytes, members, base, key, value⟩ := entry
          rcases members with _ | is | _ | _
          · rfl
          · exact items_shown (f := (resolve types fuel · · true)) (fun g id => ih g id true) is g
          · rename_i ns
            cases ns <;> rfl
          · rfl

theorem resolveItems_shown (types : TypeTable) (bound : Nat) (g : TypeGraph) (items : List Item) :
    resolveItems types.shown bound g.shown (items.map Item.shown) =
      (resolveItems types bound g items).map TypeGraph.shown :=
  items_shown (f := (resolve types bound · · true))
    (fun g id => resolve_shown types bound g id true) items g

/-- As many ids are mentioned by what is shown. -/
theorem mentions_shown (types : TypeTable) (items : List Item) :
    mentions types.shown (items.map Item.shown) = mentions types items := by
  have hids (is : List Item) (n : Nat) :
      (is.map Item.shown).foldl (fun n (i : Item) => n + i.type.length + 1) n =
        is.foldl (fun n i => n + i.type.length + 1) n := by
    rw [List.foldl_map]
    rfl
  unfold mentions TypeTable.shown
  dsimp only
  rw [List.foldl_map, hids]
  congr 2
  funext n e
  obtain ⟨id, label, encoding, bytes, members, base, key, value⟩ := e
  rcases members with _ | is | ns | _
  · rfl
  · exact congrArg (n + ·) (hids is 0)
  · cases ns <;> rfl
  · rfl

end Resolution

namespace Layout

theorem resolveStorage_shown (layout : Layout) :
    layout.shown.resolveStorage = layout.resolveStorage.map Resolved.shown := by
  unfold resolveStorage shown
  dsimp only
  rw [Resolution.mentions_shown]
  exact bind_of_map (Resolution.resolveItems_shown _ _ [] _) fun _ => rfl

theorem resolveNamespaces_shown (layout : Layout) :
    layout.shown.resolveNamespaces = layout.resolveNamespaces.map shownResolved := by
  have hitems : layout.shown.namespaces.flatMap (·.2) =
      (layout.namespaces.flatMap (·.2)).map Item.shown := by
    unfold shown shownNamespaces
    rw [List.flatMap_map, List.map_flatMap]
  unfold resolveNamespaces
  dsimp only
  rw [hitems, show layout.shown.types = layout.types.shown from rfl, Resolution.mentions_shown]
  refine bind_of_map (Resolution.resolveItems_shown _ _ [] _) fun g => ?_
  unfold shown shownNamespaces shownResolved
  change Except.ok _ = Except.ok (List.map _ (List.map _ _))
  rw [List.map_map, List.map_map]
  rfl

end Layout

/-! ## The order of types -/

theorem Resolution.resolve_congr {types types' : TypeTable}
    (h : ∀ id, types.lookup id = types'.lookup id) (fuel : Nat) :
    resolve types fuel = resolve types' fuel := by
  induction fuel with
  | zero => rfl
  | succ fuel ih =>
    funext g t required
    unfold resolve
    rw [h, ih]

theorem Resolution.mentions_perm {types types' : TypeTable} (h : types.Perm types')
    (items : List Item) : mentions types items = mentions types' items := by
  unfold mentions
  exact congrArg (· + 1) (h.foldl_eq' (fun _ _ _ _ n => Nat.add_right_comm n _ _) _)

/-- Two layouts show the same, but for the order of their types. -/
structure Layout.SameShown (l l' : Layout) : Prop where
  storage : l.shown.storage = l'.shown.storage
  namespaces : l.shown.namespaces = l'.shown.namespaces
  types : l.shown.types.Perm l'.shown.types
  nodup : (l.types.map (·.1)).Nodup

namespace Layout.SameShown

variable {l l' : Layout}

theorem lookup (h : l.SameShown l') (id : String) :
    l.shown.types.lookup id = l'.shown.types.lookup id := by
  refine lookup_perm h.types ?_ id
  have hkeys : l.shown.types.map (·.1) = l.types.map (·.1) := List.map_map
  rw [hkeys]
  exact h.nodup

theorem resolveItems (h : l.SameShown l') (items : List Item) :
    Resolution.resolveItems l.shown.types (Resolution.mentions l.shown.types items) [] items =
      Resolution.resolveItems l'.shown.types (Resolution.mentions l'.shown.types items) [] items := by
  unfold Resolution.resolveItems
  rw [Resolution.mentions_perm h.types, Resolution.resolve_congr h.lookup]

/-- Layouts that show the same have the same variables. -/
theorem resolveStorage (h : l.SameShown l') :
    l.shown.resolveStorage = l'.shown.resolveStorage := by
  unfold Layout.resolveStorage
  dsimp only
  rw [h.resolveItems, h.storage]

theorem resolveNamespaces (h : l.SameShown l') :
    l.shown.resolveNamespaces = l'.shown.resolveNamespaces := by
  unfold Layout.resolveNamespaces
  dsimp only
  rw [h.resolveItems, h.namespaces]

end Layout.SameShown

/-! ## What was read back -/

/-- The place of the declaration is known if the contract has no name. -/
def Item.Located (item : Item) : Prop := item.contract = .null → item.src ≠ ""

/-- Variables among members are located. -/
def Members.Located : Members → Prop
  | items is => ∀ i ∈ is, i.Located
  | names _ | unnamed _ => True

/-- All variables of a layout are located. -/
structure Layout.Located (layout : Layout) : Prop where
  storage : ∀ i ∈ layout.storage, i.Located
  members : ∀ e ∈ layout.types, ∀ m ∈ e.2.members, m.Located
  namespaces : ∀ e ∈ layout.namespaces, ∀ i ∈ e.2, i.Located

theorem Item.shown_stored {item : Item} (h : item.Located) : item.stored.shown = item.shown := by
  unfold Located at h
  unfold shown stored
  by_cases hnull : item.contract = .null
  · simp [hnull, h hnull]
  · simp [hnull]

theorem map_shown_stored {items : List Item} (h : ∀ i ∈ items, i.Located) :
    (items.map Item.stored).map Item.shown = items.map Item.shown := by
  rw [List.map_map]
  exact List.map_congr_left fun i hi => Item.shown_stored (h i hi)

theorem Members.shown_stored {members : Members} (h : members.Located) :
    members.stored.shown = members.shown := by
  cases members with
  | items is => exact congrArg items (map_shown_stored h)
  | names ns => cases ns <;> rfl
  | unnamed vs => rfl

theorem TypeEntry.shown_stored {entry : TypeEntry} (h : ∀ m ∈ entry.members, m.Located) :
    entry.stored.shown = entry.shown := by
  unfold shown stored
  dsimp only
  rw [Option.map_map]
  exact congrArg (fun members => { entry with members })
    (Option.map_congr fun m hm => Members.shown_stored (h m hm))

/-- A layout that was written and read back shows the same. -/
theorem Layout.sameShown_stored {layout : Layout} (h : layout.Located)
    (hnodup : (layout.types.map (·.1)).Nodup) : layout.SameShown layout.stored where
  storage := (map_shown_stored h.storage).symm
  namespaces := by
    unfold shown shownNamespaces stored
    dsimp only
    rw [List.map_map]
    exact List.map_congr_left fun e he =>
      congrArg (Prod.mk e.1) (map_shown_stored (h.namespaces e he)).symm
  types := by
    have htypes : layout.stored.shown.types = layout.shown.types := by
      unfold shown TypeTable.shown stored
      dsimp only
      rw [List.map_map]
      exact List.map_congr_left fun e he =>
        congrArg (Prod.mk e.1) (TypeEntry.shown_stored (h.members e he))
    rw [htypes]
  nodup := hnodup

end UpgradeSafety
