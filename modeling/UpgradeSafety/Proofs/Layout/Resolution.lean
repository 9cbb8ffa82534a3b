import UpgradeSafety.Proofs.Compare.Transfer
import UpgradeSafety.Proofs.Compare.Plain
import UpgradeSafety.Proofs.Runs
import UpgradeSafety.Proofs.TypeId.Reading

/-!
# Resolved graphs

What a graph holds once types have been resolved: under every id the parts of the id joined with
its entry in the types table, and for every type also the types inside it (`TypeGraph.Joined`). So
two graphs for the same table have the same type under an id that both hold.

Resolving goes depth first and enters an id before what is inside it, so half way there are types
whose insides are still missing. The invariant therefore speaks of what is added: whatever was
there before, a graph that is resolved further is extended by types that are joined from the table
and have everything inside them (`Extends`). Extensions compose, an id that is in the graph already
adds nothing, and a graph that extends the empty one is joined (`Extends.joined`).

* `resolveStorage_joined`, `resolveNamespaces_joined`: the graphs of a layout are joined from its
  table and hold the types of its variables.
-/

namespace UpgradeSafety

/-! ## Graphs -/

/-- The node is the type of an id, joined with its entry in a table. -/
def TypeNode.Joins (types : TypeTable) (id : String) (n : TypeNode) : Prop :=
  ∃ t, TypeId.read id = .ok t ∧ n = .ofEntry t (types.lookup id)

theorem TypeNode.Joins.id_eq {types : TypeTable} {id : String} {n : TypeNode}
    (h : n.Joins types id) : n.id = id := by
  obtain ⟨t, ht, rfl⟩ := h
  exact TypeId.text_of_read ht

theorem TypeNode.Joins.unique {types : TypeTable} {id : String} {n n' : TypeNode}
    (h : n.Joins types id) (h' : n'.Joins types id) : n = n' := by
  obtain ⟨t, ht, rfl⟩ := h
  obtain ⟨t', ht', rfl⟩ := h'
  rw [ht] at ht'
  cases ht'
  rfl

namespace TypeGraph

/-- Every type of a graph is joined from a table, and the types inside it are in the graph. -/
structure Joined (types : TypeTable) (g : TypeGraph) : Prop where
  joins : ∀ i n, g.lookup i = some n → n.Joins types i
  inside : ∀ i n, g.lookup i = some n → ∀ j ∈ n.inside, g.lookup j ≠ none

/-- A graph with further types, which are joined from a table and whose insides it holds. -/
structure Extends (types : TypeTable) (g g' : TypeGraph) : Prop where
  keeps : ∀ i n, g.lookup i = some n → g'.lookup i = some n
  adds : ∀ i n, g'.lookup i = some n → g.lookup i = some n ∨
    (n.Joins types i ∧ ∀ j ∈ n.inside, g'.lookup j ≠ none)

variable {types : TypeTable} {g g' g'' : TypeGraph}

theorem Extends.refl (types : TypeTable) (g : TypeGraph) : Extends types g g :=
  ⟨fun _ _ h => h, fun _ _ h => Or.inl h⟩

theorem Extends.lookup_ne_none (h : Extends types g g') {i : String} (hi : g.lookup i ≠ none) :
    g'.lookup i ≠ none := by
  obtain ⟨n, hn⟩ := Option.ne_none_iff_exists'.mp hi
  rw [h.keeps i n hn]
  exact Option.some_ne_none n

theorem Extends.trans (h : Extends types g g') (h' : Extends types g' g'') :
    Extends types g g'' where
  keeps i n hn := h'.keeps i n (h.keeps i n hn)
  adds i n hn := by
    rcases h'.adds i n hn with hn' | hnew
    · rcases h.adds i n hn' with hn'' | ⟨hjoins, hinside⟩
      · exact Or.inl hn''
      · exact Or.inr ⟨hjoins, fun j hj => h'.lookup_ne_none (hinside j hj)⟩
    · exact Or.inr hnew

/-- A graph that extends the empty one is joined from the table. -/
theorem Extends.joined (h : Extends types [] g) : g.Joined types where
  joins i n hn := by
    rcases h.adds i n hn with hn' | ⟨hjoins, -⟩
    · cases hn'
    · exact hjoins
  inside i n hn := by
    rcases h.adds i n hn with hn' | ⟨-, hinside⟩
    · cases hn'
    · exact hinside

theorem Joined.keyed (h : g.Joined types) : g.Keyed := fun i n hn => (h.joins i n hn).id_eq

theorem node_of_lookup {i : String} {n : TypeNode} (h : g.lookup i = some n) : g.node i = n := by
  rw [node, h, Option.getD_some]

/-- What one step of a fold adds to a graph. -/
theorem extends_of_foldlM {α : Type} (id : α → String)
    {f : TypeGraph → α → Except Refusal TypeGraph} {l : List α}
    (hf : ∀ a ∈ l, ∀ g g', f g a = .ok g' → Extends types g g' ∧ g'.lookup (id a) ≠ none)
    (h : l.foldlM f g = .ok g') :
    Extends types g g' ∧ ∀ a ∈ l, g'.lookup (id a) ≠ none := by
  induction l generalizing g with
  | nil =>
    cases h
    exact ⟨.refl types _, fun a ha => by cases ha⟩
  | cons a l ih =>
    rw [List.foldlM_cons] at h
    obtain ⟨g₁, hg₁, h'⟩ := bind_eq_ok_iff.mp h
    obtain ⟨hext, hmem⟩ := hf a List.mem_cons_self g g₁ hg₁
    obtain ⟨hext', hall⟩ := ih (fun b hb => hf b (List.mem_cons_of_mem a hb)) h'
    refine ⟨hext.trans hext', fun b hb => ?_⟩
    rcases List.mem_cons.mp hb with rfl | hb
    · exact hext'.lookup_ne_none hmem
    · exact hall b hb

/-- What a graph gains when a new type is entered and the types inside it are resolved. -/
theorem extends_of_enter {i : String} {n : TypeNode} (hjoins : n.Joins types i)
    (hext : Extends types (g ++ [(i, n)]) g') (hnew : g.lookup i = none)
    (hinside : ∀ j ∈ n.inside, g'.lookup j ≠ none) :
    Extends types g g' ∧ g'.lookup i ≠ none := by
  have hlookup (k : String) : (g ++ [(i, n)]).lookup k =
      (g.lookup k).or (if k = i then some n else none) := by
    rw [List.lookup_append, List.lookup_cons, List.lookup_nil]
    by_cases hk : k = i
    · simp [hk]
    · simp [hk, beq_eq_false_iff_ne.mpr hk]
  refine ⟨⟨fun k m hm => hext.keeps k m ?_, fun k m hm => ?_⟩, hext.lookup_ne_none ?_⟩
  · rw [hlookup, hm, Option.some_or]
  · rcases hext.adds k m hm with hm' | hnew
    · rw [hlookup, Option.or_eq_some_iff] at hm'
      rcases hm' with hm' | ⟨-, hm'⟩
      · exact Or.inl hm'
      · split at hm'
        · rename_i heq
          subst heq
          cases hm'
          exact Or.inr ⟨hjoins, hinside⟩
        · cases hm'
    · exact Or.inr hnew
  · rw [hlookup, hnew, Option.none_or, if_pos rfl]
    exact Option.some_ne_none n

end TypeGraph

namespace Resolution

open TypeGraph

variable {types : TypeTable} {g g' : TypeGraph}

theorem mem_inside_ofEntry {t : TypeId} {entry : Option TypeEntry} {j : String}
    (h : j ∈ (TypeNode.ofEntry t entry).inside) :
    (∃ a ∈ t.args.getD [], a.text = j) ∨
      ∃ members, entry.bind (·.members) = some members ∧
        ∃ items, members.items? = some items ∧ ∃ m ∈ items, m.type = j := by
  have hargs {ids : List String} (hids : (TypeNode.ofEntry t entry).args = some ids)
      (hj : j ∈ ids) : ∃ a ∈ t.args.getD [], a.text = j := by
    obtain ⟨args, hargs, rfl⟩ := Option.map_eq_some_iff.mp hids
    rw [hargs]
    exact List.mem_map.mp hj
  unfold TypeNode.inside at h
  split at h
  · right
    simp only [TypeNode.ofEntry, List.mem_map] at h
    obtain ⟨m, hm, rfl⟩ := h
    cases hitems : (entry.bind (·.members)).bind Members.items? with
    | none => rw [hitems] at hm; cases hm
    | some items =>
      rw [hitems] at hm
      obtain ⟨members, hmembers, hitems'⟩ := Option.bind_eq_some_iff.mp hitems
      exact ⟨members, hmembers, items, hitems', m, hm, rfl⟩
  · rw [Option.mem_toList, Option.bind_eq_some_iff] at h
    obtain ⟨ids, hids, hj⟩ := h
    exact Or.inl (hargs hids (List.mem_of_head? hj))
  · rw [Option.mem_toList, Option.bind_eq_some_iff] at h
    obtain ⟨ids, hids, hj⟩ := h
    exact Or.inl (hargs hids (List.mem_of_getLast? hj))
  · cases h

/-- Resolving the type of an item adds it when resolving a type id does. -/
theorem extends_of_item {f : TypeGraph → TypeId → Except Refusal TypeGraph}
    (hf : ∀ g g' t, TypeId.read t.text = .ok t → f g t = .ok g' →
      Extends types g g' ∧ g'.lookup t.text ≠ none)
    {m : Item} (h : (do f g (← TypeId.read m.type)) = .ok g') :
    Extends types g g' ∧ g'.lookup m.type ≠ none := by
  obtain ⟨t, ht, hg'⟩ := bind_eq_ok_iff.mp h
  have htext := TypeId.text_of_read ht
  rw [← htext] at ht ⊢
  exact hf g g' t ht hg'

/-- Resolving the members of a type adds the types of all members that it has. -/
theorem extends_of_members {f : TypeGraph → Item → Except Refusal TypeGraph}
    (hf : ∀ g g' m, f g m = .ok g' → Extends types g g' ∧ g'.lookup m.type ≠ none)
    {entry : Option TypeEntry}
    (h : (match entry.bind (·.members) with
      | some (.items members) => members.foldlM f g
      | _ => .ok g) = .ok g') :
    Extends types g g' ∧ ∀ members, entry.bind (·.members) = some members →
      ∀ items, members.items? = some items → ∀ m ∈ items, g'.lookup m.type ≠ none := by
  split at h
  · rename_i items hitems
    obtain ⟨hext, hall⟩ := extends_of_foldlM Item.type (fun m _ g g' => hf g g' m) h
    refine ⟨hext, fun members hmembers items' hitems' => ?_⟩
    rw [hitems] at hmembers
    cases hmembers
    cases hitems'
    exact hall
  · rename_i hnone
    cases h
    refine ⟨.refl types _, fun members hmembers items hitems m hm => ?_⟩
    unfold Members.items? at hitems
    split at hitems
    · exact absurd hmembers (hnone _)
    · cases hitems
      cases hm
    · cases hitems
    · cases hitems

/-- Resolving a type id adds it and the types inside it. -/
theorem resolve_extends {fuel : Nat} {t : TypeId} {required : Bool}
    (ht : TypeId.read t.text = .ok t) (h : resolve types fuel g t required = .ok g') :
    Extends types g g' ∧ g'.lookup t.text ≠ none := by
  induction fuel generalizing g g' t required with
  | zero => cases h
  | succ fuel ih =>
    rw [resolve] at h
    split at h
    · rename_i n hn
      cases h
      exact ⟨.refl types g, by rw [hn]; exact Option.some_ne_none n⟩
    · rename_i hnew
      dsimp only at h
      split at h
      · cases h
      · obtain ⟨g₁, hargs, h⟩ := bind_eq_ok_iff.mp h
        obtain ⟨g₂, hrets, hmembers⟩ := bind_eq_ok_iff.mp h
        have hpart := fun s => TypeId.read_text_of_part (s := s) (TypeId.ofChars?_of_read ht)
        obtain ⟨hext₁, hargs'⟩ := extends_of_foldlM TypeId.text
          (fun a ha g g' => ih (hpart a (Or.inl ha))) hargs
        obtain ⟨hext₂, -⟩ := extends_of_foldlM TypeId.text
          (fun r hr g g' => ih (hpart r (Or.inr hr))) hrets
        obtain ⟨hext₃, hmembers'⟩ := extends_of_members
          (fun g g' m => extends_of_item fun g g' s hs => ih hs) hmembers
        refine extends_of_enter ⟨t, ht, rfl⟩ (hext₁.trans (hext₂.trans hext₃)) hnew fun j hj => ?_
        rcases mem_inside_ofEntry hj with ⟨a, ha, rfl⟩ | ⟨members, hmem, items, hitems, m, hm, rfl⟩
        · exact (hext₂.trans hext₃).lookup_ne_none (hargs' a ha)
        · exact hmembers' members hmem items hitems m hm

/-- Resolving items adds their types. -/
theorem resolveItems_extends {bound : Nat} {items : List Item}
    (h : resolveItems types bound g items = .ok g') :
    Extends types g g' ∧ ∀ i ∈ items, g'.lookup i.type ≠ none :=
  extends_of_foldlM Item.type
    (fun _ _ _ _ => extends_of_item fun _ _ _ => resolve_extends) h

end Resolution

/-! ## Layouts -/

/-- The graph of a resolved list is joined from a table and holds the types of its variables. -/
structure Resolved.Joined (types : TypeTable) (r : Resolved) : Prop where
  graph : r.graph.Joined types
  items : ∀ i ∈ r.items, r.graph.lookup i.type ≠ none

namespace Layout

variable {layout : Layout}

theorem resolveStorage_joined {r : Resolved} (h : layout.resolveStorage = .ok r) :
    r.items = layout.storage ∧ r.Joined layout.types := by
  obtain ⟨g, hg, h'⟩ := bind_eq_ok_iff.mp h
  cases h'
  obtain ⟨hext, hitems⟩ := Resolution.resolveItems_extends hg
  exact ⟨rfl, hext.joined, hitems⟩

theorem resolveNamespaces_joined {rs : List (String × Resolved)}
    (h : layout.resolveNamespaces = .ok rs) :
    ∃ g : TypeGraph, g.Joined layout.types ∧
      rs = layout.namespaces.map (fun p => (p.1, ⟨g, p.2⟩)) ∧
      ∀ p ∈ layout.namespaces, ∀ i ∈ p.2, g.lookup i.type ≠ none := by
  obtain ⟨g, hg, h'⟩ := bind_eq_ok_iff.mp h
  cases h'
  obtain ⟨hext, hitems⟩ := Resolution.resolveItems_extends hg
  exact ⟨g, hext.joined, rfl, fun p hp i hi => hitems i (List.mem_flatMap.mpr ⟨p, hp, hi⟩)⟩

end Layout

end UpgradeSafety
