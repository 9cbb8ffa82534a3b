import UpgradeSafety.Proofs.Layout.References

/-!
# One node for each type

Resolving enters ids into a graph one at a time, so what holds of the empty graph and is kept when
an id is entered holds in the end (`resolve_keeps`): every id is entered once, and its node is what
the parts of the id and its entry in the types table say (`Built`). Together with what is known of
the ids that can be met, this determines the graph: nothing is entered that is not reached, and a
graph that holds the types of the variables holds everything that is reached from them.

* `resolve_complete`: however the types of a layout refer to each other, resolving ends. It gives a
  graph with one node for every id that is reached and for no other, or it is refused for an id
  that cannot be read or a required one that is not listed. How deep the search may go does not
  matter as long as it is not less than the number of ids that can be met.
-/

namespace UpgradeSafety

namespace Resolution

variable {types : TypeTable} {items : List Item} {required : Bool} {t : TypeId} {g g' : TypeGraph}
  {id : String}

/-! ## What entering an id keeps -/

/-- A property of graphs is kept when an id is entered: one that stands somewhere, is not in the graph yet,
and is listed or optional. -/
def Enters (types : TypeTable) (items : List Item) (P : TypeGraph → Prop) : Prop :=
  ∀ g t required, Stands types items required t → g.lookup t.text = none →
    ((types.lookup t.text).isNone && required) = false → P g →
    P (g ++ [(t.text, TypeNode.ofEntry t (types.lookup t.text))])

variable {P : TypeGraph → Prop}

/-- What every step of a fold keeps, the fold keeps. -/
theorem foldlM_keeps {α : Type} {f : TypeGraph → α → Except Refusal TypeGraph} {l : List α}
    (hf : ∀ a ∈ l, ∀ g g', P g → f g a = .ok g' → P g') (hg : P g) (h : l.foldlM f g = .ok g') : P g' := by
  induction l generalizing g with
  | nil =>
    cases h
    exact hg
  | cons a l ih =>
    obtain ⟨ha, hl⟩ := List.forall_mem_cons.mp hf
    rw [List.foldlM_cons] at h
    obtain ⟨g₁, hg₁, h⟩ := bind_eq_ok_iff.mp h
    exact ih hl (ha g g₁ hg hg₁) h

/-- What is kept when an id is entered is kept when one is resolved with everything in it. -/
theorem resolve_keeps (henter : Enters types items P) {bound : Nat} (h : Stands types items required t)
    (hg : P g) (hrun : resolve types bound g t required = .ok g') : P g' := by
  induction bound generalizing g g' t required with
  | zero => cases hrun
  | succ bound ih =>
    cases hlookup : g.lookup t.text with
    | some node =>
      rw [resolve, hlookup] at hrun
      cases hrun
      exact hg
    | none =>
      cases hlisted : (types.lookup t.text).isNone && required with
      | true =>
        rw [resolve, hlookup] at hrun
        dsimp only at hrun
        rw [hlisted, if_pos rfl] at hrun
        cases hrun
      | false =>
        rw [resolve_new hlookup hlisted, resolveInside] at hrun
        obtain ⟨g₁, hargs, hrun⟩ := bind_eq_ok_iff.mp hrun
        obtain ⟨g₂, hrets, hmembers⟩ := bind_eq_ok_iff.mp hrun
        have h₀ := henter g t required h hlookup hlisted hg
        have h₁ := foldlM_keeps (fun a ha _ _ => ih (h.argument ha)) h₀ hargs
        have h₂ := foldlM_keeps (fun r hr _ _ => ih (h.result hr)) h₁ hrets
        refine foldlM_keeps (fun m hm g g' hg hstep => ?_) h₂ hmembers
        obtain ⟨u, hu, hstep⟩ := bind_eq_ok_iff.mp hstep
        cases hentry : types.lookup t.text with
        | none =>
          rw [hentry] at hm
          cases hm
        | some entry =>
          rw [hentry] at hm
          exact ih (h.member hentry hm hu) hg hstep

theorem resolveItems_keeps (henter : Enters types items P) {bound : Nat} (hg : P [])
    (hrun : resolveItems types bound [] items = .ok g) : P g := by
  refine foldlM_keeps (fun i hi g g' hg hstep => ?_) hg hrun
  obtain ⟨u, hu, hstep⟩ := bind_eq_ok_iff.mp hstep
  exact resolve_keeps henter (.item hi hu) hg hstep

/-! ## Graphs -/

/-- The node of an id has the parts of the id, and the rest from its entry in the types table. An id without
an entry stands in an optional place; nothing but the id is known of its type. -/
structure Describes (types : TypeTable) (items : List Item) (id : String) (n : TypeNode) : Prop where
  id_eq : n.id = id
  parts : ∃ t, TypeId.read id = .ok t ∧ n.head = t.head ∧ n.tail = t.tail ∧
    n.args = t.args.map (fun args => args.map (·.text)) ∧
    n.rets = t.rets.map (fun rets => rets.map (·.text))
  listed : ∀ entry, types.lookup id = some entry →
    n.label = entry.label ∧ n.numberOfBytes = entry.numberOfBytes ∧ n.members = entry.members
  absent : types.lookup id = none →
    (n.label = id ∧ n.numberOfBytes = none ∧ n.members = none) ∧
      ∃ t, TypeId.read id = .ok t ∧ Stands types items false t

/-- A graph has one node for every id that is reached and for no other, and each is what its id says. -/
structure Complete (types : TypeTable) (items : List Item) (g : TypeGraph) : Prop where
  once : (g.map (·.1)).Nodup
  reached : ∀ id, id ∈ g.map (·.1) ↔ Reached types items id
  describes : ∀ id n, (id, n) ∈ g → Describes types items id n

theorem describes_ofEntry (h : Stands types items required t)
    (hlisted : ((types.lookup t.text).isNone && required) = false) :
    Describes types items t.text (.ofEntry t (types.lookup t.text)) where
  id_eq := rfl
  parts := ⟨t, h.read, rfl, rfl, rfl, rfl⟩
  listed entry hentry := by
    rw [hentry]
    exact ⟨rfl, rfl, rfl⟩
  absent hnone := by
    rw [hnone, Option.isNone_none, Bool.true_and] at hlisted
    subst hlisted
    rw [hnone]
    exact ⟨⟨rfl, rfl, rfl⟩, t, h.read, h⟩

/-- The ids of a graph are distinct and were reached, and every node is what its id says. -/
structure Built (types : TypeTable) (items : List Item) (g : TypeGraph) : Prop where
  once : (g.map (·.1)).Nodup
  nodes : ∀ id n, (id, n) ∈ g → Reached types items id ∧ Describes types items id n

theorem enters_built (types : TypeTable) (items : List Item) :
    Enters types items (Built types items) := by
  intro g t required h hnew hlisted hg
  have hfresh : t.text ∉ g.map (·.1) := lookup_eq_none_iff_not_mem.mp hnew
  constructor
  · rw [List.map_append, List.nodup_append]
    refine ⟨hg.once, List.nodup_singleton _, fun id hid other hother heq => ?_⟩
    obtain rfl := List.mem_singleton.mp hother
    have hid' : t.text ∈ g.map (·.1) := by rwa [heq] at hid
    exact hfresh hid'
  · intro id n hmem
    rcases List.mem_append.mp hmem with hmem | hmem
    · exact hg.nodes id n hmem
    · obtain ⟨rfl, rfl⟩ := Prod.mk.inj (List.mem_singleton.mp hmem)
      exact ⟨h.reached, describes_ofEntry h hlisted⟩

/-- What is reached from the variables is in every graph that holds their types and grew from nothing. -/
theorem Reached.mem_graph (hgrows : Grows types items [] g) (hitems : ∀ i ∈ items, g.lookup i.type ≠ none)
    (h : Reached types items id) : g.lookup id ≠ none := by
  have hadds {id : String} {t : TypeId} (ht : TypeId.read id = .ok t) (hid : g.lookup id ≠ none) := by
    have htext := TypeId.text_of_read ht
    rw [← htext] at ht hid
    exact hgrows.adds t ht rfl hid
  induction h with
  | item hi => exact hitems _ hi
  | part _ ht hs ih => exact (hadds ht ih).1 _ hs
  | member _ ht hentry hm ih =>
    exact (hadds ht ih).2.1 _ (TypeId.text_of_read ht ▸ hentry) _ hm

/-- The graph of variables that are resolved is complete. -/
theorem complete_of_resolveItems {bound : Nat} (hrun : resolveItems types bound [] items = .ok g)
    (hgrows : Grows types items [] g) (hitems : ∀ i ∈ items, g.lookup i.type ≠ none) :
    Complete types items g := by
  have hbuilt := resolveItems_keeps (enters_built types items) ⟨.nil, nofun⟩ hrun
  refine ⟨hbuilt.once, fun id => ⟨fun hid => ?_, fun hid => ?_⟩, fun id n hn => (hbuilt.nodes id n hn).2⟩
  · obtain ⟨⟨id, n⟩, hn, rfl⟩ := List.mem_map.mp hid
    exact (hbuilt.nodes id n hn).1
  · by_contra hnot
    exact hid.mem_graph hgrows hitems (lookup_eq_none_iff_not_mem.mpr hnot)

/-! ## Results -/

theorem Refuses.family {e : Refusal} (h : Refuses types items e) : e.family = .layoutImport := by
  cases h with
  | missing => rfl
  | @unreadable id e _ hread =>
    rw [TypeId.read] at hread
    split at hread
    · cases hread
    · cases hread
      rfl

/-- How resolving variables ends: with a complete graph, or with a refusal to import the layout. -/
inductive Ends (types : TypeTable) (items : List Item) : Except Refusal TypeGraph → Prop where
  | complete {g : TypeGraph} (h : Complete types items g) : Ends types items (.ok g)
  | refused {e : Refusal} (hfamily : e.family = .layoutImport) (h : Refuses types items e) :
    Ends types items (.error e)

/-- Resolving variables ends in the same way under every bound that is not below the ids that can be met. -/
theorem exists_ends (types : TypeTable) (items : List Item) : ∃ x, Ends types items x ∧
    ∀ bound, mentions types items ≤ bound → resolveItems types bound [] items = x := by
  have hbound {bound : Nat} (h : mentions types items ≤ bound) : (mentioned types items).length < bound :=
    Nat.lt_of_lt_of_le (length_mentioned types items) h
  cases resolveItems_settles types items with
  | @grows g hrun hgrows hids =>
    refine ⟨.ok g, .complete ?_, fun bound h => hrun bound (hbound h)⟩
    refine complete_of_resolveItems (hrun _ (hbound (Nat.le_refl _))) hgrows fun i hi => ?_
    exact hids _ (List.mem_map_of_mem hi)
  | @refused e hrun he =>
    exact ⟨.error e, .refused he.family he, fun bound h => hrun bound (hbound h)⟩

end Resolution

namespace Layout

open Resolution

/-- Resolving the variables of a layout and of its namespaces ends. The result has one node for every id that
is reached, with the parts of the id and with its entry in the types table, or is a refusal to import the
layout; and it does not depend on the bound, so references never go deeper. -/
theorem resolve_complete (layout : Layout) :
    (∃ x, Ends layout.types layout.storage x ∧
      layout.resolveStorage = x.map (fun g => ⟨g, layout.storage⟩) ∧
      ∀ bound, mentions layout.types layout.storage ≤ bound →
        resolveItems layout.types bound [] layout.storage = x) ∧
    ∃ x, Ends layout.types (layout.namespaces.flatMap (·.2)) x ∧
      layout.resolveNamespaces =
        x.map (fun g => layout.namespaces.map fun ns => (ns.1, ⟨g, ns.2⟩)) ∧
      ∀ bound, mentions layout.types (layout.namespaces.flatMap (·.2)) ≤ bound →
        resolveItems layout.types bound [] (layout.namespaces.flatMap (·.2)) = x := by
  constructor
  · obtain ⟨x, hends, hbound⟩ := exists_ends layout.types layout.storage
    refine ⟨x, hends, ?_, hbound⟩
    rw [resolveStorage, hbound _ (Nat.le_refl _)]
    cases x <;> rfl
  · obtain ⟨x, hends, hbound⟩ := exists_ends layout.types (layout.namespaces.flatMap (·.2))
    refine ⟨x, hends, ?_, hbound⟩
    rw [resolveNamespaces, hbound _ (Nat.le_refl _)]
    cases x <;> rfl

/-- The id of a struct that refers to itself. -/
def linkId : String := "t_struct(Link)1_storage"

/-- The id of a mapping to the struct, which is the type of its only member. -/
def linksId : String := "t_mapping(t_uint256,t_struct(Link)1_storage)"

/-- A layout with a struct whose member maps numbers to structs of the same type. -/
def linkedLayout : Layout where
  layoutVersion := some "1.2"
  storage := [{ label := "first", type := linkId }]
  types := [
    (linkId, { label := "struct Link", members := some (.items [{ label := "next", type := linksId }]) }),
    (linksId, { label := "mapping(uint256 => struct Link)" }), ("t_uint256", { label := "uint256" })]

theorem resolve_complete_linked : ∃ g,
    linkedLayout.resolveStorage = .ok ⟨g, linkedLayout.storage⟩ ∧
    Complete linkedLayout.types linkedLayout.storage g ∧
    g.map (·.1) = [linkId, "Link", linksId, "t_uint256"] ∧
    mentions linkedLayout.types linkedLayout.storage ≤ 100 ∧
    resolveItems linkedLayout.types 100 [] linkedLayout.storage = .ok g := by
  obtain ⟨⟨x, hends, hstorage, hbound⟩, -⟩ := resolve_complete linkedLayout
  have henough : mentions linkedLayout.types linkedLayout.storage ≤ 100 := by decide +kernel
  have hrun := hbound 100 henough
  have hids : ((resolveItems linkedLayout.types 100 [] linkedLayout.storage).map
      fun g => g.map (·.1)).toOption = some [linkId, "Link", linksId, "t_uint256"] := by
    decide +kernel
  rw [hrun] at hids
  cases hends with
  | complete hcomplete => exact ⟨_, hstorage, hcomplete, Option.some.inj hids, henough, hrun⟩
  | refused hfamily hrefused => cases hids

end Layout

end UpgradeSafety
