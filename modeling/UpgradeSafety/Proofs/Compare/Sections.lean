import UpgradeSafety.Proofs.Compare.Pairs
import UpgradeSafety.Proofs.Layout.Resolution
import UpgradeSafety.Report.Basic

/-!
# The sections of a layout

The storage and the namespaces of two layouts are compared one after the other with one memory. The
memory changes nothing: every section is compared as if it were alone (`layouts_eq_ok`).

The storage and the namespaces of a layout have graphs of their own. Both are joined from the same
table, so they are parts of one graph (`exists_within`), for which the memory stays sound. That is
the invariant of a comparison under way (`Underway`): it holds at the start with the empty memory,
comparing a section keeps it, and it passes from two structs to their members.

What plain recursion finds in every section is therefore what the comparison of the layouts finds,
and the other way round. For layouts without namespaces this leaves the storage alone
(`layouts_iff_plainStorage`), by which the layouts of the examples are evaluated: the small layouts
at the end of the module, of addresses, words and gaps, serve all of them.
-/

namespace UpgradeSafety

/-! ## Parts of a graph -/

/-- The graph of a resolved list is a part of a larger graph. -/
structure Resolved.Within (r : Resolved) (g : TypeGraph) : Prop where
  keyed : r.graph.Keyed
  agree : r.graph.AgreeOn (fun i => r.graph.lookup i ≠ none) g
  items : ∀ i ∈ r.items, r.graph.lookup i.type ≠ none

theorem Resolved.Joined.within {types : TypeTable} {r : Resolved} {g : TypeGraph}
    (h : r.Joined types) (hg : ∀ i n, r.graph.lookup i = some n → g.lookup i = some n) :
    r.Within g where
  keyed := h.graph.keyed
  agree := by
    constructor
    · intro i hi
      obtain ⟨n, hn⟩ := Option.ne_none_iff_exists'.mp hi
      rw [TypeGraph.node_of_lookup hn, TypeGraph.node_of_lookup (hg i n hn)]
    · intro i hi j hj
      obtain ⟨n, hn⟩ := Option.ne_none_iff_exists'.mp hi
      rw [TypeGraph.node_of_lookup hn] at hj
      exact h.graph.inside i n hn j hj
  items := h.items

/-- Two graphs for the same table agree where both hold a type. -/
theorem TypeGraph.Joined.lookup_append {types : TypeTable} {g g' : TypeGraph}
    (h : g.Joined types) (h' : g'.Joined types) {i : String} {n : TypeNode}
    (hn : g.lookup i = some n ∨ g'.lookup i = some n) : (g ++ g').lookup i = some n := by
  rw [List.lookup_append]
  rcases hn with hn | hn
  · rw [hn, Option.some_or]
  · cases hm : g.lookup i with
    | none => rw [Option.none_or, hn]
    | some m => rw [Option.some_or, (h.joins i m hm).unique (h'.joins i n hn)]

/-- The items of a type of the graph are a list of their own. -/
theorem Resolved.Within.inside {r : Resolved} {g : TypeGraph} (h : r.Within g) {i : String}
    (hi : r.graph.lookup i ≠ none) {items : List Item}
    (hitems : ∀ m ∈ items, m.type ∈ (r.graph.node i).inside) :
    Resolved.Within ⟨r.graph, items⟩ g :=
  ⟨h.keyed, h.agree, fun m hm => h.agree.inside i hi m.type (hitems m hm)⟩

namespace Compare

variable {leniency : Leniency}

/-! ## One section -/

/-- The operations of a section that is compared alone. -/
def freshSection (leniency : Leniency) (former updated : Resolved) :
    Except Obstacle (List Operation) :=
  listChanges leniency.strictRenames (freshChange leniency former.graph updated.graph) former.vars
    updated.vars true

/-- The operations of a namespace that is compared alone. -/
def freshNamespace (leniency : Leniency) (updated : List (String × Resolved))
    (former : String × Resolved) : Except Obstacle (List Operation) :=
  match updated.lookup former.1 with
  | none => .ok [⟨.deleteNamespace former.1 former.2.vars.head?, false, some former.1⟩]
  | some found =>
    (freshSection leniency former.2 found).map
      fun ops => ops.map fun op => { op with namespaceId := some former.1 }

/-- The operations of a section by plain recursion. -/
def plainSection (leniency : Leniency) (former updated : Resolved) :
    Except Obstacle (List Operation) :=
  listChanges leniency.strictRenames
    (plainChange leniency former.graph updated.graph (pairBound former.graph updated.graph))
    former.vars updated.vars true

section Runs

variable {og ug : TypeGraph} {memory memory' : Memory} {ops : List Operation}

theorem run_sectionChanges {former updated : Resolved} (ho : former.Within og)
    (hu : updated.Within ug) (hI : memory.Sound leniency og ug)
    (hrun : (sectionChanges leniency former updated).run.run memory = (.ok ops, memory')) :
    memory'.Sound leniency og ug ∧ freshSection leniency former updated = .ok ops :=
  run_listChanges ho.keyed hu.keyed ho.agree hu.agree ho.items hu.items hI hrun

theorem run_sectionChanges_of_plain {former updated : Resolved} (ho : former.Within og)
    (hu : updated.Within ug) (hI : memory.Sound leniency og ug)
    (h : plainSection leniency former updated = .ok ops) :
    ∃ memory', (sectionChanges leniency former updated).run.run memory = (.ok ops, memory') ∧
      memory'.Sound leniency og ug :=
  run_listChanges_of_plain ho.keyed hu.keyed ho.agree hu.agree ho.items hu.items h hI

theorem run_bind_eq_ok {α β : Type} {x : Comparison α} {f : α → Comparison β} {b : β}
    (h : (x >>= f).run.run memory = (.ok b, memory')) :
    ∃ a memory₁, x.run.run memory = (.ok a, memory₁) ∧ (f a).run.run memory₁ = (.ok b, memory') := by
  rw [run_bind] at h
  split at h
  · rename_i a memory₁ hx
    exact ⟨a, memory₁, hx, h⟩
  · cases h

theorem run_namespaceChanges {updated rest : List (String × Resolved)}
    (ho : ∀ p ∈ rest, p.2.Within og) (hu : ∀ id r, updated.lookup id = some r → r.Within ug)
    (hI : memory.Sound leniency og ug)
    (hrun : (namespaceChanges leniency updated rest).run.run memory = (.ok ops, memory')) :
    ∃ parts, List.Forall₂ (fun p part => freshNamespace leniency updated p = .ok part) rest parts ∧
      parts.flatten = ops := by
  induction rest generalizing memory ops with
  | nil =>
    cases hrun
    exact ⟨[], .nil, rfl⟩
  | cons p rest ih =>
    obtain ⟨id, former⟩ := p
    have hparts : ∃ here memory₁ later, memory₁.Sound leniency og ug ∧
        freshNamespace leniency updated (id, former) = .ok here ∧
        (namespaceChanges leniency updated rest).run.run memory₁ = (.ok later, memory') ∧
        here ++ later = ops := by
      rw [namespaceChanges] at hrun
      rw [freshNamespace]
      cases hlookup : updated.lookup id with
      | none =>
        rw [hlookup] at hrun
        obtain ⟨here, memory₁, hhere, hrun⟩ := run_bind_eq_ok hrun
        cases hhere
        obtain ⟨later, memory₂, hlater, hrun⟩ := run_bind_eq_ok hrun
        cases hrun
        exact ⟨_, memory, later, hI, rfl, hlater, rfl⟩
      | some found =>
        rw [hlookup] at hrun
        obtain ⟨part, memory₁, hpart, hrun⟩ := run_bind_eq_ok hrun
        obtain ⟨here, memory₂, hhere, hrun⟩ := run_bind_eq_ok hrun
        cases hhere
        obtain ⟨later, memory₂, hlater, hrun⟩ := run_bind_eq_ok hrun
        cases hrun
        obtain ⟨hI', hfresh⟩ := run_sectionChanges (ho _ List.mem_cons_self) (hu id found hlookup)
          hI hpart
        refine ⟨_, memory₁, later, hI', ?_, hlater, rfl⟩
        dsimp only
        rw [hfresh]
        rfl
    obtain ⟨here, memory₁, later, hI', hhere, hlater, rfl⟩ := hparts
    obtain ⟨parts, hparts, rfl⟩ := ih (fun p hp => ho p (List.mem_cons_of_mem _ hp)) hI' hlater
    exact ⟨here :: parts, .cons hhere hparts, rfl⟩

theorem run_sectionChanges_of_fresh {former updated : Resolved} (ho : former.Within og)
    (hu : updated.Within ug) (hI : memory.Sound leniency og ug)
    (h : freshSection leniency former updated = .ok ops) :
    ∃ memory', (sectionChanges leniency former updated).run.run memory = (.ok ops, memory') ∧
      memory'.Sound leniency og ug :=
  run_sectionChanges_of_plain ho hu hI ((listChanges_fresh_iff ho.keyed hu.keyed).mp h)

/-- When every namespace can be compared alone, the comparison finds what is found so. -/
theorem run_namespaceChanges_of_fresh {updated rest : List (String × Resolved)}
    (ho : ∀ p ∈ rest, p.2.Within og) (hu : ∀ id r, updated.lookup id = some r → r.Within ug)
    (hI : memory.Sound leniency og ug) {parts : List (List Operation)}
    (h : List.Forall₂ (fun p part => freshNamespace leniency updated p = .ok part) rest parts) :
    ∃ memory', (namespaceChanges leniency updated rest).run.run memory =
      (.ok parts.flatten, memory') := by
  induction h generalizing memory with
  | nil => exact ⟨memory, rfl⟩
  | @cons p part rest parts hpart _ ih =>
    obtain ⟨id, former⟩ := p
    have hrest := fun p hp => ho p (List.mem_cons_of_mem (id, former) hp)
    rw [freshNamespace] at hpart
    dsimp only at hpart
    split at hpart
    · rename_i hlookup
      cases hpart
      obtain ⟨memory', hlater⟩ := ih hrest hI
      refine ⟨memory', ?_⟩
      rw [namespaceChanges, hlookup]
      change (namespaceChanges leniency updated rest >>= _).run.run memory = _
      rw [run_bind, hlater]
      rfl
    · rename_i found hlookup
      obtain ⟨ops, hops, rfl⟩ := map_eq_ok_iff.mp hpart
      obtain ⟨memory₁, hhere, hI'⟩ :=
        run_sectionChanges_of_fresh (ho _ List.mem_cons_self) (hu id found hlookup) hI hops
      obtain ⟨memory', hlater⟩ := ih hrest hI'
      refine ⟨memory', ?_⟩
      rw [namespaceChanges, hlookup]
      dsimp only
      rw [run_bind, hhere]
      change (namespaceChanges leniency updated rest >>= _).run.run memory₁ = _
      rw [run_bind, hlater]
      rfl

end Runs

/-! ## Comparisons under way -/

/-- Whenever two lists are compared, their graphs are parts of graphs for which the memory is
sound. -/
def Underway (leniency : Leniency) (former updated : Resolved) (memory : Memory) : Prop :=
  ∃ og ug, former.Within og ∧ updated.Within ug ∧ memory.Sound leniency og ug

/-- Comparing two lists changes nothing about that, and finds what one finds that compares all types
afresh. -/
theorem Underway.run {former updated : Resolved} {memory memory' : Memory} {fuel : Nat}
    {openPairs : List PairKey} {strict a : Bool} {ops : List Operation}
    (h : Underway leniency former updated memory)
    (hrun : (listChanges strict (typeChange leniency former.graph updated.graph fuel openPairs)
      former.vars updated.vars a).run.run memory = (.ok ops, memory')) :
    Underway leniency former updated memory' ∧
      listChanges strict (freshChange leniency former.graph updated.graph) former.vars updated.vars
        a = .ok ops := by
  obtain ⟨og, ug, ho, hu, hI⟩ := h
  obtain ⟨hI', hfresh⟩ := run_listChanges ho.keyed hu.keyed ho.agree hu.agree ho.items hu.items hI
    hrun
  exact ⟨⟨og, ug, ho, hu, hI'⟩, hfresh⟩

/-- Two lists are compared as plain recursion compares them. -/
theorem Underway.run_of_plain {former updated : Resolved} {memory : Memory} {ops : List Operation}
    (h : Underway leniency former updated memory)
    (hplain : plainSection leniency former updated = .ok ops) :
    ∃ memory', (sectionChanges leniency former updated).run.run memory = (.ok ops, memory') := by
  obtain ⟨og, ug, ho, hu, hI⟩ := h
  obtain ⟨memory', hrun, -⟩ := run_sectionChanges_of_plain ho hu hI hplain
  exact ⟨memory', hrun⟩

/-- Two lists are compared as one compares them that starts with an empty memory. -/
theorem Underway.run_of_fresh {former updated : Resolved} {memory : Memory} {ops : List Operation}
    (h : Underway leniency former updated memory)
    (hfresh : freshSection leniency former updated = .ok ops) :
    ∃ memory', (sectionChanges leniency former updated).run.run memory = (.ok ops, memory') := by
  obtain ⟨og, ug, ho, hu, hI⟩ := h
  exact Underway.run_of_plain ⟨og, ug, ho, hu, hI⟩
    ((listChanges_fresh_iff ho.keyed hu.keyed).mp hfresh)

/-- Two types are compared as plain recursion compares them. -/
theorem Underway.run_type_of_plain {former updated : Resolved} {memory : Memory}
    (h : Underway leniency former updated memory) {i j : String}
    (hi : former.graph.lookup i ≠ none) (hj : updated.graph.lookup j ≠ none) {a : Bool}
    {r : Option TypeChange}
    (hplain : plainChange leniency former.graph updated.graph
      (pairBound former.graph updated.graph) (former.graph.node i) (updated.graph.node j) a =
        .ok r) :
    ∃ memory', (typeChange leniency former.graph updated.graph
      (pairBound former.graph updated.graph) [] (former.graph.node i) (updated.graph.node j)
        a).run.run memory = (.ok r, memory') := by
  obtain ⟨og, ug, ho, hu, hI⟩ := h
  obtain ⟨memory', hrun, -⟩ := typeChange_attains ho.keyed hu.keyed ho.agree hu.agree
    (Nat.le_refl _) (fun _ _ _ _ hmem => absurd hmem List.not_mem_nil) hi hj a r hplain memory hI
  exact ⟨memory', hrun⟩

/-- Passing to the members of two structs changes nothing about it either. -/
theorem Underway.inside {former updated : Resolved} {memory : Memory}
    (h : Underway leniency former updated memory) {i j : String}
    (hi : former.graph.lookup i ≠ none) (hj : updated.graph.lookup j ≠ none) {os us : List Item}
    (hos : ∀ m ∈ os, m.type ∈ (former.graph.node i).inside)
    (hus : ∀ m ∈ us, m.type ∈ (updated.graph.node j).inside) :
    Underway leniency ⟨former.graph, os⟩ ⟨updated.graph, us⟩ memory := by
  obtain ⟨og, ug, ho, hu, hI⟩ := h
  exact ⟨og, ug, ho.inside hi hos, hu.inside hj hus, hI⟩

/-! ## Layouts -/

/-- The sections of two layouts with their types. -/
structure Sections (former updated : Layout) (os us : Resolved)
    (on un : List (String × Resolved)) : Prop where
  os : former.resolveStorage = .ok os
  us : updated.resolveStorage = .ok us
  on : former.resolveNamespaces = .ok on
  un : updated.resolveNamespaces = .ok un

/-- All sections of a layout have their types in one graph. -/
theorem exists_within {layout : Layout} {storage : Resolved}
    {namespaces : List (String × Resolved)} (hs : layout.resolveStorage = .ok storage)
    (hn : layout.resolveNamespaces = .ok namespaces) :
    ∃ g, storage.Within g ∧ ∀ p ∈ namespaces, p.2.Within g := by
  obtain ⟨-, hstorage⟩ := Layout.resolveStorage_joined hs
  obtain ⟨g, hg, rfl, hitems⟩ := Layout.resolveNamespaces_joined hn
  refine ⟨storage.graph ++ g, ?_, ?_⟩
  · exact hstorage.within fun i n h => hstorage.graph.lookup_append hg (Or.inl h)
  · intro p hp
    obtain ⟨⟨id, items⟩, hmem, rfl⟩ := List.mem_map.mp hp
    have hjoined : Resolved.Joined layout.types ⟨g, items⟩ := ⟨hg, hitems (id, items) hmem⟩
    exact hjoined.within fun i n h => hstorage.graph.lookup_append hg (Or.inr h)

/-- A comparison is under way from its start. -/
theorem Sections.underway {former updated : Layout} {os us : Resolved}
    {on un : List (String × Resolved)} (h : Sections former updated os us on un)
    (leniency : Leniency) :
    Underway leniency os us {} := by
  obtain ⟨og, hog, -⟩ := exists_within h.os h.on
  obtain ⟨ug, hug, -⟩ := exists_within h.us h.un
  exact ⟨og, ug, hog, hug, Memory.sound_empty⟩

theorem mem_of_lookup {α : Type} {l : List (String × α)} {id : String} {a : α}
    (h : l.lookup id = some a) : (id, a) ∈ l := by
  obtain ⟨l₁, l₂, rfl, -⟩ := List.lookup_eq_some_iff.mp h
  exact List.mem_append_right l₁ List.mem_cons_self

/-- Two layouts are compared section by section, each as if it were alone. -/
theorem layouts_eq_ok {former updated : Layout} {outcome : Outcome}
    (h : layouts leniency former updated = .ok outcome) :
    ∃ os us on un, Sections former updated os us on un ∧
      ∃ storage parts, freshSection leniency os us = .ok storage ∧
        List.Forall₂ (fun p part => freshNamespace leniency un p = .ok part) on parts ∧
        outcome.operations = storage ++ parts.flatten := by
  have hmapError {α : Type} {x : Except Refusal α} {a : α}
      (hx : x.mapError Failure.refused = .ok a) : x = .ok a := by
    cases x with
    | error e => cases hx
    | ok b => cases hx; rfl
  obtain ⟨os, hos, h⟩ := bind_eq_ok_iff.mp h
  obtain ⟨us, hus, h⟩ := bind_eq_ok_iff.mp h
  obtain ⟨on, hon, h⟩ := bind_eq_ok_iff.mp h
  obtain ⟨un, hun, h⟩ := bind_eq_ok_iff.mp h
  split at h
  · rename_i ops memory hrun
    cases h
    obtain ⟨og, hog, hogs⟩ := exists_within (hmapError hos) (hmapError hon)
    obtain ⟨ug, hug, hugs⟩ := exists_within (hmapError hus) (hmapError hun)
    obtain ⟨storage, memory₁, hstorage, hrun⟩ := run_bind_eq_ok hrun
    obtain ⟨namespaces, memory₂, hnamespaces, hrun⟩ := run_bind_eq_ok hrun
    cases hrun
    obtain ⟨hI, hfresh⟩ := run_sectionChanges hog hug Memory.sound_empty hstorage
    obtain ⟨parts, hparts, rfl⟩ := run_namespaceChanges hogs
      (fun id r hr => hugs (id, r) (mem_of_lookup hr)) hI hnamespaces
    exact ⟨os, us, on, un, ⟨hmapError hos, hmapError hus, hmapError hon, hmapError hun⟩, storage,
      parts, hfresh, hparts, rfl⟩
  · cases h

/-- When every section can be compared alone, the comparison of two layouts finds what is found so. -/
theorem layouts_eq_ok_of_fresh {former updated : Layout} {os us : Resolved}
    {on un : List (String × Resolved)} (h : Sections former updated os us on un)
    {storage : List Operation} {parts : List (List Operation)}
    (hstorage : freshSection leniency os us = .ok storage)
    (hparts : List.Forall₂ (fun p part => freshNamespace leniency un p = .ok part) on parts) :
    ∃ outcome, layouts leniency former updated = .ok outcome ∧
      outcome.operations = storage ++ parts.flatten := by
  obtain ⟨og, hog, hogs⟩ := exists_within h.os h.on
  obtain ⟨ug, hug, hugs⟩ := exists_within h.us h.un
  obtain ⟨memory₁, hrun, hI⟩ := run_sectionChanges_of_fresh hog hug Memory.sound_empty hstorage
  obtain ⟨memory', hrun'⟩ := run_namespaceChanges_of_fresh hogs
    (fun id r hr => hugs (id, r) (mem_of_lookup hr)) hI hparts
  have hall : (sectionsChanges leniency os us on un).run.run {} =
      (.ok (storage ++ parts.flatten), memory') := by
    rw [sectionsChanges, run_bind, hrun]
    change (namespaceChanges leniency un on >>= _).run.run memory₁ = _
    rw [run_bind, hrun']
    rfl
  refine ⟨⟨storage ++ parts.flatten, memory'.uncheckedCustomTypes⟩, ?_, rfl⟩
  refine bind_eq_ok_iff.mpr ⟨os, by rw [h.os]; rfl, bind_eq_ok_iff.mpr ⟨us, by rw [h.us]; rfl,
    bind_eq_ok_iff.mpr ⟨on, by rw [h.on]; rfl, bind_eq_ok_iff.mpr ⟨un, by rw [h.un]; rfl, ?_⟩⟩⟩⟩
  rw [hall]
  rfl

/-- When plain recursion finds nothing in any namespace, the operations of two layouts are those that
it finds in the storage. -/
theorem layouts_eq_ok_of_plain {former updated : Layout} {os us : Resolved}
    {on un : List (String × Resolved)} (h : Sections former updated os us on un)
    {ops : List Operation} (hstorage : plainSection leniency os us = .ok ops)
    (hnamespaces : ∀ p ∈ on, ∃ u, un.lookup p.1 = some u ∧ plainSection leniency p.2 u = .ok []) :
    ∃ outcome, layouts leniency former updated = .ok outcome ∧ outcome.operations = ops := by
  obtain ⟨og, hog, hogs⟩ := exists_within h.os h.on
  obtain ⟨ug, hug, hugs⟩ := exists_within h.us h.un
  have hparts : List.Forall₂ (fun p part => freshNamespace leniency un p = .ok part) on
      (on.map fun _ => []) := by
    refine List.forall₂_map_right_iff.mpr (List.forall₂_same.mpr fun p hp => ?_)
    obtain ⟨u, hu, hplain⟩ := hnamespaces p hp
    have hwithin := hugs (p.1, u) (mem_of_lookup hu)
    rw [freshNamespace, hu]
    exact map_eq_ok_iff.mpr
      ⟨[], (listChanges_fresh_iff (hogs p hp).keyed hwithin.keyed).mpr hplain, rfl⟩
  obtain ⟨outcome, houtcome, hops⟩ := layouts_eq_ok_of_fresh h
    ((listChanges_fresh_iff hog.keyed hug.keyed).mpr hstorage) hparts
  refine ⟨outcome, houtcome, hops.trans ?_⟩
  rw [List.map_const', List.flatten_replicate_nil, List.append_nil]

/-! ## Small layouts

Layouts on which the results about comparisons are tried. They have no namespaces, and their storage
is compared by plain recursion. -/

/-- The operations on the storage of two layouts by plain recursion. -/
def plainStorage (leniency : Leniency) (former updated : Layout) : Option (List Operation) := do
  let os ← former.resolveStorage.toOption
  let us ← updated.resolveStorage.toOption
  (plainSection leniency os us).toOption

theorem resolveNamespaces_nil {layout : Layout} (h : layout.namespaces = []) :
    layout.resolveNamespaces = .ok [] := by
  rw [Layout.resolveNamespaces, h]
  rfl

theorem plainStorage_eq_some_iff {former updated : Layout} {ops : List Operation}
    (ho : former.namespaces = []) (hu : updated.namespaces = []) :
    plainStorage leniency former updated = some ops ↔
      ∃ os us, Sections former updated os us [] [] ∧ plainSection leniency os us = .ok ops := by
  constructor
  · intro h
    obtain ⟨os, hos, h⟩ := Option.bind_eq_some_iff.mp h
    obtain ⟨us, hus, h⟩ := Option.bind_eq_some_iff.mp h
    exact ⟨os, us, ⟨eq_ok_of_toOption hos, eq_ok_of_toOption hus, resolveNamespaces_nil ho,
      resolveNamespaces_nil hu⟩, eq_ok_of_toOption h⟩
  · rintro ⟨os, us, hsections, h⟩
    rw [plainStorage, hsections.os, hsections.us]
    change (plainSection leniency os us).toOption = _
    rw [h]
    rfl

/-- Comparing two layouts without namespaces finds what plain recursion finds in their storage. -/
theorem layouts_iff_plainStorage {former updated : Layout} {ops : List Operation}
    (ho : former.namespaces = []) (hu : updated.namespaces = []) :
    (∃ outcome, layouts leniency former updated = .ok outcome ∧ outcome.operations = ops) ↔
      plainStorage leniency former updated = some ops := by
  rw [plainStorage_eq_some_iff ho hu]
  constructor
  · rintro ⟨outcome, houtcome, rfl⟩
    obtain ⟨os, us, on, un, hsections, storage, parts, hstorage, hparts, hops⟩ :=
      layouts_eq_ok houtcome
    have hon := hsections.on
    have hun := hsections.un
    rw [resolveNamespaces_nil ho] at hon
    rw [resolveNamespaces_nil hu] at hun
    cases hon
    cases hun
    cases hparts
    obtain ⟨-, hos⟩ := Layout.resolveStorage_joined hsections.os
    obtain ⟨-, hus⟩ := Layout.resolveStorage_joined hsections.us
    rw [hops, List.flatten_nil, List.append_nil]
    exact ⟨os, us, hsections, (listChanges_fresh_iff hos.graph.keyed hus.graph.keyed).mp hstorage⟩
  · rintro ⟨os, us, hsections, h⟩
    exact layouts_eq_ok_of_plain hsections h fun _ hp => by cases hp

theorem layouts_ne_ok_of_plainStorage {former updated : Layout} (ho : former.namespaces = [])
    (hu : updated.namespaces = []) (h : (plainStorage leniency former updated).isNone = true)
    (outcome : Outcome) : layouts leniency former updated ≠ .ok outcome := by
  intro hok
  rw [(layouts_iff_plainStorage ho hu).mp ⟨outcome, hok, rfl⟩] at h
  cases h

/-- Whether an upgrade without namespaces is good, checked by plain recursion. -/
theorem exists_outcome_of_plainStorage {former updated : Layout} {good : Bool}
    (ho : former.namespaces = []) (hu : updated.namespaces = [])
    (h : (plainStorage leniency former updated).map (fun ops => (Report.mk ops).ok) = some good) :
    ∃ outcome, layouts leniency former updated = .ok outcome ∧
      (Report.mk outcome.operations).ok = good := by
  obtain ⟨ops, hops, hok⟩ := Option.map_eq_some_iff.mp h
  obtain ⟨outcome, houtcome, rfl⟩ := (layouts_iff_plainStorage ho hu).mpr hops
  exact ⟨outcome, houtcome, hok⟩

/-- What can be checked of two layouts without namespaces and of what they are resolved to. -/
theorem exists_sections_of_any (former updated : Layout) (P : Resolved → Resolved → Prop)
    [∀ os us, Decidable (P os us)] (ho : former.namespaces = []) (hu : updated.namespaces = [])
    (h : (former.resolveStorage.toOption.any fun os =>
      updated.resolveStorage.toOption.any fun us => decide (P os us)) = true) :
    ∃ os us, Sections former updated os us [] [] ∧ P os us := by
  obtain ⟨os, hos, h⟩ := (Option.any_eq_true _ _).mp h
  obtain ⟨us, hus, h⟩ := (Option.any_eq_true _ _).mp h
  exact ⟨os, us, ⟨eq_ok_of_toOption hos, eq_ok_of_toOption hus, resolveNamespaces_nil ho,
    resolveNamespaces_nil hu⟩, of_decide_eq_true h⟩

/-- The type of an address. -/
def addressType : TypeNode where
  id := "t_address"
  head := "t_address"
  label := "address"
  numberOfBytes := some 20

/-- An address at the start of a slot. -/
def address (label : String) (slot : Int) : Variable where
  item := { label, type := "t_address", slot := some slot, offset := some 0 }
  type := addressType

/-- The layout that stores addresses. -/
def addressLayout (addresses : List Variable) : Layout where
  layoutVersion := some Layout.currentVersion
  storage := addresses.map (·.item)
  types := [("t_address", { label := "address", numberOfBytes := some 20 })]

/-- What the layout that stores addresses is resolved to. -/
def addressStorage (addresses : List Variable) : Resolved :=
  ⟨[("t_address", addressType)], addresses.map (·.item)⟩

/-- A word in a slot. -/
def word (label : String) (slot : Int) : Item := { label, type := "t_uint256", slot := some slot }

/-- A gap that begins with a slot. -/
def gap (words : Nat) (slot : Int) : Item where
  label := "__gap"
  type := s!"t_array(t_uint256){words}_storage"
  slot := some slot

/-- The type of a word. -/
def wordType : TypeNode where
  id := "t_uint256"
  head := "t_uint256"
  label := "uint256"
  numberOfBytes := some 32

/-- The type of a gap, of so many bytes. -/
def gapType (words : Nat) (bytes : Int) : TypeNode where
  id := s!"t_array(t_uint256){words}_storage"
  head := "t_array"
  tail := some s!"{words}_storage"
  label := s!"uint256[{words}]"
  numberOfBytes := some bytes
  args := some ["t_uint256"]

/-- The layout that stores words and gaps of at most two words. -/
def wordLayout (storage : List Item) : Layout where
  layoutVersion := some Layout.currentVersion
  storage := storage
  types :=
    [("t_uint256", { label := "uint256", numberOfBytes := some 32 }),
      ("t_array(t_uint256)1_storage", { label := "uint256[1]", numberOfBytes := some 32 }),
      ("t_array(t_uint256)2_storage", { label := "uint256[2]", numberOfBytes := some 64 })]

end Compare

end UpgradeSafety
