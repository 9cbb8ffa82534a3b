import UpgradeSafety.Proofs.Compare.Sections

/-!
# Sections compared alone

Storage and namespaces are compared one after the other with one memory. A section that is compared
with a memory of its own has the same operations, and so it has when nothing is remembered at all
(`aloneSection_toOption`). Nothing of the updated layout matters but its storage and the namespaces
whose ids the former layout has: `Restates` tells when two updated layouts agree on those.

What is in the way is that a graph of types is built from all items of a section, in the order in
which they come, so that the same list may be resolved in two graphs. Lists with the same items,
whose graphs agree on the types of these, are alike (`Resolved.Alike`), and a comparison with one
is run beside a comparison with the other by a transfer from a monad to itself.

* `layouts_section_by_section`: the operations of two layouts are those of their sections, each
  compared alone; the comparison stops when one of these does; namespaces of the updated layout
  that are moved or added change nothing.
-/

namespace UpgradeSafety

/-! ## The same items in two graphs -/

/-- Two lists have the same items, of the same types, in graphs that may differ elsewhere. -/
structure Resolved.Alike (r r' : Resolved) : Prop where
  keyed : r.graph.Keyed ∧ r'.graph.Keyed
  items : r'.items = r.items
  agree : r.graph.AgreeOn (fun i => r.graph.lookup i ≠ none ∧ r'.graph.lookup i ≠ none) r'.graph
  held : ∀ i ∈ r.items, r.graph.lookup i.type ≠ none ∧ r'.graph.lookup i.type ≠ none

/-- Lists of the same items are alike when their types are joined from tables with the same entries
for the types of one of them. -/
theorem Resolved.Joined.alike {types types' : TypeTable} {r r' : Resolved} (h : r.Joined types)
    (h' : r'.Joined types') (hitems : r'.items = r.items)
    (htypes : ∀ i, r.graph.lookup i ≠ none → types'.lookup i = types.lookup i) : r.Alike r' where
  keyed := ⟨h.graph.keyed, h'.graph.keyed⟩
  items := hitems
  agree := by
    have hnode {i : String} (hi : r.graph.lookup i ≠ none ∧ r'.graph.lookup i ≠ none) :
        r.graph.node i = r'.graph.node i := by
      obtain ⟨n, hn⟩ := Option.ne_none_iff_exists'.mp hi.1
      obtain ⟨n', hn'⟩ := Option.ne_none_iff_exists'.mp hi.2
      obtain ⟨t, ht, rfl⟩ := h.graph.joins i n hn
      obtain ⟨t', ht', rfl⟩ := h'.graph.joins i n' hn'
      rw [ht] at ht'
      cases ht'
      rw [TypeGraph.node_of_lookup hn, TypeGraph.node_of_lookup hn', htypes i hi.1]
    refine ⟨fun i => hnode, fun i hi j hj => ?_⟩
    obtain ⟨n, hn⟩ := Option.ne_none_iff_exists'.mp hi.1
    obtain ⟨n', hn'⟩ := Option.ne_none_iff_exists'.mp hi.2
    have heq := hnode hi
    rw [TypeGraph.node_of_lookup hn, TypeGraph.node_of_lookup hn'] at heq
    rw [TypeGraph.node_of_lookup hn] at hj
    exact ⟨h.graph.inside i n hn j hj, h'.graph.inside i n' hn' j (heq ▸ hj)⟩
  held i hi := ⟨h.items i hi, h'.items i (hitems ▸ hi)⟩

theorem Resolved.Alike.symm {r r' : Resolved} (h : r.Alike r') : r'.Alike r where
  keyed := h.keyed.symm
  items := h.items.symm
  agree := ⟨fun i hi => (h.agree.node i hi.symm).symm,
    fun i hi j hj => (h.agree.inside i hi.symm j (h.agree.node i hi.symm ▸ hj)).symm⟩
  held i hi := (h.held i (h.items ▸ hi)).symm

theorem Resolved.Alike.vars_eq {r r' : Resolved} (h : r.Alike r') : r'.vars = r.vars := by
  rw [Resolved.vars, Resolved.vars, h.items]
  refine List.map_congr_left fun i hi => ?_
  rw [TypeGraph.variable, TypeGraph.variable, h.agree.node _ (h.held i hi)]

namespace Compare

variable {leniency : Leniency}

/-! ## A memory of one's own -/

/-- The operations of a section that is compared with a memory of its own. -/
def aloneSection (leniency : Leniency) (former updated : Resolved) :
    Except Obstacle (List Operation) :=
  ((sectionChanges leniency former updated).run.run {}).1

/-- The operations of a namespace that is compared with a memory of its own. -/
def aloneNamespace (leniency : Leniency) (updated : List (String × Resolved))
    (former : String × Resolved) : Except Obstacle (List Operation) :=
  match updated.lookup former.1 with
  | none => .ok [⟨.deleteNamespace former.1 former.2.vars.head?, false, some former.1⟩]
  | some found =>
    (aloneSection leniency former.2 found).map
      fun ops => ops.map fun op => { op with namespaceId := some former.1 }

theorem toOption_eq_of_iff {ε ε' α : Type} {x : Except ε α} {y : Except ε' α}
    (h : ∀ a, x = .ok a ↔ y = .ok a) : x.toOption = y.toOption := by
  cases x with
  | ok a => rw [(h a).mp rfl]; rfl
  | error e =>
    cases y with
    | ok b => cases (h b).mpr rfl
    | error e' => rfl

section Alone

variable {former updated : Resolved} (ho : former.graph.Keyed) (hu : updated.graph.Keyed)
include ho hu

theorem aloneSection_eq_ok_iff {ops : List Operation} :
    aloneSection leniency former updated = .ok ops ↔
      freshSection leniency former updated = .ok ops := by
  constructor
  · intro h
    cases hrun : (sectionChanges leniency former updated).run.run {} with
    | mk x memory' =>
      rw [aloneSection, hrun] at h
      cases h
      exact (run_listChanges ho hu (.refl _) (.refl _) (fun _ _ => trivial) (fun _ _ => trivial)
        Memory.sound_empty hrun).2
  · intro h
    have hI : Memory.Sound leniency former.graph updated.graph {} := Memory.sound_empty
    obtain ⟨memory', hrun, -⟩ := run_listChanges_of_plain ho hu (.refl _) (.refl _)
      (fun _ _ => trivial) (fun _ _ => trivial) ((listChanges_fresh_iff ho hu).mp h) hI
    exact congrArg Prod.fst hrun

/-- A section has the operations that it has when nothing is remembered. -/
theorem aloneSection_toOption :
    (aloneSection leniency former updated).toOption =
      (plainSection leniency former updated).toOption :=
  toOption_eq_of_iff fun _ => (aloneSection_eq_ok_iff ho hu).trans (listChanges_fresh_iff ho hu)

end Alone

theorem aloneNamespace_eq_ok_iff {un : List (String × Resolved)} {p : String × Resolved}
    (ho : p.2.graph.Keyed) (hu : ∀ q ∈ un, q.2.graph.Keyed) {ops : List Operation} :
    aloneNamespace leniency un p = .ok ops ↔ freshNamespace leniency un p = .ok ops := by
  rw [aloneNamespace, freshNamespace]
  cases hfound : un.lookup p.1 with
  | none => rfl
  | some found =>
    simp only [map_eq_ok_iff, aloneSection_eq_ok_iff ho (hu (p.1, found) (mem_of_lookup hfound))]

section Layouts

variable {former updated : Layout} {os us : Resolved} {on un : List (String × Resolved)}

theorem Sections.unique {os' us' : Resolved} {on' un' : List (String × Resolved)}
    (h : Sections former updated os us on un) (h' : Sections former updated os' us' on' un') :
    os' = os ∧ us' = us ∧ on' = on ∧ un' = un := by
  have hos := h'.os.symm.trans h.os
  have hus := h'.us.symm.trans h.us
  have hon := h'.on.symm.trans h.on
  have hun := h'.un.symm.trans h.un
  cases hos
  cases hus
  cases hon
  cases hun
  exact ⟨rfl, rfl, rfl, rfl⟩

/-- The operations of two layouts are those of their sections. -/
theorem layouts_eq_ok_iff_alone (h : Sections former updated os us on un)
    {ops : List Operation} :
    (∃ outcome, layouts leniency former updated = .ok outcome ∧ outcome.operations = ops) ↔
      ∃ storage parts, aloneSection leniency os us = .ok storage ∧
        List.Forall₂ (fun p part => aloneNamespace leniency un p = .ok part) on parts ∧
        ops = storage ++ parts.flatten := by
  obtain ⟨og, hog, hogs⟩ := exists_within h.os h.on
  obtain ⟨ug, hug, hugs⟩ := exists_within h.us h.un
  have hpart (p : String × Resolved) (hp : p ∈ on) (part : List Operation) :
      aloneNamespace leniency un p = .ok part ↔ freshNamespace leniency un p = .ok part :=
    aloneNamespace_eq_ok_iff (hogs p hp).keyed fun q hq => (hugs q hq).keyed
  constructor
  · rintro ⟨outcome, houtcome, rfl⟩
    obtain ⟨os', us', on', un', h', storage, parts, hstorage, hparts, hops⟩ :=
      layouts_eq_ok houtcome
    obtain ⟨rfl, rfl, rfl, rfl⟩ := h.unique h'
    refine ⟨storage, parts, (aloneSection_eq_ok_iff hog.keyed hug.keyed).mpr hstorage, ?_, hops⟩
    exact ((List.forall₂_and_left _ _).mpr ⟨hpart, hparts⟩).imp fun p part h => (h.1 part).mpr h.2
  · rintro ⟨storage, parts, hstorage, hparts, rfl⟩
    exact layouts_eq_ok_of_fresh h ((aloneSection_eq_ok_iff hog.keyed hug.keyed).mp hstorage)
      (((List.forall₂_and_left _ _).mpr ⟨hpart, hparts⟩).imp fun p part h => (h.1 part).mp h.2)

/-- The comparison of two layouts stops when that of a section does. -/
theorem layouts_eq_error_iff_alone (h : Sections former updated os us on un) :
    (∃ e, layouts leniency former updated = .error e) ↔
      (∃ e, aloneSection leniency os us = .error e) ∨
        ∃ p ∈ on, ∃ e, aloneNamespace leniency un p = .error e := by
  have herror {ε α : Type} {x : Except ε α} : (∃ e, x = .error e) ↔ ¬ ∃ a, x = .ok a := by
    cases x <;> simp
  simp only [herror]
  constructor
  · intro hnone
    by_contra hall
    rw [not_or, not_not, not_exists] at hall
    obtain ⟨⟨storage, hstorage⟩, hall⟩ := hall
    obtain ⟨parts, hparts⟩ := exists_forall₂ (R := fun p part =>
      aloneNamespace leniency un p = .ok part) fun p hp => not_not.mp fun h => hall p ⟨hp, h⟩
    obtain ⟨outcome, houtcome, -⟩ :=
      (layouts_eq_ok_iff_alone h).mpr ⟨storage, parts, hstorage, hparts, rfl⟩
    exact hnone ⟨outcome, houtcome⟩
  · rintro hsome ⟨outcome, houtcome⟩
    obtain ⟨storage, parts, hstorage, hparts, -⟩ :=
      (layouts_eq_ok_iff_alone h).mp ⟨outcome, houtcome, rfl⟩
    rcases hsome with hsome | ⟨p, hp, hsome⟩
    · exact hsome ⟨storage, hstorage⟩
    · obtain ⟨k, hk⟩ := List.mem_iff_getElem?.mp hp
      obtain ⟨part, -, hpart⟩ := getElem?_of_forall₂ hparts hk
      exact hsome ⟨part, hpart⟩

end Layouts

/-! ## What does not matter of the updated layout -/

/-- What one comparison finds, the other finds as well, and both remember the same. -/
def Transfer.same : Transfer Comparison Comparison where
  rel x y := ∀ memory a memory', x.run.run memory = (.ok a, memory') →
    y.run.run memory = (.ok a, memory')
  pure _ _ _ _ h := h
  throw _ _ _ _ h := by cases h
  bind {α β x y f g} hxy hfg memory b memory' h := by
    obtain ⟨a, memory₁, hx, hf⟩ := run_bind_eq_ok h
    rw [run_bind, hxy memory a memory₁ hx]
    exact hfg a memory₁ b memory' hf

theorem typeChange_same {og ug ug' : TypeGraph} {D : String → Prop} (hu : ug.AgreeOn D ug')
    {fuel fuel' : Nat} (hfuel : fuel ≤ fuel') (openPairs : List PairKey) (o : TypeNode) {j : String}
    (hj : D j) (a : Bool) :
    Transfer.same.rel (typeChange leniency og ug fuel openPairs o (ug.node j) a)
      (typeChange leniency og ug' fuel' openPairs o (ug'.node j) a) := by
  induction fuel generalizing fuel' openPairs o j a with
  | zero =>
    intro memory r memory' h
    cases h
  | succ fuel ih =>
    obtain ⟨fuel', rfl⟩ : ∃ n, fuel' = n + 1 := ⟨fuel' - 1, by omega⟩
    intro memory r memory' h
    have hinside : Transfer.same.rel
        (typeChangeWith leniency noteUnchecked og ug
          (typeChange leniency og ug fuel ((o.id, (ug.node j).id, a) :: openPairs)) o (ug.node j) a)
        (typeChangeWith leniency noteUnchecked og ug'
          (typeChange leniency og ug' fuel' ((o.id, (ug.node j).id, a) :: openPairs)) o (ug.node j)
          a) := by
      refine Transfer.same.typeChangeWith (fun _ _ => rfl)
        (fun k hk => hu.node k (hu.inside j hj k hk)) (fun i _ k hk b => ?_) (fun _ _ _ h => h) a
      have hD := hu.inside j hj k hk
      have := ih (Nat.le_of_succ_le_succ hfuel) ((o.id, (ug.node j).id, a) :: openPairs)
        (og.node i) hD b
      rwa [← hu.node k hD] at this
    rw [run_typeChange_succ] at h
    rw [run_typeChange_succ, ← hu.node j hj]
    split at h
    · exact h
    · split at h
      · cases h
      · rename_i hopen
        rw [if_neg hopen]
        split at h
        · rename_i found memory₁ hrun
          rw [hinside memory found memory₁ hrun]
          exact h
        · cases h

section Runs

variable {former : Resolved} {og ug : TypeGraph} {memory memory' : Memory} {ops : List Operation}

theorem run_sectionChanges_of_le {updated updated' : Resolved} (h : updated.Alike updated')
    (hbound : pairBound former.graph updated.graph ≤ pairBound former.graph updated'.graph)
    (hrun : (sectionChanges leniency former updated).run.run memory = (.ok ops, memory')) :
    (sectionChanges leniency former updated').run.run memory = (.ok ops, memory') := by
  rw [sectionChanges, h.vars_eq]
  refine Transfer.same.listChanges _ true (fun v _ w hw a => ?_) memory ops memory' hrun
  obtain ⟨i, hi, rfl⟩ := List.mem_map.mp hw
  have hsame : Transfer.same.rel (typeChange leniency former.graph updated.graph _ [] v.type
      (updated.graph.node i.type) a) (typeChange leniency former.graph updated'.graph _ [] v.type
      (updated'.graph.node i.type) a) :=
    typeChange_same h.agree hbound [] v.type (h.held i hi) a
  rwa [← h.agree.node i.type (h.held i hi)] at hsame

/-- A section is compared with one of two alike lists as with the other. -/
theorem run_sectionChanges_alike {updated updated' : Resolved} (ho : former.Within og)
    (hu : updated.Within ug) (hI : memory.Sound leniency og ug) (h : updated.Alike updated')
    (hrun : (sectionChanges leniency former updated).run.run memory = (.ok ops, memory')) :
    (sectionChanges leniency former updated').run.run memory = (.ok ops, memory') := by
  rcases Nat.le_total (pairBound former.graph updated.graph)
    (pairBound former.graph updated'.graph) with hle | hle
  · exact run_sectionChanges_of_le h hle hrun
  · -- with the smaller bound the comparison is not stopped, and then it finds the same
    have hplain := (listChanges_fresh_iff ho.keyed hu.keyed).mp
      (run_sectionChanges ho hu hI hrun).2
    have hplain' : plainSection leniency former updated' = .ok ops := by
      rw [plainSection, h.vars_eq]
      refine Transfer.found.listChanges _ true (fun v hv w hw a r hr => ?_) ops hplain
      obtain ⟨i, -, rfl⟩ := List.mem_map.mp hv
      obtain ⟨j, hj, rfl⟩ := List.mem_map.mp hw
      have hcongr := plainChange_pairBound
        (plainChange_congr (.refl former.graph) h.agree trivial (h.held j hj) hr)
      rwa [← h.agree.node j.type (h.held j hj)] at hcongr
    have hagree : updated'.graph.AgreeOn
        (fun i => updated'.graph.lookup i ≠ none ∧ updated.graph.lookup i ≠ none) ug :=
      ⟨fun i hi => (h.symm.agree.node i hi).trans (hu.agree.node i hi.2), h.symm.agree.inside⟩
    obtain ⟨memory₁, hrun', -⟩ := run_listChanges_of_plain ho.keyed h.keyed.2 ho.agree hagree
      ho.items h.symm.held hplain' hI
    have hback := run_sectionChanges_of_le h.symm hle hrun'
    rw [hrun] at hback
    cases hback
    exact hrun'

/-- Namespaces are compared with alike ones as with each other. -/
theorem run_namespaceChanges_alike {updated updated' rest : List (String × Resolved)}
    (ho : ∀ p ∈ rest, p.2.Within og) (hu : ∀ id r, updated.lookup id = some r → r.Within ug)
    (hI : memory.Sound leniency og ug)
    (h : ∀ p ∈ rest, Option.Rel Resolved.Alike (updated.lookup p.1) (updated'.lookup p.1))
    (hrun : (namespaceChanges leniency updated rest).run.run memory = (.ok ops, memory')) :
    (namespaceChanges leniency updated' rest).run.run memory = (.ok ops, memory') := by
  induction rest generalizing memory ops with
  | nil => exact hrun
  | cons p rest ih =>
    obtain ⟨id, former⟩ := p
    have hlater {memory₁ : Memory} {later : List Operation} (hI : memory₁.Sound leniency og ug)
        (hrun : (namespaceChanges leniency updated rest).run.run memory₁ = (.ok later, memory')) :
        (namespaceChanges leniency updated' rest).run.run memory₁ = (.ok later, memory') :=
      ih (fun p hp => ho p (List.mem_cons_of_mem _ hp)) hI
        (fun p hp => h p (List.mem_cons_of_mem _ hp)) hrun
    have hhere : Option.Rel Resolved.Alike (updated.lookup id) (updated'.lookup id) :=
      h _ List.mem_cons_self
    rw [namespaceChanges] at hrun ⊢
    generalize hfound : updated.lookup id = found at hhere hrun
    generalize updated'.lookup id = found' at hhere
    cases hhere with
    | none =>
      obtain ⟨here, memory₁, hhere, hrun⟩ := run_bind_eq_ok hrun
      cases hhere
      obtain ⟨later, memory₂, hrest, hrun⟩ := run_bind_eq_ok hrun
      cases hrun
      change (namespaceChanges leniency updated' rest >>= _).run.run memory = _
      rw [run_bind, hlater hI hrest]
      rfl
    | some halike =>
      obtain ⟨here, memory₁, hsection, hrun⟩ := run_bind_eq_ok hrun
      obtain ⟨_, memory₂, hhere, hrun⟩ := run_bind_eq_ok hrun
      cases hhere
      obtain ⟨later, memory₃, hrest, hrun⟩ := run_bind_eq_ok hrun
      cases hrun
      have hwithin := ho _ List.mem_cons_self
      have hI' := (run_sectionChanges hwithin (hu id _ hfound) hI hsection).1
      dsimp only
      rw [run_bind, run_sectionChanges_alike hwithin (hu id _ hfound) hI halike hsection]
      change (namespaceChanges leniency updated' rest >>= _).run.run memory₁ = _
      rw [run_bind, hlater hI' hrest]
      rfl

end Runs

section Layouts

variable {former updated updated' : Layout} {os us us' : Resolved}
  {on un un' : List (String × Resolved)}

theorem layouts_of_sections (h : Sections former updated os us on un) :
    layouts leniency former updated =
      match (sectionsChanges leniency os us on un).run.run {} with
      | (.ok ops, memory) => .ok ⟨ops, memory.uncheckedCustomTypes⟩
      | (.error e, _) => .error e.failure := by
  rw [layouts, h.os, h.us, h.on, h.un]
  rfl

theorem layouts_alike (h : Sections former updated os us on un)
    (h' : Sections former updated' os us' on un') (hstorage : us.Alike us')
    (hnamespaces : ∀ p ∈ on, Option.Rel Resolved.Alike (un.lookup p.1) (un'.lookup p.1))
    {outcome : Outcome} (houtcome : layouts leniency former updated = .ok outcome) :
    layouts leniency former updated' = .ok outcome := by
  obtain ⟨og, hog, hogs⟩ := exists_within h.os h.on
  obtain ⟨ug, hug, hugs⟩ := exists_within h.us h.un
  rw [layouts_of_sections h] at houtcome
  split at houtcome
  · rename_i ops memory hrun
    cases houtcome
    obtain ⟨storage, memory₁, hfirst, hrun⟩ := run_bind_eq_ok hrun
    obtain ⟨namespaces, memory₂, hothers, hrun⟩ := run_bind_eq_ok hrun
    cases hrun
    have hI := (run_sectionChanges hog hug Memory.sound_empty hfirst).1
    have hfirst' := run_sectionChanges_alike hog hug Memory.sound_empty hstorage hfirst
    have hothers' := run_namespaceChanges_alike hogs
      (fun id r hr => hugs (id, r) (mem_of_lookup hr)) hI hnamespaces hothers
    have hall : (sectionsChanges leniency os us' on un').run.run {} =
        (.ok (storage ++ namespaces), memory) := by
      rw [sectionsChanges, run_bind, hfirst']
      change (namespaceChanges leniency un' on >>= _).run.run memory₁ = _
      rw [run_bind, hothers']
      rfl
    rw [layouts_of_sections h', hall]
  · cases houtcome

/-- The second updated layout has the storage of the first one and its namespaces of some ids, with
the same entries for the types that the first one is resolved to. It may have further namespaces,
and another order of them. -/
structure Restates (ids : List String) (updated updated' : Layout) (us : Resolved)
    (un : List (String × Resolved)) : Prop where
  storage : updated'.storage = updated.storage
  namespaces : ∀ id ∈ ids, updated'.namespaces.lookup id = updated.namespaces.lookup id
  types : ∀ i, us.graph.lookup i ≠ none → updated'.types.lookup i = updated.types.lookup i
  inner : ∀ p ∈ un, ∀ i, p.2.graph.lookup i ≠ none →
    updated'.types.lookup i = updated.types.lookup i

theorem lookup_map_snd {α β : Type} (f : α → β) (l : List (String × α)) (id : String) :
    (l.map fun p => (p.1, f p.2)).lookup id = (l.lookup id).map f := by
  induction l with
  | nil => rfl
  | cons p l ih =>
    rw [List.map_cons, List.lookup_cons, List.lookup_cons]
    split
    · rfl
    · exact ih

theorem Restates.alike (h : Sections former updated os us on un)
    (h' : Sections former updated' os us' on un')
    (hrestates : Restates (former.namespaces.map Prod.fst) updated updated' us un) :
    us.Alike us' ∧ ∀ p ∈ on, Option.Rel Resolved.Alike (un.lookup p.1) (un'.lookup p.1) := by
  obtain ⟨hitems, hjoined⟩ := Layout.resolveStorage_joined h.us
  obtain ⟨hitems', hjoined'⟩ := Layout.resolveStorage_joined h'.us
  refine ⟨hjoined.alike hjoined' ?_ hrestates.types, fun p hp => ?_⟩
  · rw [hitems, hitems', hrestates.storage]
  · obtain ⟨f, -, rfl, -⟩ := Layout.resolveNamespaces_joined h.on
    obtain ⟨g, hg, rfl, hheld⟩ := Layout.resolveNamespaces_joined h.un
    obtain ⟨g', hg', rfl, hheld'⟩ := Layout.resolveNamespaces_joined h'.un
    obtain ⟨q, hq, rfl⟩ := List.mem_map.mp hp
    dsimp only
    rw [lookup_map_snd, lookup_map_snd, hrestates.namespaces q.1 (List.mem_map_of_mem hq)]
    cases hfound : updated.namespaces.lookup q.1 with
    | none => exact .none
    | some items =>
      have hmem := mem_of_lookup hfound
      have hmem' := mem_of_lookup ((hrestates.namespaces q.1 (List.mem_map_of_mem hq)).trans hfound)
      have hr : Resolved.Joined updated.types ⟨g, items⟩ := ⟨hg, hheld _ hmem⟩
      have hr' : Resolved.Joined updated'.types ⟨g', items⟩ := ⟨hg', hheld' _ hmem'⟩
      exact .some (hr.alike hr' rfl (hrestates.inner _ (List.mem_map_of_mem hmem)))

/-- Storage and namespaces are compared as if each were alone and nothing were remembered. -/
theorem layouts_section_by_section (h : Sections former updated os us on un) (leniency : Leniency) :
    (∀ ops, (∃ outcome, layouts leniency former updated = .ok outcome ∧ outcome.operations = ops) ↔
      ∃ storage parts, aloneSection leniency os us = .ok storage ∧
        List.Forall₂ (fun p part => aloneNamespace leniency un p = .ok part) on parts ∧
        ops = storage ++ parts.flatten) ∧
    ((∃ e, layouts leniency former updated = .error e) ↔
      (∃ e, aloneSection leniency os us = .error e) ∨
        ∃ p ∈ on, ∃ e, aloneNamespace leniency un p = .error e) ∧
    (aloneSection leniency os us).toOption = (plainSection leniency os us).toOption ∧
    (∀ p ∈ on, ∀ u, un.lookup p.1 = some u →
      (aloneSection leniency p.2 u).toOption = (plainSection leniency p.2 u).toOption) ∧
    ∀ updated' us' un', Sections former updated' os us' on un' →
      Restates (former.namespaces.map Prod.fst) updated updated' us un →
        (layouts leniency former updated').toOption =
          (layouts leniency former updated).toOption := by
  obtain ⟨og, hog, hogs⟩ := exists_within h.os h.on
  obtain ⟨ug, hug, hugs⟩ := exists_within h.us h.un
  refine ⟨fun ops => layouts_eq_ok_iff_alone h, layouts_eq_error_iff_alone h,
    aloneSection_toOption hog.keyed hug.keyed, fun p hp u hu => ?_,
    fun updated' us' un' h' hrestates => ?_⟩
  · exact aloneSection_toOption (hogs p hp).keyed (hugs (p.1, u) (mem_of_lookup hu)).keyed
  · obtain ⟨hstorage, hnamespaces⟩ := hrestates.alike h h'
    have hback (p : String × Resolved) (hp : p ∈ on) :
        Option.Rel Resolved.Alike (un'.lookup p.1) (un.lookup p.1) := by
      have := hnamespaces p hp
      generalize un.lookup p.1 = found at this ⊢
      generalize un'.lookup p.1 = found' at this ⊢
      cases this with
      | none => exact .none
      | some halike => exact .some halike.symm
    exact toOption_eq_of_iff fun outcome =>
      ⟨layouts_alike h' h hstorage.symm hback, layouts_alike h h' hstorage hnamespaces⟩

end Layouts

/-- An owner in the storage, and an admin in each of some namespaces. -/
def namespacedLayout (ids : List String) : Layout :=
  { addressLayout [address "owner" 0] with
    namespaces := ids.map fun id => (id, [(address "admin" 0).item]) }

theorem namespacedLayout_sections (ids ids' : List String)
    (h : (namespacedLayout ids).resolveNamespaces =
      .ok (ids.map fun id => (id, addressStorage [address "admin" 0])))
    (h' : (namespacedLayout ids').resolveNamespaces =
      .ok (ids'.map fun id => (id, addressStorage [address "admin" 0]))) :
    Sections (namespacedLayout ids) (namespacedLayout ids') (addressStorage [address "owner" 0])
      (addressStorage [address "owner" 0])
      (ids.map fun id => (id, addressStorage [address "admin" 0]))
      (ids'.map fun id => (id, addressStorage [address "admin" 0])) :=
  ⟨by with_unfolding_all rfl, by with_unfolding_all rfl, h, h'⟩

/-- One of two namespaces is deleted; another one that is added before the one that is kept changes
nothing. -/
theorem layouts_section_by_section_addresses :
    (∃ outcome, layouts {} (namespacedLayout ["main", "old"]) (namespacedLayout ["main"]) =
        .ok outcome ∧ outcome.operations =
          [⟨.deleteNamespace "old" (some (address "admin" 0)), false, some "old"⟩]) ∧
    (layouts {} (namespacedLayout ["main", "old"]) (namespacedLayout ["new", "main"])).toOption =
      (layouts {} (namespacedLayout ["main", "old"]) (namespacedLayout ["main"])).toOption := by
  have hsections := namespacedLayout_sections ["main", "old"] ["main"]
    (by with_unfolding_all rfl) (by with_unfolding_all rfl)
  have hsections' := namespacedLayout_sections ["main", "old"] ["new", "main"]
    (by with_unfolding_all rfl) (by with_unfolding_all rfl)
  obtain ⟨hok, -, hstorage, hnamespaces, hrestates⟩ := layouts_section_by_section hsections {}
  refine ⟨(hok _).mpr ⟨[],
    [[], [⟨.deleteNamespace "old" (some (address "admin" 0)), false, some "old"⟩]],
    eq_ok_of_toOption (hstorage.trans ?_), ?_, rfl⟩, ?_⟩
  · with_unfolding_all rfl
  · refine .cons ?_ (.cons rfl .nil)
    have hmain := hnamespaces ("main", addressStorage [address "admin" 0]) List.mem_cons_self
      (addressStorage [address "admin" 0]) rfl
    have halone : aloneSection {} (addressStorage [address "admin" 0])
        (addressStorage [address "admin" 0]) = .ok [] :=
      eq_ok_of_toOption (hmain.trans (by with_unfolding_all rfl))
    exact map_eq_ok_iff.mpr ⟨[], halone, rfl⟩
  · refine hrestates _ _ _ hsections' ⟨rfl, ?_, fun _ _ => rfl, fun _ _ _ _ => rfl⟩
    decide +kernel

end Compare

end UpgradeSafety
