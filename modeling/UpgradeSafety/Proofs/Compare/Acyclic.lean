import UpgradeSafety.Proofs.Compare.Sections
import UpgradeSafety.Proofs.Compare.Total
import Mathlib.Data.Set.Finite.Basic

/-!
# Types that do not contain themselves

A comparison of two lists looks at the types that the former one reaches: those of its items, their
arguments and the types of their members (`Reaches`). When none of them contains itself
(`Acyclic`), what holds of a type as soon as it holds of the types inside it, holds of all of them
(`Acyclic.induction`): a finite relation without cycles is well founded, and only finitely many
types are reached. So the comparison goes down only finitely often, whatever the updated types are.

* `plainChange_total`: it finds something, if the types are well formed and their numbers can be
  read.
* `plainChange_self`: it finds nothing for a type that is compared with itself.
* `plainSection_self`: a list that is compared with itself has no operations.

The conditions are collected once, for one list (`Regular`, `Measured`) and for a list that keeps
the items of another one (`Keeps`), since several results on layouts ask for the same ones.
-/

namespace UpgradeSafety

/-! ## Reached types -/

/-- A type and a type inside it, by their ids. -/
def TypeGraph.HasInside (g : TypeGraph) (i j : String) : Prop := j ∈ (g.node i).inside

namespace Resolved

/-- The types that a comparison of a list can look at. -/
def Reaches (r : Resolved) (i : String) : Prop :=
  ∃ m ∈ r.items, Relation.ReflTransGen r.graph.HasInside m.type i

variable {r : Resolved} {i j : String}

theorem reaches_item {m : Item} (hm : m ∈ r.items) : r.Reaches m.type := ⟨m, hm, .refl⟩

theorem Reaches.inside (h : r.Reaches i) (hj : j ∈ (r.graph.node i).inside) : r.Reaches j := by
  obtain ⟨m, hm, hpath⟩ := h
  exact ⟨m, hm, hpath.tail hj⟩

/-- No type that the list reaches contains itself. -/
def Acyclic (r : Resolved) : Prop :=
  ∀ i, r.Reaches i → ¬ Relation.TransGen r.graph.HasInside i i

/-- The graph of a list holds all types that the list reaches. -/
theorem Joined.lookup_ne_none {types : TypeTable} (h : r.Joined types) (hi : r.Reaches i) :
    r.graph.lookup i ≠ none := by
  obtain ⟨m, hm, hpath⟩ := hi
  induction hpath with
  | refl => exact h.items m hm
  | @tail j k _ hk ih =>
    obtain ⟨n, hn⟩ := Option.ne_none_iff_exists'.mp ih
    rw [TypeGraph.HasInside, TypeGraph.node_of_lookup hn] at hk
    exact h.graph.inside j n hn k hk

theorem finite_reaches {types : TypeTable} (h : r.Joined types) : Finite { i // r.Reaches i } := by
  refine Set.Finite.to_subtype (s := { i | r.Reaches i })
    ((List.finite_toSet (r.graph.map Prod.fst)).subset fun i hi => ?_)
  obtain ⟨n, hn⟩ := Option.ne_none_iff_exists'.mp (h.lookup_ne_none hi)
  exact List.mem_map.mpr ⟨(i, n), Compare.mem_of_lookup hn, rfl⟩

/-- What holds of a type when it holds of the types inside it, holds of all types that a list
reaches, since none of them contains itself. -/
theorem Acyclic.induction {types : TypeTable} (h : r.Acyclic) (hr : r.Joined types)
    {P : String → Prop}
    (step : ∀ i, r.Reaches i → (∀ j ∈ (r.graph.node i).inside, P j) → P i) :
    ∀ i, r.Reaches i → P i := by
  let Contains (b a : { i // r.Reaches i }) : Prop := Relation.TransGen r.graph.HasInside a.1 b.1
  have hfinite := finite_reaches hr
  have htrans : IsTrans _ Contains := ⟨fun _ _ _ hab hbc => hbc.trans hab⟩
  have hirrefl : Std.Irrefl Contains := ⟨fun a ha => h a.1 a.2 ha⟩
  have hwf : WellFounded Contains := Finite.wellFounded_of_trans_of_irrefl Contains
  have hall : ∀ a : { i // r.Reaches i }, P a.1 := fun a =>
    hwf.induction (C := fun a => P a.1) a fun a ih =>
      step a.1 a.2 fun j hj => ih ⟨j, a.2.inside hj⟩ (.single hj)
  exact fun i hi => hall ⟨i, hi⟩

end Resolved

/-! ## Lists that can be compared -/

namespace Resolved

/-- The types that a list reaches are well formed. -/
def WellFormed (r : Resolved) : Prop := ∀ i, r.Reaches i → (r.graph.node i).WellFormed

/-- The numbers in the ids of the types that a list reaches can be read, and their gaps are
measured. -/
structure Measured (r : Resolved) : Prop where
  readable : ∀ i, r.Reaches i → (r.graph.node i).Readable
  gaps : ∀ i, r.Reaches i → r.graph.GapsMeasured (r.graph.node i)

/-- The numbers in the ids of the types that two lists reach can be read, and where structs of both have
gaps among their members, these are measured. -/
structure MeasuredWith (former updated : Resolved) : Prop where
  readable : ∀ i, former.Reaches i → (former.graph.node i).Readable
  readable' : ∀ j, updated.Reaches j → (updated.graph.node j).Readable
  gaps : ∀ i, former.Reaches i → ∀ j, updated.Reaches j →
    former.graph.MembersMeasuredWith updated.graph (former.graph.node i) (updated.graph.node j)

theorem Measured.measuredWith {former updated : Resolved} (ho : former.Measured)
    (hu : updated.Measured) : former.MeasuredWith updated :=
  ⟨ho.readable, hu.readable, fun i hi j hj => (ho.gaps i hi).membersMeasuredWith (hu.gaps j hj)⟩

/-- The types that a list reaches are complete and none contains itself, and neither an item nor a
member declares a former name. -/
structure Regular (r : Resolved) : Prop where
  acyclic : r.Acyclic
  complete : ∀ i, r.Reaches i → (r.graph.node i).IsComplete
  names : ∀ m ∈ r.items, m.renamedFrom = none
  memberNames : ∀ i, r.Reaches i → (r.graph.node i).kind = .struct →
    ∀ m ∈ (r.graph.node i).memberItems, m.renamedFrom = none

theorem Regular.wellFormed {r : Resolved} (h : r.Regular) : r.WellFormed :=
  fun i hi => (h.complete i hi).toWellFormed

/-- The updated list holds the former items, with the same types. -/
structure Keeps (updated former : Resolved) : Prop where
  items : ∀ m ∈ former.items, m ∈ updated.items
  node : ∀ i, former.Reaches i → updated.graph.node i = former.graph.node i

theorem Keeps.reaches {former updated : Resolved} (h : updated.Keeps former) {i : String}
    (hi : former.Reaches i) : updated.Reaches i := by
  obtain ⟨m, hm, hpath⟩ := hi
  induction hpath with
  | refl => exact reaches_item (h.items m hm)
  | @tail j k hj hk ih =>
    refine ih.inside ?_
    rw [h.node j ⟨m, hm, hj⟩]
    exact hk

/-- A list that holds the former items has their types when the tables agree on what they reach. -/
theorem keeps_of_agree {former updated : Resolved} {types types' : TypeTable}
    (ho : former.Joined types) (hu : updated.Joined types')
    (hitems : ∀ m ∈ former.items, m ∈ updated.items)
    (hagree : ∀ i, former.Reaches i → types'.lookup i = types.lookup i) :
    updated.Keeps former := by
  have hnode {i : String} (hi : former.Reaches i) (hlookup : updated.graph.lookup i ≠ none) :
      updated.graph.node i = former.graph.node i := by
    obtain ⟨n, hn⟩ := Option.ne_none_iff_exists'.mp (ho.lookup_ne_none hi)
    obtain ⟨n', hn'⟩ := Option.ne_none_iff_exists'.mp hlookup
    obtain ⟨t, ht, rfl⟩ := hu.graph.joins i n' hn'
    rw [TypeGraph.node_of_lookup hn, TypeGraph.node_of_lookup hn', hagree i hi]
    exact TypeNode.Joins.unique ⟨t, ht, rfl⟩ (ho.graph.joins i n hn)
  refine ⟨hitems, fun i hi => hnode hi ?_⟩
  obtain ⟨m, hm, hpath⟩ := hi
  induction hpath with
  | refl => exact hu.items m (hitems m hm)
  | @tail j k hj hk ih =>
    obtain ⟨n, hn⟩ := Option.ne_none_iff_exists'.mp ih
    refine hu.graph.inside j n hn k ?_
    rw [TypeGraph.HasInside, ← hnode ⟨m, hm, hj⟩ ih, TypeGraph.node_of_lookup hn] at hk
    exact hk

theorem Keeps.measured {former updated : Resolved} (h : updated.Keeps former)
    (hu : updated.Measured) : former.Measured where
  readable i hi := by
    rw [← h.node i hi]
    exact hu.readable i (h.reaches hi)
  gaps i hi hkind m hm := by
    have hgaps := hu.gaps i (h.reaches hi)
    rw [h.node i hi] at hgaps
    have hmem : m.type ∈ (former.graph.node i).inside := by
      rw [Compare.inside_eq_of_struct hkind]
      exact List.mem_map_of_mem hm
    have hvariable : updated.graph.variable m = former.graph.variable m := by
      rw [TypeGraph.variable, TypeGraph.variable, h.node _ (hi.inside hmem)]
    have := hgaps hkind m hm
    rwa [hvariable] at this

theorem Keeps.wellFormed {former updated : Resolved} (h : updated.Keeps former)
    (hu : updated.WellFormed) : former.WellFormed := fun i hi => by
  rw [← h.node i hi]
  exact hu i (h.reaches hi)

/-- A list of the same items keeps and is kept. -/
theorem Keeps.symm {former updated : Resolved} (h : updated.Keeps former)
    (hitems : ∀ m ∈ updated.items, m ∈ former.items) : former.Keeps updated := by
  have hreaches {i : String} (hi : updated.Reaches i) : former.Reaches i := by
    obtain ⟨m, hm, hpath⟩ := hi
    induction hpath with
    | refl => exact reaches_item (hitems m hm)
    | @tail j k _ hk ih =>
      refine ih.inside ?_
      rw [← h.node j ih]
      exact hk
  exact ⟨hitems, fun i hi => (h.node i (hreaches hi)).symm⟩

/-- The former items have the same variables. -/
theorem Keeps.variable_eq {former updated : Resolved} (h : updated.Keeps former) {m : Item}
    (hm : m ∈ former.items) : updated.graph.variable m = former.graph.variable m := by
  rw [TypeGraph.variable, TypeGraph.variable, h.node _ (reaches_item hm)]

theorem Measured.readable_of_mem {r : Resolved} (h : r.Measured) :
    ∀ v ∈ r.vars, v.type.Readable :=
  List.forall_mem_map.mpr fun m hm => h.readable m.type (reaches_item hm)

end Resolved

namespace Compare

variable {leniency : Leniency} {former updated : Resolved} {types : TypeTable}

/-- Comparing with types that do not contain themselves finds something. -/
theorem plainChange_total (leniency : Leniency) (hjoined : former.Joined types) (hacyclic : former.Acyclic)
    (ho : former.WellFormed) (hu : updated.WellFormed) (hm : former.MeasuredWith updated) :
    ∀ i, former.Reaches i → ∀ j, updated.Reaches j → ∀ a,
      ∃ r, plainChange leniency former.graph updated.graph
        (pairBound former.graph updated.graph) (former.graph.node i) (updated.graph.node j) a =
          .ok r := by
  refine hacyclic.induction hjoined fun i hi ih j hj a => ?_
  obtain ⟨r, hr⟩ : ∃ r, plainChange leniency former.graph updated.graph
      (pairBound former.graph updated.graph + 1) (former.graph.node i) (updated.graph.node j) a =
        .ok r :=
    typeChangeWith_total (fun k hk => hm.readable k (hi.inside hk))
      (fun l hl => hm.readable' l (hj.inside hl))
      (fun k hk l hl a => ih k hk l (hj.inside hl) a) (ho i hi) (hu j hj) (hm.readable i hi)
      (hm.readable' j hj) (hm.gaps i hi j hj) a
  exact ⟨r, plainChange_pairBound hr⟩

/-- A type does not differ from itself. -/
theorem plainChange_self (hjoined : former.Joined types) (hregular : former.Regular)
    (hkeeps : updated.Keeps former) (hu : updated.WellFormed) (hm : former.MeasuredWith updated) :
    ∀ i, former.Reaches i → ∀ a,
      plainChange leniency former.graph updated.graph (pairBound former.graph updated.graph)
        (former.graph.node i) (former.graph.node i) a = .ok none := by
  refine hregular.acyclic.induction hjoined fun i hi ih a => ?_
  have hdeep : plainChange leniency former.graph updated.graph
      (pairBound former.graph updated.graph + 1) (former.graph.node i) (updated.graph.node i) a =
        .ok none := by
    rw [hkeeps.node i hi]
    refine typeChangeWith_self (fun k hk => hkeeps.node k (hi.inside hk))
      (fun k hk => hm.readable k (hi.inside hk)) (fun k hk l hl a => ?_) ih
      (hregular.complete i hi) (hm.readable i hi) (hregular.memberNames i hi) a
    have := plainChange_total leniency hjoined hregular.acyclic hregular.wellFormed hu hm k
      (hi.inside hk) l (hkeeps.reaches (hi.inside hl)) a
    rwa [hkeeps.node l (hi.inside hl)] at this
  have hbound := plainChange_pairBound hdeep
  rwa [hkeeps.node i hi] at hbound

/-- A list that is compared with itself has no operations. -/
theorem plainSection_self (hjoined : former.Joined types) (hregular : former.Regular)
    (hkeeps : updated.Keeps former) (hitems : updated.items = former.items)
    (hum : updated.Measured) : plainSection leniency former updated = .ok [] := by
  have hkeeps' := hkeeps.symm (hitems ▸ fun _ hm => hm)
  have hom := hkeeps.measured hum
  have hu := hkeeps'.wellFormed hregular.wellFormed
  have hvars : updated.vars = former.vars := by
    rw [Resolved.vars, Resolved.vars, hitems]
    exact List.map_congr_left fun m hm => hkeeps.variable_eq hm
  rw [plainSection, hvars]
  refine listChanges_self hom.readable_of_mem (List.forall_mem_map.mpr hregular.names) ?_ ?_
  · refine List.forall_mem_map.mpr fun m hm => List.forall_mem_map.mpr fun k hk a => ?_
    obtain ⟨r, hr⟩ := plainChange_total leniency hjoined hregular.acyclic
      hregular.wellFormed hu (hom.measuredWith hum) _ (Resolved.reaches_item hm) _
      (hkeeps.reaches (Resolved.reaches_item hk)) a
    rw [hkeeps.node _ (Resolved.reaches_item hk)] at hr
    exact ⟨r, hr⟩
  · exact List.forall_mem_map.mpr fun m hm a =>
      plainChange_self hjoined hregular hkeeps hu (hom.measuredWith hum) _ (Resolved.reaches_item hm) a

end Compare

end UpgradeSafety
