import UpgradeSafety.Proofs.Compare.Transfer
import Mathlib.Data.Fintype.Card
import Mathlib.Data.Finset.Prod
import Mathlib.Order.Monotone.Basic

/-!
# Comparing types without memory

The comparison of two types by plain recursion, which remembers nothing and is stopped only where
its depth runs out. What it finds does not depend on the depth, as long as it finds something
(`plainChange_mono`), and it depends only on the part of the graphs that lies inside the two types
(`plainChange_congr`). This is the yardstick for comparisons with a memory, and what most results
on comparisons are first proved of: it is one recursive equation without a state.

* `plainChange_pairBound`: when any depth suffices, the bound on the number of open pairs does.

The bound is not obvious, since a pair may be compared again and again on different ways. With
every further level the set of pairs that are settled grows or stays as it is; once it stays it
stays for good (`settledKeys_stable`), and it cannot grow more often than there are pairs of types
in the two graphs.
-/

namespace UpgradeSafety.Compare

variable {leniency : Leniency}

/-- Compares two types, at most `depth` pairs being open at once. Nothing is remembered. -/
def plainChange (leniency : Leniency) (og ug : TypeGraph) : Nat → CompareTypes (Except Obstacle)
  | 0, _, u, _ => throw (.recursion u.label)
  | depth + 1, o, u, allowAppend =>
    typeChangeWith leniency (pure ()) og ug (plainChange leniency og ug depth) o u allowAppend

/-- What one computation finds, the other finds as well. -/
def Transfer.found : Transfer (Except Obstacle) (Except Obstacle) where
  rel x y := ∀ a, x = .ok a → y = .ok a
  pure _ _ h := h
  throw _ _ h := by cases h
  bind {α β x y f g} hxy hfg b hb := by
    cases hx : x with
    | error e => rw [hx] at hb; cases hb
    | ok a =>
      rw [hx] at hb
      rw [hxy a hx]
      exact hfg a b hb

/-! ## Depth -/

section Depth

variable {og ug : TypeGraph}

/-- A deeper comparison finds what comparisons of the types inside find. -/
theorem plainChange_succ_of_inside {d e : Nat} (h : ∀ i j a r,
      plainChange leniency og ug d (og.node i) (ug.node j) a = .ok r →
      plainChange leniency og ug e (og.node i) (ug.node j) a = .ok r)
    {o u : TypeNode} {a : Bool} {r : Option TypeChange}
    (hd : plainChange leniency og ug (d + 1) o u a = .ok r) :
    plainChange leniency og ug (e + 1) o u a = .ok r :=
  Transfer.found.typeChangeWith (fun _ _ => rfl) (fun _ _ => rfl)
    (fun i _ j _ a r => h i j a r) (fun _ h => h) a r hd

theorem plainChange_succ {d : Nat} {o u : TypeNode} {a : Bool} {r : Option TypeChange}
    (h : plainChange leniency og ug d o u a = .ok r) :
    plainChange leniency og ug (d + 1) o u a = .ok r := by
  induction d generalizing o u a r with
  | zero => cases h
  | succ d ih => exact plainChange_succ_of_inside (fun _ _ _ _ h => ih h) h

theorem plainChange_mono {d e : Nat} (hde : d ≤ e) {o u : TypeNode} {a : Bool}
    {r : Option TypeChange} (h : plainChange leniency og ug d o u a = .ok r) :
    plainChange leniency og ug e o u a = .ok r := by
  induction hde with
  | refl => exact h
  | step _ ih => exact plainChange_succ ih

theorem plainChange_unique {d e : Nat} {o u : TypeNode} {a : Bool} {r s : Option TypeChange}
    (hd : plainChange leniency og ug d o u a = .ok r)
    (he : plainChange leniency og ug e o u a = .ok s) : r = s := by
  have hr := plainChange_mono (Nat.le_max_left d e) hd
  have hs := plainChange_mono (Nat.le_max_right d e) he
  rw [hr] at hs
  exact Except.ok.inj hs

end Depth

/-! ## Graphs -/

end UpgradeSafety.Compare

namespace UpgradeSafety.TypeGraph

/-- Two graphs have the same types for the ids of a class, and the class holds the types inside its
own. -/
structure AgreeOn (C : String → Prop) (g g' : TypeGraph) : Prop where
  node : ∀ i, C i → g.node i = g'.node i
  inside : ∀ i, C i → ∀ j ∈ (g.node i).inside, C j

theorem AgreeOn.refl (g : TypeGraph) : AgreeOn (fun _ => True) g g :=
  ⟨fun _ _ => rfl, fun _ _ _ _ => trivial⟩

theorem AgreeOn.symm {C : String → Prop} {g g' : TypeGraph} (h : AgreeOn C g g') :
    AgreeOn C g' g :=
  ⟨fun i hi => (h.node i hi).symm, fun i hi j hj => h.inside i hi j (by rwa [h.node i hi])⟩

/-- Every type has the id under which the graph holds it. -/
def Keyed (g : TypeGraph) : Prop := ∀ i t, g.lookup i = some t → t.id = i

theorem Keyed.id_node {g : TypeGraph} (h : g.Keyed) (i : String) : (g.node i).id = i := by
  unfold TypeGraph.node
  cases hi : g.lookup i with
  | none => rfl
  | some t => exact h i t hi

end UpgradeSafety.TypeGraph

namespace UpgradeSafety.Compare

variable {leniency : Leniency}

/-- Comparisons over graphs that agree on a class of types find the same for types of the class. -/
theorem plainChange_congr {C D : String → Prop} {og ug og' ug' : TypeGraph}
    (ho : og.AgreeOn C og') (hu : ug.AgreeOn D ug') {depth : Nat} {i j : String} (hi : C i)
    (hj : D j) {a : Bool} {r : Option TypeChange}
    (h : plainChange leniency og ug depth (og.node i) (ug.node j) a = .ok r) :
    plainChange leniency og' ug' depth (og'.node i) (ug'.node j) a = .ok r := by
  induction depth generalizing i j a r with
  | zero => cases h
  | succ depth ih =>
    rw [← ho.node i hi, ← hu.node j hj]
    refine Transfer.found.typeChangeWith (fun k hk => ho.node k (ho.inside i hi k hk))
      (fun l hl => hu.node l (hu.inside j hj l hl)) (fun k hk l hl a r h => ?_) (fun _ h => h) a r h
    have hk' := ho.inside i hi k hk
    have hl' := hu.inside j hj l hl
    have := ih hk' hl' h
    rwa [← ho.node k hk', ← hu.node l hl'] at this

/-! ## A depth that suffices -/

section Bound

variable {og ug : TypeGraph}

/-- A type of which nothing but the id is known is compared without looking inside. -/
theorem plainChange_of_lookup_eq_none {i j : String} (h : og.lookup i = none ∨ ug.lookup j = none)
    (depth : Nat) (a : Bool) :
    ∃ r, plainChange leniency og ug (depth + 1) (og.node i) (ug.node j) a = .ok r := by
  have hargs : (og.node i).args = none ∨ (ug.node j).args = none := by
    rcases h with h | h
    · exact Or.inl (by simp [TypeGraph.node, h, TypeNode.bare])
    · exact Or.inr (by simp [TypeGraph.node, h, TypeNode.bare])
  rw [plainChange, typeChangeWith]
  split
  · exact ⟨_, rfl⟩
  · split
    · rename_i ho hu
      rcases hargs with h | h
      · rw [h] at ho; cases ho
      · rw [h] at hu; cases hu
    · exact ⟨_, rfl⟩
    · exact ⟨_, rfl⟩
    · exact ⟨_, rfl⟩

/-- The pairs of types of two graphs, with and without appending. -/
def pairKeys (og ug : TypeGraph) : Finset PairKey :=
  (og.map Prod.fst).toFinset ×ˢ (ug.map Prod.fst).toFinset ×ˢ Finset.univ

theorem card_pairKeys_lt (og ug : TypeGraph) : (pairKeys og ug).card < pairBound og ug := by
  have ho := List.toFinset_card_le (og.map Prod.fst)
  have hu := List.toFinset_card_le (ug.map Prod.fst)
  rw [List.length_map] at ho hu
  have hmul := Nat.mul_le_mul ho hu
  have hsucc := Nat.succ_mul_succ og.length ug.length
  rw [pairKeys, Finset.card_product, Finset.card_product, Finset.card_univ, Fintype.card_bool,
    pairBound, ← Nat.mul_assoc]
  simp only [Nat.succ_eq_add_one] at hsucc
  omega

theorem mem_pairKeys {i j : String} {a : Bool} (hi : og.lookup i ≠ none) (hj : ug.lookup j ≠ none) :
    (i, j, a) ∈ pairKeys og ug := by
  have hmem {g : TypeGraph} {k : String} (hk : g.lookup k ≠ none) : k ∈ g.map Prod.fst := by
    by_contra hnot
    exact hk (List.lookup_eq_none_iff.mpr fun p hp => by
      simpa using fun heq : k = p.1 => hnot (heq ▸ List.mem_map_of_mem hp))
  simp only [pairKeys, Finset.mem_product, List.mem_toFinset, Finset.mem_univ, and_true]
  exact ⟨hmem hi, hmem hj⟩

/-- The pairs for which a depth suffices. -/
def settledKeys (leniency : Leniency) (og ug : TypeGraph) (depth : Nat) : Finset PairKey :=
  (pairKeys og ug).filter fun k =>
    (plainChange leniency og ug depth (og.node k.1) (ug.node k.2.1) k.2.2).toBool

theorem mem_settledKeys {depth : Nat} {i j : String} {a : Bool} :
    (i, j, a) ∈ settledKeys leniency og ug depth ↔ (i, j, a) ∈ pairKeys og ug ∧
      ∃ r, plainChange leniency og ug depth (og.node i) (ug.node j) a = .ok r := by
  rw [settledKeys, Finset.mem_filter]
  cases plainChange leniency og ug depth (og.node i) (ug.node j) a <;> simp [Except.toBool]

theorem settledKeys_subset {d e : Nat} (hde : d ≤ e) :
    settledKeys leniency og ug d ⊆ settledKeys leniency og ug e := by
  rintro ⟨i, j, a⟩ h
  rw [mem_settledKeys] at h ⊢
  obtain ⟨hmem, r, hr⟩ := h
  exact ⟨hmem, r, plainChange_mono hde hr⟩

/-- When one more level settles no new pair, it finds nothing new. -/
theorem plainChange_of_settledKeys_eq {d : Nat}
    (heq : settledKeys leniency og ug (d + 1) = settledKeys leniency og ug (d + 2))
    {i j : String} {a : Bool} {r : Option TypeChange}
    (h : plainChange leniency og ug (d + 2) (og.node i) (ug.node j) a = .ok r) :
    plainChange leniency og ug (d + 1) (og.node i) (ug.node j) a = .ok r := by
  obtain ⟨s, hs⟩ : ∃ s, plainChange leniency og ug (d + 1) (og.node i) (ug.node j) a = .ok s := by
    by_cases hlookup : og.lookup i = none ∨ ug.lookup j = none
    · exact plainChange_of_lookup_eq_none hlookup d a
    · rw [not_or] at hlookup
      have hmem := mem_settledKeys.mpr ⟨mem_pairKeys hlookup.1 hlookup.2, r, h⟩
      rw [← heq] at hmem
      exact (mem_settledKeys.mp hmem).2
  rw [hs, plainChange_unique hs h]

theorem settledKeys_stable {d : Nat}
    (heq : settledKeys leniency og ug (d + 1) = settledKeys leniency og ug (d + 2)) :
    settledKeys leniency og ug (d + 2) = settledKeys leniency og ug (d + 3) := by
  refine Finset.Subset.antisymm (settledKeys_subset (by omega)) ?_
  rintro ⟨i, j, a⟩ h
  rw [mem_settledKeys] at h ⊢
  obtain ⟨hmem, r, hr⟩ := h
  exact ⟨hmem, r, plainChange_succ_of_inside
    (fun _ _ _ _ => plainChange_of_settledKeys_eq heq) hr⟩

theorem settledKeys_eq_of_le {d : Nat} (hd : (pairKeys og ug).card ≤ d) :
    settledKeys leniency og ug (d + 1) =
      settledKeys leniency og ug ((pairKeys og ug).card + 1) := by
  have hcard : (settledKeys leniency og ug (d + 1)).card =
      (settledKeys leniency og ug ((pairKeys og ug).card + 1)).card := by
    refine Nat.stabilises_of_monotone (f := fun d => (settledKeys leniency og ug (d + 1)).card)
      (fun d e hde => Finset.card_le_card (settledKeys_subset (by omega)))
      (fun d => Finset.card_le_card (Finset.filter_subset _ _)) (fun d hd => ?_) hd
    have hsubset : settledKeys leniency og ug (d + 1) ⊆ settledKeys leniency og ug (d + 2) :=
      settledKeys_subset (by omega)
    have heq := Finset.eq_of_subset_of_card_le hsubset hd.ge
    exact congrArg Finset.card (settledKeys_stable heq)
  exact (Finset.eq_of_subset_of_card_le (settledKeys_subset (by omega)) hcard.le).symm

/-- When any depth suffices for two types, the greatest number of open pairs does. -/
theorem plainChange_pairBound {depth : Nat} {i j : String} {a : Bool} {r : Option TypeChange}
    (h : plainChange leniency og ug depth (og.node i) (ug.node j) a = .ok r) :
    plainChange leniency og ug (pairBound og ug) (og.node i) (ug.node j) a = .ok r := by
  obtain ⟨s, hs⟩ : ∃ s, plainChange leniency og ug (pairBound og ug) (og.node i) (ug.node j) a =
      .ok s := by
    have hlt := card_pairKeys_lt og ug
    by_cases hlookup : og.lookup i = none ∨ ug.lookup j = none
    · obtain ⟨s, hs⟩ : ∃ s, plainChange leniency og ug 1 (og.node i) (ug.node j) a = .ok s :=
        plainChange_of_lookup_eq_none hlookup 0 a
      exact ⟨s, plainChange_mono (by omega) hs⟩
    · rw [not_or] at hlookup
      let deep := max depth (pairBound og ug)
      have hdeep := plainChange_mono (show depth ≤ deep + 1 by omega) h
      have hmem := mem_settledKeys.mpr ⟨mem_pairKeys hlookup.1 hlookup.2, r, hdeep⟩
      rw [settledKeys_eq_of_le (show (pairKeys og ug).card ≤ deep by omega)] at hmem
      obtain ⟨-, s, hs⟩ := mem_settledKeys.mp hmem
      exact ⟨s, plainChange_mono (by omega) hs⟩
  rw [hs, plainChange_unique hs h]

end Bound

end UpgradeSafety.Compare
