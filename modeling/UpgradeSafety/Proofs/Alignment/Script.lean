import UpgradeSafety.Proofs.Alignment.Cheapest
import Mathlib.Data.Nat.Find

/-!
# Edit scripts

What an edit script does with every element. A script leads from the start of two lists to their
ends: each step takes the next former element, the next updated one, or both (`Leads`). So every
former element is paired or deleted, every updated one is paired or added, and pairs do not cross.

* `script?_leads`: there always is a script, and it leads to the ends of both lists.
* `readBack_pairs`, `readBack_adds`: behind a position of cost zero, free pairs and free insertions
  are read off the table.
* `script?_eq_pairs_adds_pairs`: the script of lists that differ by elements added in one place.
* `script?_eq_diagonal`: when pairing the elements of equal index is free, the script pairs them
  and appends the rest, unless an appended element could be paired with the last former one for
  nothing.
-/

namespace UpgradeSafety.Alignment

/-- The steps lead from the first position to the second. -/
inductive Leads (n : Nat) : Nat → Nat → List Step → Nat → Nat → Prop where
  | done (i j : Nat) : Leads n i j [] i j
  | pair {i j i' j' : Nat} {steps : List Step} :
      Leads n (i + 1) (j + 1) steps i' j' → Leads n i j (.pair i j :: steps) i' j'
  | insert {i j i' j' : Nat} {steps : List Step} :
      j < n → Leads n i (j + 1) steps i' j' → Leads n i j (.insert j :: steps) i' j'
  | append {i j i' j' : Nat} {steps : List Step} :
      n ≤ j → Leads n i (j + 1) steps i' j' → Leads n i j (.append j :: steps) i' j'
  | delete {i j i' j' : Nat} {steps : List Step} :
      Leads n (i + 1) j steps i' j' → Leads n i j (.delete i :: steps) i' j'

/-! ## Reading a script off the table -/

section Reading

variable {p : Prices} {n m : Nat} {t : Table}

theorem Leads.add {i j i' j' : Nat} {steps : List Step} (h : Leads n i (j + 1) steps i' j') :
    Leads n i j ((if n < j + 1 then .append j else .insert j) :: steps) i' j' := by
  split
  · exact .append (by omega) h
  · exact .insert (by omega) h

/-- From every position of the table a script can be read. -/
theorem readBack_leads (ht : ∀ i ≤ n, ∀ j ≤ m, t.cost i j = least p n i j) {i j : Nat}
    (hi : i ≤ n) (hj : j ≤ m) {later : List Step} (h : Leads n i j later n m) :
    ∃ steps, readBack p n t i j later = some steps ∧ Leads n 0 0 steps n m := by
  fun_induction readBack p n t i j later with
  | case1 later => exact ⟨later, rfl, h⟩
  | case2 later j hcost ih => exact ih (by omega) (by omega) h.add
  | case3 later j hcost =>
    refine absurd ?_ hcost
    rw [ht 0 hi (j + 1) hj, ht 0 hi j (by omega), least]
  | case4 later i hcost ih => exact ih (by omega) (by omega) (.delete h)
  | case5 later i hcost =>
    refine absurd ?_ hcost
    rw [ht (i + 1) hi 0 hj, ht i (by omega) 0 hj, least]
  | case6 later i j hcost ih => exact ih (by omega) (by omega) (.pair h)
  | case7 later i j hpair hcost ih => exact ih (by omega) (by omega) h.add
  | case8 later i j hpair hinsert hcost ih => exact ih (by omega) (by omega) (.delete h)
  | case9 later i j hpair hinsert hdelete =>
    exfalso
    rw [ht (i + 1) hi (j + 1) hj, ht i (by omega) j (by omega), least] at hpair
    rw [ht (i + 1) hi (j + 1) hj, ht (i + 1) hi j (by omega), least] at hinsert
    rw [ht (i + 1) hi (j + 1) hj, ht i (by omega) (j + 1) hj, least] at hdelete
    omega

/-- The steps that are read come before those already there. -/
theorem readBack_suffix {i j : Nat} {later steps : List Step}
    (h : readBack p n t i j later = some steps) : later <:+ steps := by
  fun_induction readBack p n t i j later with
  | case1 =>
    cases h
    exact List.suffix_refl _
  | case2 later j hcost ih => exact (List.suffix_cons _ _).trans (ih h)
  | case4 later i hcost ih => exact (List.suffix_cons _ _).trans (ih h)
  | case6 later i j hcost ih => exact (List.suffix_cons _ _).trans (ih h)
  | case7 later i j hpair hcost ih => exact (List.suffix_cons _ _).trans (ih h)
  | case8 later i j hpair hinsert hcost ih => exact (List.suffix_cons _ _).trans (ih h)
  | case3 | case5 | case9 => cases h

variable (p n m)

/-- There always is a script, and it leads to the ends of both lists. -/
theorem script?_leads : ∃ steps, script? p n m = some steps ∧ Leads n 0 0 steps n m :=
  readBack_leads (fun _ hi _ hj => cost_table p n hi hj) (Nat.le_refl n) (Nat.le_refl m)
    (.done n m)

end Reading

/-! ## The elements of a script -/

namespace Step

/-- The index of the former element that a step takes. -/
def row? : Step → Option Nat
  | pair i _ | delete i => some i
  | insert _ | append _ => none

/-- The index of the updated element that a step takes. -/
def column? : Step → Option Nat
  | pair _ j | insert j | append j => some j
  | delete _ => none

end Step

theorem eq_of_nodup_filterMap {α β : Type} {f : α → Option β} {l : List α} {x y : α} {b : β}
    (h : (l.filterMap f).Nodup) (hx : x ∈ l) (hy : y ∈ l) (hfx : f x = some b)
    (hfy : f y = some b) : x = y := by
  induction l with
  | nil => cases hx
  | cons a l ih =>
    rw [List.filterMap_cons] at h
    have hnew (z : α) (hz : z ∈ l) (hfz : f z = some b) : f a ≠ some b := by
      intro ha
      rw [ha] at h
      exact (List.nodup_cons.mp h).1 (List.mem_filterMap.mpr ⟨z, hz, hfz⟩)
    have htail : (l.filterMap f).Nodup := by
      split at h
      · exact h
      · exact (List.nodup_cons.mp h).2
    rcases List.mem_cons.mp hx with rfl | hxl
    · rcases List.mem_cons.mp hy with rfl | hyl
      · rfl
      · exact absurd hfx (hnew y hyl hfy)
    · rcases List.mem_cons.mp hy with rfl | hyl
      · exact absurd hfy (hnew x hxl hfx)
      · exact ih htail hxl hyl

namespace Leads

variable {n i j i' j' : Nat} {steps : List Step}

theorem le (h : Leads n i j steps i' j') : i ≤ i' ∧ j ≤ j' := by
  induction h with
  | done => exact ⟨Nat.le_refl _, Nat.le_refl _⟩
  | pair _ ih => omega
  | insert _ _ ih => omega
  | append _ _ ih => omega
  | delete _ ih => omega

theorem range'_of_lt {a b : Nat} (h : a < b) :
    List.range' a (b - a) = a :: List.range' (a + 1) (b - (a + 1)) := by
  rw [show b - a = b - (a + 1) + 1 by omega, List.range'_succ]

/-- A script takes the former elements one after the other. -/
theorem rows (h : Leads n i j steps i' j') :
    steps.filterMap Step.row? = List.range' i (i' - i) := by
  induction h with
  | done => simp
  | pair h ih => rw [range'_of_lt h.le.1, ← ih]; rfl
  | insert _ _ ih => rw [← ih]; rfl
  | append _ _ ih => rw [← ih]; rfl
  | delete h ih => rw [range'_of_lt h.le.1, ← ih]; rfl

/-- A script takes the updated elements one after the other. -/
theorem columns (h : Leads n i j steps i' j') :
    steps.filterMap Step.column? = List.range' j (j' - j) := by
  induction h with
  | done => simp
  | pair h ih => rw [range'_of_lt h.le.2, ← ih]; rfl
  | insert _ h ih => rw [range'_of_lt h.le.2, ← ih]; rfl
  | append _ h ih => rw [range'_of_lt h.le.2, ← ih]; rfl
  | delete _ ih => rw [← ih]; rfl

theorem exists_row_iff (h : Leads n i j steps i' j') {a : Nat} :
    (∃ s ∈ steps, s.row? = some a) ↔ i ≤ a ∧ a < i' := by
  have := h.le.1
  rw [← List.mem_filterMap, h.rows, List.mem_range'_1]
  omega

theorem exists_column_iff (h : Leads n i j steps i' j') {b : Nat} :
    (∃ s ∈ steps, s.column? = some b) ↔ j ≤ b ∧ b < j' := by
  have := h.le.2
  rw [← List.mem_filterMap, h.columns, List.mem_range'_1]
  omega

theorem eq_of_row (h : Leads n i j steps i' j') {s t : Step} {a : Nat} (hs : s ∈ steps)
    (ht : t ∈ steps) (hsa : s.row? = some a) (hta : t.row? = some a) : s = t :=
  eq_of_nodup_filterMap (h.rows ▸ List.nodup_range') hs ht hsa hta

theorem eq_of_column (h : Leads n i j steps i' j') {s t : Step} {b : Nat} (hs : s ∈ steps)
    (ht : t ∈ steps) (hsb : s.column? = some b) (htb : t.column? = some b) : s = t :=
  eq_of_nodup_filterMap (h.columns ▸ List.nodup_range') hs ht hsb htb

/-- Pairs do not cross. -/
theorem pair_lt (h : Leads n i j steps i' j') {a b c d : Nat} (hab : .pair a b ∈ steps)
    (hcd : .pair c d ∈ steps) (hac : a < c) : b < d := by
  induction h with
  | done => cases hab
  | @pair i j i' j' steps h ih =>
    rcases List.mem_cons.mp hab with heq | hab'
    · cases heq
      rcases List.mem_cons.mp hcd with heq | hcd'
      · cases heq
        omega
      · exact (h.exists_column_iff.mp ⟨.pair c d, hcd', rfl⟩).1
    · rcases List.mem_cons.mp hcd with heq | hcd'
      · cases heq
        have := (h.exists_row_iff.mp ⟨.pair a b, hab', rfl⟩).1
        omega
      · exact ih hab' hcd'
  | insert _ _ ih => exact ih (by simpa using hab) (by simpa using hcd)
  | append _ _ ih => exact ih (by simpa using hab) (by simpa using hcd)
  | delete _ ih => exact ih (by simpa using hab) (by simpa using hcd)

theorem le_of_append (h : Leads n i j steps i' j') {b : Nat} (hb : .append b ∈ steps) : n ≤ b := by
  induction h with
  | done => cases hb
  | pair _ ih => exact ih (by simpa using hb)
  | insert _ _ ih => exact ih (by simpa using hb)
  | append hj _ ih =>
    rcases List.mem_cons.mp hb with heq | hb'
    · cases heq
      exact hj
    · exact ih hb'
  | delete _ ih => exact ih (by simpa using hb)

theorem lt_of_insert (h : Leads n i j steps i' j') {b : Nat} (hb : .insert b ∈ steps) : b < n := by
  induction h with
  | done => cases hb
  | pair _ ih => exact ih (by simpa using hb)
  | insert hj _ ih =>
    rcases List.mem_cons.mp hb with heq | hb'
    · cases heq
      exact hj
    · exact ih hb'
  | append _ _ ih => exact ih (by simpa using hb)
  | delete _ ih => exact ih (by simpa using hb)

/-- Where all elements up to the length of the former list are paired, equal indices are. -/
theorem eq_of_pair {m : Nat} (h : Leads n 0 0 steps n m) (hrows : ∀ i < n, ∃ j, .pair i j ∈ steps)
    (hcolumns : ∀ j < n, j < m → ∃ i, .pair i j ∈ steps) {i j : Nat} (hij : .pair i j ∈ steps) :
    j = i := by
  induction i using Nat.strongRecOn generalizing j with
  | ind i ih =>
    have hi := (h.exists_row_iff.mp ⟨_, hij, rfl⟩).2
    have hj := (h.exists_column_iff.mp ⟨_, hij, rfl⟩).2
    have hle : i ≤ j := by
      cases i with
      | zero => exact Nat.zero_le j
      | succ k =>
        obtain ⟨l, hkl⟩ := hrows k (by omega)
        have hlk := ih k (by omega) hkl
        have hlj := h.pair_lt hkl hij (by omega)
        omega
    refine Nat.le_antisymm (Nat.le_of_not_lt fun hlt => ?_) hle
    obtain ⟨k, hki⟩ := hcolumns i hi (by omega)
    rcases Nat.lt_trichotomy k i with hki' | rfl | hgt
    · have := ih k hki' hki
      omega
    · cases h.eq_of_row hki hij rfl rfl
      omega
    · have := h.pair_lt hij hki hgt
      omega

/-- A script splits at every position it passes. -/
theorem split {front back : List Step} (h : Leads n i j (front ++ back) i' j') :
    ∃ k l, Leads n i j front k l ∧ Leads n k l back i' j' := by
  induction front generalizing i j with
  | nil => exact ⟨i, j, .done i j, h⟩
  | cons s front ih =>
    cases h with
    | pair h =>
      obtain ⟨k, l, hfront, hback⟩ := ih h
      exact ⟨k, l, .pair hfront, hback⟩
    | insert hj h =>
      obtain ⟨k, l, hfront, hback⟩ := ih h
      exact ⟨k, l, .insert hj hfront, hback⟩
    | append hj h =>
      obtain ⟨k, l, hfront, hback⟩ := ih h
      exact ⟨k, l, .append hj hfront, hback⟩
    | delete h =>
      obtain ⟨k, l, hfront, hback⟩ := ih h
      exact ⟨k, l, .delete hfront, hback⟩

end Leads

/-! ## Partners -/

/-- The index of the updated element that a script pairs with a former one. -/
def partner? (steps : List Step) (i : Nat) : Option Nat :=
  steps.findSome? fun
    | .pair a b => if a = i then some b else none
    | _ => none

theorem Leads.partner?_eq_some_iff {n i j i' j' : Nat} {steps : List Step}
    (h : Leads n i j steps i' j') {a b : Nat} :
    partner? steps a = some b ↔ .pair a b ∈ steps := by
  constructor
  · intro hp
    obtain ⟨s, hs, hsb⟩ := List.exists_of_findSome?_eq_some hp
    cases s with
    | pair c d =>
      simp only [Option.ite_none_right_eq_some, Option.some.injEq] at hsb
      obtain ⟨rfl, rfl⟩ := hsb
      exact hs
    | insert c => cases hsb
    | append c => cases hsb
    | delete c => cases hsb
  · intro hs
    cases hp : partner? steps a with
    | none =>
      have := List.findSome?_eq_none_iff.mp hp _ hs
      simp at this
    | some d =>
      obtain ⟨s, hs', hsd⟩ := List.exists_of_findSome?_eq_some hp
      cases s with
      | pair c e =>
        simp only [Option.ite_none_right_eq_some, Option.some.injEq] at hsd
        obtain ⟨rfl, rfl⟩ := hsd
        have heq := h.eq_of_row hs' hs rfl rfl
        cases heq
        rfl
      | insert c => cases hsd
      | append c => cases hsd
      | delete c => cases hsd

/-! ## Free stretches

A script keeps to free steps on its way to a position of cost zero. Where a pair is free it is taken,
and where none is, an insertion is preferred to a deletion. -/

section Free

variable {p : Prices} {n m : Nat} {t : Table}

theorem least_le_pair (i j : Nat) :
    least p n (i + 1) (j + 1) ≤ least p n i j + p.pair (i + 1) (j + 1) := by
  rw [least]
  omega

theorem least_le_insert (i j : Nat) :
    least p n i (j + 1) ≤ least p n i j + p.insertOrAppend n i (j + 1) := by
  cases i with
  | zero => exact Int.le_of_eq (by rw [least])
  | succ i => rw [least.eq_4]; omega

theorem least_le_delete (i j : Nat) :
    least p n (i + 1) j ≤ least p n i j + p.delete (i + 1) := by
  cases j with
  | zero => exact Int.le_of_eq (by rw [least])
  | succ j => rw [least.eq_4]; omega

/-- The steps that pair `k` elements from a position on. -/
def pairs (i j k : Nat) : List Step := (List.range k).map fun l => .pair (i + l) (j + l)

/-- The steps that add `k` updated elements from a position on. -/
def adds (n j k : Nat) : List Step :=
  (List.range k).map fun l => if n < j + l + 1 then .append (j + l) else .insert (j + l)

theorem pairs_succ (i j k : Nat) : pairs i j (k + 1) = pairs i j k ++ [.pair (i + k) (j + k)] := by
  simp [pairs, List.range_succ]

theorem pairs_cons (i j k : Nat) : pairs i j (k + 1) = .pair i j :: pairs (i + 1) (j + 1) k := by
  simp [pairs, List.range_succ_eq_map, Function.comp_def, Nat.add_right_comm, ← Nat.add_assoc]

theorem adds_add (n j k l : Nat) : adds n j (k + l) = adds n j k ++ adds n (j + k) l := by
  simp [adds, List.range_add, Function.comp_def, Nat.add_assoc]

theorem adds_succ (n j k : Nat) : adds n j (k + 1) =
    adds n j k ++ [if n < j + k + 1 then .append (j + k) else .insert (j + k)] := by
  rw [adds_add]
  simp [adds]

theorem adds_of_le {j k : Nat} (h : n ≤ j) :
    adds n j k = (List.range k).map fun l => .append (j + l) :=
  List.map_congr_left fun l _ => if_pos (by omega)

theorem adds_of_add_le {j k : Nat} (h : j + k ≤ n) :
    adds n j k = (List.range k).map fun l => .insert (j + l) :=
  List.map_congr_left fun l hl => if_neg (by have := List.mem_range.mp hl; omega)

theorem least_pairs (hp : p.Nonneg) {i j k : Nat} (h0 : least p n i j = 0)
    (hfree : ∀ l < k, p.pair (i + l + 1) (j + l + 1) = 0) : least p n (i + k) (j + k) = 0 := by
  induction k with
  | zero => exact h0
  | succ k ih =>
    have hbefore := ih fun l hl => hfree l (by omega)
    have hle := least_le_pair (p := p) (n := n) (i + k) (j + k)
    have hge := least_nonneg (n := n) hp (i + k + 1) (j + k + 1)
    rw [hbefore, hfree k (by omega)] at hle
    show least p n (i + k + 1) (j + k + 1) = 0
    omega

theorem least_adds (hp : p.Nonneg) {i j k : Nat} (h0 : least p n i j = 0)
    (hfree : ∀ l < k, p.insertOrAppend n i (j + l + 1) = 0) : least p n i (j + k) = 0 := by
  induction k with
  | zero => exact h0
  | succ k ih =>
    have hbefore := ih fun l hl => hfree l (by omega)
    have hle := least_le_insert (p := p) (n := n) i (j + k)
    have hge := least_nonneg (n := n) hp i (j + k + 1)
    rw [hbefore, hfree k (by omega)] at hle
    show least p n i (j + k + 1) = 0
    omega

section Reading

variable (hp : p.Nonneg) (ht : ∀ i ≤ n, ∀ j ≤ m, t.cost i j = least p n i j)
include hp ht

/-- Free pairs behind a free position are read off the table. -/
theorem readBack_pairs {i j k : Nat} (hi : i + k ≤ n) (hj : j + k ≤ m)
    (h0 : least p n i j = 0) (hfree : ∀ l < k, p.pair (i + l + 1) (j + l + 1) = 0)
    (later : List Step) :
    readBack p n t (i + k) (j + k) later = readBack p n t i j (pairs i j k ++ later) := by
  induction k generalizing later with
  | zero => rfl
  | succ k ih =>
    have hbefore := least_pairs hp h0 fun l hl => hfree l (show l < k + 1 by omega)
    have hfree' : ∀ l < k, p.pair (i + l + 1) (j + l + 1) = 0 := fun l hl => hfree l (by omega)
    have hcost : t.cost (i + k + 1) (j + k + 1) =
        t.cost (i + k) (j + k) + p.pair (i + k + 1) (j + k + 1) := by
      rw [ht _ (by omega) _ (by omega), ht _ (by omega) _ (by omega), least_pairs hp h0 hfree',
        hfree k (by omega)]
      exact hbefore
    show readBack p n t (i + k + 1) (j + k + 1) later = _
    rw [readBack, if_pos hcost, ih (by omega) (by omega) hfree', pairs_succ, List.append_assoc]
    rfl

/-- Free insertions and appended elements behind a free position are read off the table, unless
one of them could be paired for nothing. -/
theorem readBack_adds {i j k : Nat} (hi : i ≤ n) (hj : j + k ≤ m) (h0 : least p n i j = 0)
    (hfree : ∀ l < k, p.insertOrAppend n i (j + l + 1) = 0)
    (hpair : ∀ r l, i = r + 1 → l < k →
      p.pair (r + 1) (j + l + 1) ≠ 0 ∨ 0 < least p n r (j + l))
    (later : List Step) :
    readBack p n t i (j + k) later = readBack p n t i j (adds n j k ++ later) := by
  induction k generalizing later with
  | zero => rfl
  | succ k ih =>
    have hfree' : ∀ l < k, p.insertOrAppend n i (j + l + 1) = 0 := fun l hl => hfree l (by omega)
    have hhere : least p n i (j + k + 1) = 0 := least_adds (k := k + 1) hp h0 hfree
    have hbefore := least_adds hp h0 hfree'
    have hcost : t.cost i (j + k + 1) = t.cost i (j + k) + p.insertOrAppend n i (j + k + 1) := by
      rw [ht _ hi _ (by omega), ht _ hi _ (by omega), hhere, hbefore, hfree k (by omega)]
      rfl
    have hstep : readBack p n t i (j + k + 1) later = readBack p n t i (j + k)
        ((if n < j + k + 1 then .append (j + k) else .insert (j + k)) :: later) := by
      cases i with
      | zero => rw [readBack, if_pos hcost]
      | succ r =>
        have hnot : ¬ t.cost (r + 1) (j + k + 1) = t.cost r (j + k) + p.pair (r + 1) (j + k + 1) := by
          rw [ht _ hi _ (by omega), ht _ (by omega) _ (by omega), hhere]
          have hge := least_nonneg (n := n) hp r (j + k)
          have hge' := hp.pair (r + 1) (j + k + 1)
          rcases hpair r k rfl (by omega) with h | h <;> omega
        rw [readBack, if_neg hnot, if_pos hcost]
    show readBack p n t i (j + k + 1) later = _
    rw [hstep, ih (by omega) hfree' (fun r l hr hl => hpair r l hr (by omega)), adds_succ,
      List.append_assoc]
    rfl

end Reading

/-! ## Lists that differ in one place -/

theorem pairs_zero (k : Nat) : pairs 0 0 k = (List.range k).map fun i => .pair i i := by
  simp [pairs]


/-- When the first `x` elements and the last `z` ones can be paired and the `y` updated ones between
them can be added for nothing, the script does so, unless an added element could take the place of
the former one before it for nothing. -/
theorem script?_eq_pairs_adds_pairs (hp : p.Nonneg) {x y z : Nat}
    (hfront : ∀ l < x, p.pair (l + 1) (l + 1) = 0)
    (hadds : ∀ l < y, p.insertOrAppend (x + z) x (x + l + 1) = 0)
    (hpair : ∀ r l, x = r + 1 → l < y →
      p.pair (r + 1) (x + l + 1) ≠ 0 ∨ 0 < least p (x + z) r (x + l))
    (hback : ∀ l < z, p.pair (x + l + 1) (x + y + l + 1) = 0) :
    script? p (x + z) (x + y + z) = some (pairs 0 0 x ++ (adds (x + z) x y ++ pairs x (x + y) z)) := by
  have ht : ∀ i ≤ x + z, ∀ j ≤ x + y + z,
      (table p (x + z) (x + y + z)).cost i j = least p (x + z) i j :=
    fun _ hi _ hj => cost_table p (x + z) hi hj
  have h0 : least p (x + z) 0 0 = 0 := by rw [least]
  have hfront' : ∀ l < x, p.pair (0 + l + 1) (0 + l + 1) = 0 := by simpa using hfront
  have hx : least p (x + z) x x = 0 := by simpa using least_pairs hp h0 hfront'
  have hxy := least_adds hp hx hadds
  have hfirst := readBack_pairs hp ht (show 0 + x ≤ x + z by omega)
    (show 0 + x ≤ x + y + z by omega) h0 hfront' (adds (x + z) x y ++ (pairs x (x + y) z ++ []))
  rw [Nat.zero_add] at hfirst
  rw [script?, readBack_pairs hp ht (Nat.le_refl _) (Nat.le_refl _) hxy hback,
    readBack_adds hp ht (by omega) (by omega) hx hadds hpair, hfirst, readBack, List.append_nil]

/-- When the last former element can be paired with one behind the length of the list, and everything
before that is free, the script pairs it with the last such element. -/
theorem exists_pair_of_free (hp : p.Nonneg) {i j : Nat} (hij : i < j) (hjm : j < m)
    (hrow : ∀ l, i < l → l < m → least p (i + 1) i l = 0) (hpair : p.pair (i + 1) (j + 1) = 0)
    {steps : List Step} (hsteps : script? p (i + 1) m = some steps) :
    ∃ k, i < k ∧ k < m ∧ p.pair (i + 1) (k + 1) = 0 ∧ .pair i k ∈ steps := by
  obtain ⟨k, ⟨hik, hkm, hk⟩, hlast⟩ : ∃ k, (i < k ∧ k < m ∧ p.pair (i + 1) (k + 1) = 0) ∧
      ∀ l, k < l → l < m → p.pair (i + 1) (l + 1) ≠ 0 := by
    let free (l : Nat) : Prop := i < l ∧ l < m ∧ p.pair (i + 1) (l + 1) = 0
    refine ⟨Nat.findGreatest free m,
      Nat.findGreatest_spec (P := free) (Nat.le_of_lt hjm) ⟨hij, hjm, hpair⟩, fun l hl hlm hzero => ?_⟩
    have hle := Nat.le_findGreatest (P := free) (Nat.le_of_lt hjm) ⟨hij, hjm, hpair⟩
    exact Nat.findGreatest_is_greatest hl (Nat.le_of_lt hlm) ⟨by omega, hlm, hzero⟩
  have ht : ∀ i' ≤ i + 1, ∀ j' ≤ m, (table p (i + 1) m).cost i' j' = least p (i + 1) i' j' :=
    fun _ hi _ hj => cost_table p (i + 1) hi hj
  have hbefore := hrow k hik hkm
  have hafter : least p (i + 1) (i + 1) (k + 1) = 0 := by
    have hle := least_le_pair (p := p) (n := i + 1) i k
    have hge := least_nonneg (n := i + 1) hp (i + 1) (k + 1)
    omega
  have hcost : (table p (i + 1) m).cost (i + 1) (k + 1) =
      (table p (i + 1) m).cost i k + p.pair (i + 1) (k + 1) := by
    rw [ht _ (Nat.le_refl _) _ (by omega), ht _ (by omega) _ (by omega), hafter, hbefore, hk]
    rfl
  obtain ⟨l, rfl⟩ : ∃ l, m = k + 1 + l := ⟨m - (k + 1), by omega⟩
  rw [script?, readBack_adds hp ht (Nat.le_refl _) (Nat.le_refl _) hafter
    (fun x _ => if_pos (by omega))
    (fun r x hr hx => Or.inl (by cases hr; exact hlast _ (by omega) (by omega))),
    readBack, if_pos hcost] at hsteps
  exact ⟨k, hik, hkm, hk, (readBack_suffix hsteps).subset List.mem_cons_self⟩

/-- The script that pairs the elements of equal index and appends the rest. -/
def diagonal (n m : Nat) : List Step :=
  (List.range n).map (fun i => .pair i i) ++ (List.range' n (m - n)).map .append

variable (p n m)

/-- When pairing the elements of equal index is free, the script pairs them and appends the rest,
unless an appended element could take the place of the last former one for nothing. -/
theorem script?_eq_diagonal (hp : p.Nonneg) (hnm : n ≤ m)
    (hdiag : ∀ i < n, p.pair (i + 1) (i + 1) = 0)
    (hlast : ∀ i j, n = i + 1 → n ≤ j → j < m →
      p.pair (i + 1) (j + 1) ≠ 0 ∨ 0 < least p n i j) :
    script? p n m = some (diagonal n m) := by
  obtain ⟨k, rfl⟩ : ∃ k, m = n + k := ⟨m - n, by omega⟩
  have hscript := script?_eq_pairs_adds_pairs (z := 0) hp hdiag (y := k)
    (fun l _ => if_pos (by omega))
    (fun r l hr hl => hlast r (n + l) hr (by omega) (by omega)) (fun l hl => by omega)
  rw [diagonal, Nat.add_sub_cancel_left, ← pairs_zero, List.range'_eq_map_range, List.map_map]
  rw [adds_of_le (show n + 0 ≤ n by omega)] at hscript
  simpa [pairs, Function.comp_def] using hscript

end Free

end UpgradeSafety.Alignment
