import UpgradeSafety.Proofs.Alignment.Script
import Mathlib.Data.List.Induction

/-!
# Scripts along the diagonal

When does a script pair the elements of equal index? Two conditions under which it does, although
such pairs need not be free.

* `Prices.Steep.script?_eq_diagonal`: leaving the diagonal costs at least two for every step, and a
  pair off the diagonal is as dear as the dearest one on it. Then the pairs of equal index are
  cheapest, whatever they cost, and what is left is appended.
* `pair_of_adjacent`: two lists of one length, where every former element that is deleted could be
  paired with the updated one of its index for nothing, and an element is inserted next to it in
  the script. Then nothing is deleted at all, since the free pair would have been read off the
  table.
-/

namespace UpgradeSafety.Alignment

variable {p : Prices} {n m : Nat}

/-! ## A lower bound -/

/-- What starts at zero at most and grows by no more than the price of a step is a lower bound of the
least costs. -/
theorem le_least (bound : Nat → Nat → Int) (h0 : bound 0 0 ≤ 0)
    (hpair : ∀ i j, i < n → j < m → bound (i + 1) (j + 1) ≤ bound i j + p.pair (i + 1) (j + 1))
    (hinsert : ∀ i j, i ≤ n → j < m →
      bound i (j + 1) ≤ bound i j + p.insertOrAppend n i (j + 1))
    (hdelete : ∀ i j, i < n → j ≤ m → bound (i + 1) j ≤ bound i j + p.delete (i + 1))
    {i j : Nat} (hi : i ≤ n) (hj : j ≤ m) : bound i j ≤ least p n i j := by
  fun_induction least p n i j with
  | case1 => exact h0
  | case2 j ih =>
    exact Int.le_trans (hinsert 0 j hi hj) (Int.add_le_add_right (ih hi (by omega)) _)
  | case3 i ih =>
    exact Int.le_trans (hdelete i 0 hi hj) (Int.add_le_add_right (ih (by omega) hj) _)
  | case4 i j ihDiagonal ihLeft ihAbove =>
    refine Int.le_min.mpr ⟨Int.le_min.mpr ⟨?_, ?_⟩, ?_⟩
    · exact Int.le_trans (hpair i j hi hj)
        (Int.add_le_add_right (ihDiagonal (Nat.le_of_lt hi) (Nat.le_of_lt hj)) _)
    · exact Int.le_trans (hinsert (i + 1) j hi hj)
        (Int.add_le_add_right (ihLeft hi (Nat.le_of_lt hj)) _)
    · exact Int.le_trans (hdelete i (j + 1) hi hj)
        (Int.add_le_add_right (ihAbove (Nat.le_of_lt hi) hj) _)

/-! ## A cheapest diagonal -/

/-- What the pairs of equal index cost together, up to an index. -/
def diagonalCost (p : Prices) : Nat → Int
  | 0 => 0
  | k + 1 => diagonalCost p k + p.pair (k + 1) (k + 1)

/-- It does not pay to leave the diagonal: a pair on it costs at most three, any other one at least
three, and an insertion before the end and a deletion at least two each. -/
structure Prices.Steep (p : Prices) (n m : Nat) : Prop where
  diagonal : ∀ i < n, 0 ≤ p.pair (i + 1) (i + 1) ∧ p.pair (i + 1) (i + 1) ≤ 3
  pair : ∀ i j, i < n → j < m → i ≠ j → 3 ≤ p.pair (i + 1) (j + 1)
  insert : ∀ i j, i ≤ n → j < n → 2 ≤ p.insert i (j + 1)
  delete : ∀ i < n, 2 ≤ p.delete (i + 1)

namespace Prices.Steep

variable (h : p.Steep n m)
include h

/-- A position costs at least what the diagonal costs up to it, and two for every step that it is
away from the diagonal. -/
theorem bound_le_least {i j : Nat} (hi : i ≤ n) (hj : j ≤ m) :
    diagonalCost p (min i j) + 2 * ((min j n - i : Nat) : Int) + 2 * ((i - j : Nat) : Int) ≤
      least p n i j := by
  have hstep (k : Nat) (hk : k < n) :
      diagonalCost p (k + 1) = diagonalCost p k + p.pair (k + 1) (k + 1) ∧
        p.pair (k + 1) (k + 1) ≤ 3 := ⟨rfl, (h.diagonal k hk).2⟩
  refine le_least (fun i j => diagonalCost p (min i j) + 2 * ((min j n - i : Nat) : Int) +
    2 * ((i - j : Nat) : Int)) (by simp [diagonalCost]) ?_ ?_ ?_ hi hj
  · intro i j hi hj
    have hmin := hstep (min i j) (by omega)
    rw [show min (i + 1) (j + 1) = min i j + 1 by omega]
    by_cases hij : i = j
    · subst hij
      rw [Nat.min_self] at hmin ⊢
      omega
    · have := h.pair i j hi hj hij
      omega
  · intro i j hi hj
    unfold Prices.insertOrAppend
    rcases Nat.lt_or_ge j i with hji | hij
    · have hmin := hstep j (by omega)
      have := h.insert i j hi (by omega)
      rw [if_neg (by omega), show min i (j + 1) = j + 1 by omega, show min i j = j by omega]
      omega
    · rw [show min i (j + 1) = i by omega, show min i j = i by omega]
      split
      · omega
      · have := h.insert i j hi (by omega)
        omega
  · intro i j hi hj
    have := h.delete i hi
    rcases Nat.lt_or_ge i j with hij | hji
    · have hmin := hstep i hi
      rw [show min (i + 1) j = i + 1 by omega, show min i j = i by omega]
      omega
    · rw [show min (i + 1) j = j by omega, show min i j = j by omega]
      omega

theorem least_diagonal {k : Nat} (hk : k ≤ n) (hkm : k ≤ m) :
    least p n k k = diagonalCost p k := by
  refine Int.le_antisymm ?_ ?_
  · induction k with
    | zero => simp [least, diagonalCost]
    | succ k ih =>
      have hbefore := ih (by omega) (by omega)
      have hle := least_le_pair (p := p) (n := n) k k
      rw [diagonalCost]
      omega
  · have hbound := h.bound_le_least hk hkm
    rw [Nat.min_self, show min k n - k = 0 by omega, Nat.sub_self] at hbound
    omega

theorem least_behind {j : Nat} (hj : n ≤ j) (hjm : j ≤ m) : least p n n j = diagonalCost p n := by
  refine Int.le_antisymm ?_ ?_
  · induction j with
    | zero =>
      obtain rfl : n = 0 := by omega
      simp [least, diagonalCost]
    | succ j ih =>
      rcases Nat.lt_or_eq_of_le hj with hlt | rfl
      · have hbefore := ih (by omega) (by omega)
        have hle := least_le_insert (p := p) (n := n) n j
        rw [Prices.insertOrAppend, if_pos hlt] at hle
        omega
      · exact Int.le_of_eq (h.least_diagonal (Nat.le_refl _) hjm)
  · have hbound := h.bound_le_least (Nat.le_refl n) hjm
    rw [show min n j = n by omega, show min j n - n = 0 by omega, show n - j = 0 by omega] at hbound
    omega

section Reading

variable {t : Table} (ht : ∀ i ≤ n, ∀ j ≤ m, t.cost i j = least p n i j)
include ht

theorem readBack_diagonal {k : Nat} (hk : k ≤ n) (hkm : k ≤ m) (later : List Step) :
    readBack p n t k k later = some ((List.range k).map (fun i => .pair i i) ++ later) := by
  induction k generalizing later with
  | zero => rw [readBack]; rfl
  | succ k ih =>
    have hcost : t.cost (k + 1) (k + 1) = t.cost k k + p.pair (k + 1) (k + 1) := by
      rw [ht _ hk _ hkm, ht _ (by omega) _ (by omega), h.least_diagonal hk hkm,
        h.least_diagonal (by omega) (by omega), diagonalCost]
    rw [readBack, if_pos hcost, ih (by omega) (by omega), List.range_succ, List.map_append,
      List.append_assoc]
    rfl

theorem readBack_behind {k : Nat} (hk : n + k ≤ m) (later : List Step) :
    readBack p n t n (n + k) later =
      readBack p n t n n ((List.range' n k).map .append ++ later) := by
  induction k generalizing later with
  | zero => rfl
  | succ k ih =>
    have hk' : n + k + 1 ≤ m := hk
    have hhere := h.least_behind (j := n + k + 1) (by omega) hk'
    have hbefore := h.least_behind (j := n + k) (by omega) (by omega)
    have hcost : t.cost n (n + k + 1) = t.cost n (n + k) + p.insertOrAppend n n (n + k + 1) := by
      rw [ht _ (Nat.le_refl n) _ hk', ht _ (Nat.le_refl n) _ (by omega), hhere, hbefore,
        Prices.insertOrAppend, if_pos (by omega)]
      omega
    have hstep : readBack p n t n (n + k + 1) later =
        readBack p n t n (n + k) (.append (n + k) :: later) := by
      have hlt : n < n + k + 1 := by omega
      cases n with
      | zero => rw [readBack, if_pos hcost, if_pos hlt]
      | succ r =>
        -- pairing the last former element behind the diagonal costs more than appending
        have hnot : ¬ t.cost (r + 1) (r + 1 + k + 1) =
            t.cost r (r + 1 + k) + p.pair (r + 1) (r + 1 + k + 1) := by
          have hbound := h.bound_le_least (i := r) (j := r + 1 + k) (by omega) (by omega)
          have hpair := h.pair r (r + 1 + k) (by omega) (by omega) (by omega)
          have hlast := (h.diagonal r (by omega)).2
          rw [show min r (r + 1 + k) = r by omega,
            show min (r + 1 + k) (r + 1) - r = 1 by omega,
            show r - (r + 1 + k) = 0 by omega] at hbound
          rw [ht _ (Nat.le_refl _) _ hk', ht _ (by omega) _ (by omega), hhere, diagonalCost]
          omega
        rw [readBack, if_neg hnot, if_pos hcost, if_pos hlt]
    show readBack p n t n (n + k + 1) later = _
    rw [hstep, ih (by omega), List.range'_concat, List.map_append, List.append_assoc, Nat.one_mul]
    rfl

end Reading

/-- Where it does not pay to leave the diagonal, the script pairs the elements of equal index and
appends the rest. -/
theorem script?_eq_diagonal (hnm : n ≤ m) : script? p n m = some (Alignment.diagonal n m) := by
  obtain ⟨k, rfl⟩ : ∃ k, m = n + k := ⟨m - n, by omega⟩
  have ht : ∀ i ≤ n, ∀ j ≤ n + k, (table p n (n + k)).cost i j = least p n i j :=
    fun _ hi _ hj => cost_table p n hi hj
  rw [script?, h.readBack_behind ht (Nat.le_refl _), h.readBack_diagonal ht (Nat.le_refl _) hnm,
    Alignment.diagonal, Nat.add_sub_cancel_left, List.append_nil]

end Prices.Steep

/-! ## How a script is read -/

/-- The steps that are read off the table into a position, the last one first. A step that takes one
element is read only where no pair explains the cost. -/
inductive ReadInto (p : Prices) (n : Nat) (t : Table) : Nat → Nat → List Step → Prop where
  | start : ReadInto p n t 0 0 []
  | pair {i j : Nat} {earlier : List Step} : ReadInto p n t i j earlier →
      ReadInto p n t (i + 1) (j + 1) (.pair i j :: earlier)
  | insert {i j : Nat} {earlier : List Step} : ReadInto p n t i j earlier → j < n →
      t.cost i (j + 1) = t.cost i j + p.insertOrAppend n i (j + 1) →
      (∀ k, i = k + 1 → t.cost i (j + 1) ≠ t.cost k j + p.pair i (j + 1)) →
      ReadInto p n t i (j + 1) (.insert j :: earlier)
  | append {i j : Nat} {earlier : List Step} : ReadInto p n t i j earlier → n ≤ j →
      ReadInto p n t i (j + 1) (.append j :: earlier)
  | delete {i j : Nat} {earlier : List Step} : ReadInto p n t i j earlier →
      t.cost (i + 1) j = t.cost i j + p.delete (i + 1) →
      (∀ k, j = k + 1 → t.cost (i + 1) j ≠ t.cost i k + p.pair (i + 1) j) →
      ReadInto p n t (i + 1) j (.delete i :: earlier)

section Reading

variable {t : Table} {i j : Nat} {r x : List Step}

theorem ReadInto.add (h : ReadInto p n t i j r)
    (hcost : t.cost i (j + 1) = t.cost i j + p.insertOrAppend n i (j + 1))
    (hnot : ∀ k, i = k + 1 → t.cost i (j + 1) ≠ t.cost k j + p.pair i (j + 1)) :
    ReadInto p n t i (j + 1) ((if n < j + 1 then .append j else .insert j) :: r) := by
  split
  · exact h.append (by omega)
  · exact h.insert (by omega) hcost hnot

/-- The steps before those already there are read into the position. -/
theorem exists_readInto {later steps : List Step} (h : readBack p n t i j later = some steps) :
    ∃ r, ReadInto p n t i j r ∧ steps = r.reverse ++ later := by
  fun_induction readBack p n t i j later with
  | case1 later =>
    cases h
    exact ⟨[], .start, rfl⟩
  | case2 later j hcost ih =>
    obtain ⟨r, hr, rfl⟩ := ih h
    exact ⟨_, hr.add hcost (by omega), by simp⟩
  | case4 later i hcost ih =>
    obtain ⟨r, hr, rfl⟩ := ih h
    exact ⟨_, hr.delete hcost (by omega), by simp⟩
  | case6 later i j hcost ih =>
    obtain ⟨r, hr, rfl⟩ := ih h
    exact ⟨_, hr.pair, by simp⟩
  | case7 later i j hpair hcost ih =>
    obtain ⟨r, hr, rfl⟩ := ih h
    refine ⟨_, hr.add hcost fun k hk => ?_, by simp⟩
    cases hk
    exact hpair
  | case8 later i j hpair hinsert hcost ih =>
    obtain ⟨r, hr, rfl⟩ := ih h
    refine ⟨_, hr.delete hcost fun k hk => ?_, by simp⟩
    cases hk
    exact hpair
  | case3 | case5 | case9 => cases h

namespace ReadInto

/-- The steps lead to one position only. -/
theorem unique {k l : Nat} (h : ReadInto p n t i j r) (h' : ReadInto p n t k l r) :
    i = k ∧ j = l := by
  induction h generalizing k l with
  | start =>
    cases h'
    exact ⟨rfl, rfl⟩
  | pair _ ih | insert _ _ _ _ ih | append _ _ ih | delete _ _ _ ih =>
    cases h'
    grind

/-- The steps before some others lead to a position. -/
theorem earlier (h : ReadInto p n t i j (x ++ r)) :
    ∃ k l, k ≤ i ∧ l ≤ j ∧ ReadInto p n t k l r := by
  induction x generalizing i j with
  | nil => exact ⟨i, j, Nat.le_refl _, Nat.le_refl _, h⟩
  | cons s x ih =>
    cases h with
    | pair h | insert h | append h | delete h =>
      obtain ⟨k, l, hk, hl, hr⟩ := ih h
      exact ⟨k, l, by omega, by omega, hr⟩

/-- Where the pair is free, an element is not deleted and inserted at its place. -/
theorem not_delete_insert (h : ReadInto p n t (j + 1) (j + 1) (.insert j :: .delete j :: r))
    (hp : p.Nonneg) (ht : ∀ i ≤ n, ∀ j ≤ m, t.cost i j = least p n i j) (hn : j < n) (hm : j < m)
    (hfree : p.pair (j + 1) (j + 1) = 0) : False := by
  cases h with
  | insert h _ hinsert hnot =>
    cases h with
    | delete h hdelete _ =>
      have hne := hnot j rfl
      have hle := least_le_pair (p := p) (n := n) j j
      have := hp.insertOrAppend (n := n) (j + 1) (j + 1)
      have := hp.delete (j + 1)
      rw [ht (j + 1) hn (j + 1) hm] at hinsert hne
      rw [ht (j + 1) hn j (by omega)] at hinsert hdelete
      rw [ht j (by omega) j (by omega)] at hdelete hne
      omega

/-- Where the pair is free, an element is not inserted and deleted at its place. -/
theorem not_insert_delete (h : ReadInto p n t (j + 1) (j + 1) (.delete j :: .insert j :: r))
    (hp : p.Nonneg) (ht : ∀ i ≤ n, ∀ j ≤ m, t.cost i j = least p n i j) (hn : j < n) (hm : j < m)
    (hfree : p.pair (j + 1) (j + 1) = 0) : False := by
  cases h with
  | delete h hdelete hnot =>
    cases h with
    | insert h _ hinsert _ =>
      have hne := hnot j rfl
      have hle := least_le_pair (p := p) (n := n) j j
      have := hp.insertOrAppend (n := n) j (j + 1)
      have := hp.delete (j + 1)
      rw [ht (j + 1) hn (j + 1) hm] at hdelete hne
      rw [ht j (by omega) (j + 1) hm] at hinsert hdelete
      rw [ht j (by omega) j (by omega)] at hinsert hne
      omega

end ReadInto

end Reading

/-! ## Deletions with insertions next to them -/

/-- Every element that the steps delete could be paired with the updated one of its index for
nothing, and the step before or behind its deletion inserts an element. -/
def Adjacent (p : Prices) (steps : List Step) : Prop :=
  ∀ front i back, steps = front ++ .delete i :: back → p.pair (i + 1) (i + 1) = 0 ∧
    ((∃ j front', front = front' ++ [.insert j]) ∨ ∃ j back', back = .insert j :: back')

section Adjacent

variable {t : Table} {r : List Step} (hp : p.Nonneg)
  (ht : ∀ i ≤ n, ∀ j ≤ n, t.cost i j = least p n i j) (hr : ReadInto p n t n n r)
  (hadjacent : Adjacent p r.reverse)
include hadjacent

/-- The step next to a deletion, in steps that are given last one first. -/
theorem Adjacent.insert_next {x y : List Step} {i : Nat} (h : r = x ++ .delete i :: y) :
    p.pair (i + 1) (i + 1) = 0 ∧
      ((∃ j y', y = .insert j :: y') ∨ ∃ j x', x = x' ++ [.insert j]) := by
  obtain ⟨hfree, hnext⟩ := hadjacent y.reverse i x.reverse (by simp [h])
  refine ⟨hfree, hnext.imp (fun ⟨j, front', hy⟩ => ⟨j, front'.reverse, ?_⟩)
    fun ⟨j, back', hx⟩ => ⟨j, back'.reverse, ?_⟩⟩
  · simpa using congrArg List.reverse hy
  · simpa using congrArg List.reverse hx

include hp ht hr

/-- The script never runs ahead in the updated list: where it would come back from there for the last
time, it would delete an element right after inserting the one of its index. -/
theorem ReadInto.le_of_adjacent {x y : List Step} (h : r = x ++ y) {i j : Nat}
    (hy : ReadInto p n t i j y) : j ≤ i := by
  induction hlength : x.length using Nat.strongRecOn generalizing x y i j with
  | ind length ih =>
    rcases List.eq_nil_or_concat x with rfl | ⟨x, s, rfl⟩
    · obtain ⟨rfl, rfl⟩ := hy.unique (by simpa using h ▸ hr)
      exact Nat.le_refl _
    rw [List.concat_eq_append, List.append_assoc, List.singleton_append] at h
    rw [List.concat_eq_append, List.length_append, List.length_singleton] at hlength
    obtain ⟨k, l, hk, hl, hs⟩ := (h ▸ hr).earlier
    have hle := ih x.length (by omega) h hs rfl
    cases hs with
    | pair hs | insert hs | append hs =>
      obtain ⟨rfl, rfl⟩ := hy.unique hs
      omega
    | @delete a _ _ hs hcost hnot =>
      obtain ⟨rfl, rfl⟩ := hy.unique hs
      refine Nat.le_of_lt_succ (Nat.lt_of_le_of_ne hle fun heq => ?_)
      subst heq
      obtain ⟨hfree, ⟨b, y', rfl⟩ | ⟨b, x', rfl⟩⟩ := hadjacent.insert_next h
      · have hdelete := hs.delete hcost hnot
        cases hs with
        | insert => exact hdelete.not_insert_delete hp ht hk hl hfree
      · -- the position behind the next insertion would be ahead
        rw [List.append_assoc, List.singleton_append] at h
        obtain ⟨k', l', -, -, hb⟩ := (h ▸ hr).earlier
        have hle' := ih x'.length (by simp at hlength; omega) h hb rfl
        cases hb with
        | insert hb =>
          obtain ⟨rfl, rfl⟩ := hb.unique (hs.delete hcost hnot)
          omega

/-- Nothing but pairs of equal index leads to any position. -/
theorem ReadInto.pairs_of_adjacent {x y : List Step} (h : r = x ++ y) :
    ∃ i ≤ n, ReadInto p n t i i y ∧ ∀ s ∈ y, ∃ k, s = .pair k k := by
  induction y generalizing x with
  | nil => exact ⟨0, Nat.zero_le _, .start, fun s hs => absurd hs List.not_mem_nil⟩
  | cons s y ih =>
    obtain ⟨i, -, hy, hpairs⟩ := ih (x := x ++ [s]) (by simpa using h)
    obtain ⟨k, l, hk, hl, hs⟩ := (h ▸ hr).earlier
    have hle := hr.le_of_adjacent hp ht hadjacent h hs
    cases hs with
    | pair hs =>
      obtain ⟨rfl, rfl⟩ := hy.unique hs
      exact ⟨i + 1, hk, hs.pair, List.forall_mem_cons.mpr ⟨⟨i, rfl⟩, hpairs⟩⟩
    | insert hs | append hs =>
      obtain ⟨rfl, rfl⟩ := hy.unique hs
      omega
    | delete hs hcost hnot =>
      obtain ⟨rfl, rfl⟩ := hy.unique hs
      obtain ⟨hfree, ⟨b, y', rfl⟩ | ⟨b, x', rfl⟩⟩ := hadjacent.insert_next h
      · obtain ⟨k, hk⟩ := hpairs _ List.mem_cons_self
        cases hk
      · rw [List.append_assoc, List.singleton_append] at h
        obtain ⟨k', l', hk', hl', hb⟩ := (h ▸ hr).earlier
        have hb' := hb
        cases hb with
        | insert hb =>
          obtain ⟨rfl, rfl⟩ := hb.unique (hs.delete hcost hnot)
          exact (hb'.not_delete_insert hp ht hk hl' hfree).elim

end Adjacent

/-- Where next to every deletion an element is inserted, although the deleted one could be paired with
the updated one of its index for nothing, nothing is deleted or inserted at all. -/
theorem pair_of_adjacent (hp : p.Nonneg) {steps : List Step} (h : script? p n n = some steps)
    (hadjacent : Adjacent p steps) : ∀ s ∈ steps, ∃ i, s = .pair i i := by
  obtain ⟨r, hr, rfl⟩ := exists_readInto h
  rw [List.append_nil] at hadjacent ⊢
  obtain ⟨_, -, -, hpairs⟩ := hr.pairs_of_adjacent hp
    (fun _ hi _ hj => cost_table p n hi hj) hadjacent (x := []) rfl
  exact fun s hs => hpairs s (List.mem_reverse.mp hs)

end UpgradeSafety.Alignment
