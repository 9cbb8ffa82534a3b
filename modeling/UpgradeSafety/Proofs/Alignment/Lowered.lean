import UpgradeSafety.Proofs.Alignment.Script

/-!
# Cheaper pairs

What becomes of the script of two lists when some pairs become cheaper and no other price changes
(`Prices.Lowers`). Costs can only fall (`least_lowered`). The script stays as it is unless the new
one takes a pair whose price fell (`script?_lowered`).

The argument goes backwards along the new script, as it is read off the table. At the end of the
lists nothing is known of the costs; but on the way of the new script every step has the same price
as before, so the new cost of its end is also the sum of old prices, and the old cost cannot be
higher. Hence the costs agree at every position on the way (`readBack_lowered`). Where they agree,
a step that the new prices pass over, because it does not account for the cost, is passed over by
the old ones as well (`not_pair_of_not_pair`), and so both read the same step.
-/

namespace UpgradeSafety.Alignment

/-- Prices of which only those of pairs are other ones, and none is higher. -/
structure Prices.Lowers (n m : Nat) (p p' : Prices) : Prop where
  pair : ∀ i < n, ∀ j < m, p'.pair (i + 1) (j + 1) ≤ p.pair (i + 1) (j + 1)
  insert : p'.insert = p.insert
  delete : p'.delete = p.delete

variable {p p' : Prices} {n m : Nat} (h : p.Lowers n m p')
include h

theorem Prices.Lowers.insertOrAppend (i j : Nat) :
    p'.insertOrAppend n i j = p.insertOrAppend n i j := by
  rw [Prices.insertOrAppend, Prices.insertOrAppend, h.insert]

theorem least_lowered {i j : Nat} (hi : i ≤ n) (hj : j ≤ m) : least p' n i j ≤ least p n i j := by
  fun_induction least p n i j with
  | case1 =>
    exact Int.le_of_eq (by rw [least])
  | case2 j ih =>
    have hleft := ih hi (by omega)
    rw [least, h.insertOrAppend]
    omega
  | case3 i ih =>
    have habove := ih (by omega) hj
    rw [least, h.delete]
    omega
  | case4 i j ihDiagonal ihLeft ihAbove =>
    have hdiagonal := ihDiagonal (by omega) (by omega)
    have hleft := ihLeft hi (by omega)
    have habove := ihAbove (by omega) hj
    have hpair := h.pair i (by omega) j (by omega)
    rw [least, h.insertOrAppend, h.delete]
    omega

/-- Where the cost did not fall, a pair that the new prices do not take is not taken by the old
ones. -/
theorem not_pair_of_not_pair {i j : Nat} (hi : i < n) (hj : j < m)
    (hcost : least p n (i + 1) (j + 1) = least p' n (i + 1) (j + 1))
    (hpair : ¬ least p' n (i + 1) (j + 1) = least p' n i j + p'.pair (i + 1) (j + 1)) :
    ¬ least p n (i + 1) (j + 1) = least p n i j + p.pair (i + 1) (j + 1) := by
  have hprice := h.pair i hi j hj
  have hdiagonal : least p' n i j ≤ least p n i j := least_lowered h (by omega) (by omega)
  have hstep := least_le_pair (p := p') (n := n) i j
  omega

/-- From a position on the way of the new script, the same steps are read off the old table, unless
one of them is a pair whose price fell. -/
theorem readBack_lowered {t t' : Table} (ht : ∀ i ≤ n, ∀ j ≤ m, t.cost i j = least p n i j)
    (ht' : ∀ i ≤ n, ∀ j ≤ m, t'.cost i j = least p' n i j) {i j : Nat} (hi : i ≤ n) (hj : j ≤ m)
    {later steps : List Step} (hread : readBack p' n t' i j later = some steps)
    (hsame : ∀ k l, .pair k l ∈ steps → p'.pair (k + 1) (l + 1) = p.pair (k + 1) (l + 1)) :
    readBack p n t i j later = some steps ∧ least p n i j = least p' n i j := by
  fun_induction readBack p' n t' i j later with
  | case1 later =>
    cases hread
    rw [readBack, least, least]
    exact ⟨rfl, rfl⟩
  | case2 later j hcost ih =>
    simp only [dite_eq_ite] at ih
    obtain ⟨hold, hleast⟩ := ih hi (by omega) hread
    have heq : least p n 0 (j + 1) = least p n 0 j + p.insertOrAppend n 0 (j + 1) := by rw [least]
    have heq' : least p' n 0 (j + 1) = least p' n 0 j + p'.insertOrAppend n 0 (j + 1) := by
      rw [least]
    rw [h.insertOrAppend] at heq'
    have hcosts : least p n 0 (j + 1) = least p' n 0 (j + 1) := by omega
    refine ⟨?_, hcosts⟩
    rw [readBack, ht 0 hi (j + 1) hj, ht 0 hi j (by omega), if_pos heq]
    exact hold
  | case4 later i hcost ih =>
    obtain ⟨hold, hleast⟩ := ih (by omega) hj hread
    have heq : least p n (i + 1) 0 = least p n i 0 + p.delete (i + 1) := by rw [least]
    have heq' : least p' n (i + 1) 0 = least p' n i 0 + p'.delete (i + 1) := by rw [least]
    rw [h.delete] at heq'
    have hcosts : least p n (i + 1) 0 = least p' n (i + 1) 0 := by omega
    refine ⟨?_, hcosts⟩
    rw [readBack, ht (i + 1) hi 0 hj, ht i (by omega) 0 hj, if_pos heq]
    exact hold
  | case6 later i j hcost ih =>
    obtain ⟨hold, hleast⟩ := ih (by omega) (by omega) hread
    have hprice := hsame i j ((readBack_suffix hread).subset List.mem_cons_self)
    have hle : least p' n (i + 1) (j + 1) ≤ least p n (i + 1) (j + 1) := least_lowered h hi hj
    have hstep := least_le_pair (p := p) (n := n) i j
    rw [ht' (i + 1) hi (j + 1) hj, ht' i (by omega) j (by omega)] at hcost
    have heq : least p n (i + 1) (j + 1) = least p n i j + p.pair (i + 1) (j + 1) := by omega
    have hcosts : least p n (i + 1) (j + 1) = least p' n (i + 1) (j + 1) := by omega
    refine ⟨?_, hcosts⟩
    rw [readBack, ht (i + 1) hi (j + 1) hj, ht i (by omega) j (by omega), if_pos heq]
    exact hold
  | case7 later i j hpair hcost ih =>
    simp only [dite_eq_ite] at ih
    obtain ⟨hold, hleast⟩ := ih hi (by omega) hread
    have hle : least p' n (i + 1) (j + 1) ≤ least p n (i + 1) (j + 1) := least_lowered h hi hj
    have hstep := least_le_insert (p := p) (n := n) (i + 1) j
    rw [ht' (i + 1) hi (j + 1) hj] at hcost hpair
    rw [ht' (i + 1) hi j (by omega), h.insertOrAppend] at hcost
    rw [ht' i (by omega) j (by omega)] at hpair
    have heq : least p n (i + 1) (j + 1) =
        least p n (i + 1) j + p.insertOrAppend n (i + 1) (j + 1) := by omega
    have hcosts : least p n (i + 1) (j + 1) = least p' n (i + 1) (j + 1) := by omega
    refine ⟨?_, hcosts⟩
    rw [readBack, ht (i + 1) hi (j + 1) hj, ht i (by omega) j (by omega), ht (i + 1) hi j (by omega),
      if_neg (not_pair_of_not_pair h hi hj (by omega) hpair), if_pos heq]
    exact hold
  | case8 later i j hpair hinsert hcost ih =>
    obtain ⟨hold, hleast⟩ := ih (by omega) hj hread
    have hle : least p' n (i + 1) (j + 1) ≤ least p n (i + 1) (j + 1) := least_lowered h hi hj
    have hleft : least p' n (i + 1) j ≤ least p n (i + 1) j := least_lowered h hi (by omega)
    have hstep := least_le_delete (p := p) (n := n) i (j + 1)
    have hstep' := least_le_insert (p := p') (n := n) (i + 1) j
    rw [ht' (i + 1) hi (j + 1) hj] at hcost hpair hinsert
    rw [ht' i (by omega) (j + 1) hj, h.delete] at hcost
    rw [ht' i (by omega) j (by omega)] at hpair
    rw [ht' (i + 1) hi j (by omega)] at hinsert
    rw [h.insertOrAppend] at hinsert hstep'
    have heq : least p n (i + 1) (j + 1) = least p n i (j + 1) + p.delete (i + 1) := by omega
    have hnot : ¬ least p n (i + 1) (j + 1) =
        least p n (i + 1) j + p.insertOrAppend n (i + 1) (j + 1) := by omega
    have hcosts : least p n (i + 1) (j + 1) = least p' n (i + 1) (j + 1) := by omega
    refine ⟨?_, hcosts⟩
    rw [readBack, ht (i + 1) hi (j + 1) hj, ht i (by omega) j (by omega), ht (i + 1) hi j (by omega),
      ht i (by omega) (j + 1) hj, if_neg (not_pair_of_not_pair h hi hj (by omega) hpair),
      if_neg hnot, if_pos heq]
    exact hold
  | case3 | case5 | case9 => cases hread

/-- The script for the new prices is the one for the old prices, unless it takes a pair whose price
fell. -/
theorem script?_lowered {steps : List Step} (hsteps : script? p' n m = some steps)
    (hsame : ∀ k l, .pair k l ∈ steps → p'.pair (k + 1) (l + 1) = p.pair (k + 1) (l + 1)) :
    script? p n m = some steps :=
  (readBack_lowered h (fun _ hi _ hj => cost_table p n hi hj)
    (fun _ hi _ hj => cost_table p' n hi hj) (Nat.le_refl n) (Nat.le_refl m) hsteps hsame).1

end UpgradeSafety.Alignment
