import UpgradeSafety.Alignment

/-!
# Least costs

The table of an alignment is filled row by row. Here the cost of a position is defined by recursion
on the position, without a table (`least`): a position is entered by a pair, an addition or a
deletion, and the cheapest of the three decides. That the table holds these costs (`cost_table`) is
an induction along a row inside one from row to row; each step only says that a cell is computed
from the cells of its three neighbours. From there on the table is not looked at any more, and what
is said of costs is an induction on `least`.

* `least_nonneg`: no cost is negative when no price is.
* `least_pos_of_excess`: a position is not free when some quantity that no free step raises is
  positive there. Counting the elements that have to be paired gives such a quantity.
* `least_pos_of_ahead`: the instance of it that counts how far a position is ahead in the updated
  list.
-/

namespace UpgradeSafety.Alignment

variable (p : Prices) (n : Nat)

/-- The least cost of the steps into a position. -/
def least : Nat → Nat → Int
  | 0, 0 => 0
  | 0, j + 1 => least 0 j + p.insertOrAppend n 0 (j + 1)
  | i + 1, 0 => least i 0 + p.delete (i + 1)
  | i + 1, j + 1 =>
    min (min (least i j + p.pair (i + 1) (j + 1))
      (least (i + 1) j + p.insertOrAppend n (i + 1) (j + 1)))
      (least i (j + 1) + p.delete (i + 1))
termination_by i j => i + j

/-- The least costs of the positions `(i, 0), …, (i, m)`. -/
def leastRow (m i : Nat) : List Int := (List.range' 0 (m + 1)).map (least p n i)

/-! ## The table -/

theorem firstRowFrom_eq (j k : Nat) :
    firstRowFrom p n (least p n 0 j) (j + 1) k = (List.range' (j + 1) k).map (least p n 0) := by
  induction k generalizing j with
  | zero => rfl
  | succ k ih =>
    have hstep : least p n 0 (j + 1) = least p n 0 j + p.insertOrAppend n 0 (j + 1) := by
      rw [least]
    rw [firstRowFrom, List.range'_succ, List.map_cons, ← ih (j + 1), hstep]

theorem firstRow_eq (m : Nat) : firstRow p n m = leastRow p n m 0 := by
  have h0 : least p n 0 0 = 0 := by rw [least]
  have hrest := firstRowFrom_eq p n 0 m
  rw [h0] at hrest
  rw [firstRow, leastRow, List.range'_succ, List.map_cons, hrest, h0]

theorem rowFrom_eq (i j k : Nat) :
    rowFrom p n (i + 1) (least p n (i + 1) j) (j + 1) ((List.range' j (k + 1)).map (least p n i)) =
      (List.range' (j + 1) k).map (least p n (i + 1)) := by
  induction k generalizing j with
  | zero => simp [rowFrom]
  | succ k ih =>
    have hstep : least p n (i + 1) (j + 1) =
        min (min (least p n i j + p.pair (i + 1) (j + 1))
          (least p n (i + 1) j + p.insertOrAppend n (i + 1) (j + 1)))
          (least p n i (j + 1) + p.delete (i + 1)) := by
      rw [least]
    have htail := ih (j + 1)
    rw [List.range'_succ, List.map_cons] at htail
    rw [List.range'_succ, List.map_cons, List.range'_succ, List.map_cons, rowFrom]
    rw [← hstep, htail, List.map_cons]

theorem nextRow_eq (m i : Nat) : nextRow p n (i + 1) (leastRow p n m i) = leastRow p n m (i + 1) := by
  have hfirst : least p n (i + 1) 0 = least p n i 0 + p.delete (i + 1) := by rw [least]
  have hhead : (leastRow p n m i).headD 0 = least p n i 0 := by
    rw [leastRow, List.range'_succ, List.map_cons, List.headD_cons]
  rw [nextRow, hhead, ← hfirst, leastRow, rowFrom_eq, leastRow, List.range'_succ, List.map_cons]

theorem rowsFrom_eq (m i k : Nat) :
    rowsFrom p n (i + 1) (leastRow p n m i) k = (List.range' (i + 1) k).map (leastRow p n m) := by
  induction k generalizing i with
  | zero => rfl
  | succ k ih => rw [rowsFrom, nextRow_eq, ih, List.range'_succ, List.map_cons]

/-- The table holds the least costs. -/
theorem cost_table {m i j : Nat} (hi : i ≤ n) (hj : j ≤ m) :
    (table p n m).cost i j = least p n i j := by
  have hrows : firstRow p n m :: rowsFrom p n 1 (firstRow p n m) n =
      (List.range' 0 (n + 1)).map (leastRow p n m) := by
    rw [firstRow_eq, rowsFrom_eq, List.range'_succ, List.map_cons]
  have hi' : i < n + 1 := by omega
  have hj' : j < m + 1 := by omega
  simp [Table.cost, table, hrows, leastRow, hi', hj']

/-! ## Bounds -/

/-- No step has a negative price. -/
structure Prices.Nonneg : Prop where
  pair : ∀ i j, 0 ≤ p.pair i j
  insert : ∀ i j, 0 ≤ p.insert i j
  delete : ∀ i, 0 ≤ p.delete i

variable {p} {n}

theorem Prices.Nonneg.insertOrAppend (hp : p.Nonneg) (i j : Nat) : 0 ≤ p.insertOrAppend n i j := by
  unfold Prices.insertOrAppend
  split
  · exact Int.le_refl 0
  · exact hp.insert i j

theorem least_nonneg (hp : p.Nonneg) (i j : Nat) : 0 ≤ least p n i j := by
  fun_induction least p n i j with
  | case1 => exact Int.le_refl 0
  | case2 j ih =>
    have := hp.insertOrAppend (n := n) 0 (j + 1)
    omega
  | case3 i ih =>
    have := hp.delete (i + 1)
    omega
  | case4 i j ihDiagonal ihLeft ihAbove =>
    have := hp.pair (i + 1) (j + 1)
    have := hp.insertOrAppend (n := n) (i + 1) (j + 1)
    have := hp.delete (i + 1)
    omega

/-- Where a quantity is positive that starts at zero at most and that no free step raises, the cost
is positive. -/
theorem least_pos_of_excess (excess : Nat → Nat → Int) (hp : p.Nonneg) (h0 : excess 0 0 ≤ 0)
    (hpair : ∀ i j, i < n → p.pair (i + 1) (j + 1) = 0 → excess (i + 1) (j + 1) ≤ excess i j)
    (hinsert : ∀ i j, i ≤ n → p.insertOrAppend n i (j + 1) = 0 → excess i (j + 1) ≤ excess i j)
    (hdelete : ∀ i j, i < n → p.delete (i + 1) = 0 → excess (i + 1) j ≤ excess i j)
    {i j : Nat} (hi : i ≤ n) (h : 0 < excess i j) : 0 < least p n i j := by
  -- a step that raises the quantity costs something, and the steps before it cost nothing less
  have hstep {q c e e' : Int} (hq : 0 ≤ q) (hc : 0 ≤ c) (hfree : q = 0 → e' ≤ e) (he' : 0 < e')
      (hbefore : 0 < e → 0 < c) : 0 < c + q := by
    rcases Int.lt_or_eq_of_le hq with hpos | hzero
    · omega
    · have := hfree hzero.symm
      have := hbefore (by omega)
      omega
  fun_induction least p n i j with
  | case1 => omega
  | case2 j ih =>
    exact hstep (hp.insertOrAppend 0 (j + 1)) (least_nonneg hp 0 j) (hinsert 0 j hi) h (ih hi)
  | case3 i ih =>
    exact hstep (hp.delete (i + 1)) (least_nonneg hp i 0) (hdelete i 0 hi) h (ih (by omega))
  | case4 i j ihDiagonal ihLeft ihAbove =>
    have hDiagonal := hstep (hp.pair (i + 1) (j + 1)) (least_nonneg (n := n) hp i j)
      (hpair i j hi) h (ihDiagonal (by omega))
    have hLeft := hstep (hp.insertOrAppend (i + 1) (j + 1)) (least_nonneg (n := n) hp (i + 1) j)
      (hinsert (i + 1) j hi) h (ihLeft hi)
    have hAbove := hstep (hp.delete (i + 1)) (least_nonneg (n := n) hp i (j + 1))
      (hdelete i (j + 1) hi) h (ihAbove (by omega))
    omega

/-- Where every insertion before the end costs something, a position with more updated than former
elements before it does. -/
theorem least_pos_of_ahead (hp : p.Nonneg)
    (hinsert : ∀ i j, j < n → p.insertOrAppend n i (j + 1) ≠ 0) {i j : Nat} (hi : i < n)
    (hij : i < j) : 0 < least p n i j := by
  refine least_pos_of_excess (fun i j => (min j n : Nat) - (i : Nat)) hp (by simp) ?_ ?_ ?_
    (by omega) (by omega)
  · intro i j _ _
    omega
  · intro i j _ hfree
    by_cases hj : j < n
    · exact absurd hfree (hinsert i j hj)
    · omega
  · intro i j _ _
    omega

end UpgradeSafety.Alignment
