import UpgradeSafety.Proofs.Numeral.ReadBack

/-!
# Exact values of floats

Floats are compared by their exact values: two finite floats are the same when their values are
(`same_finite_iff`), and a float equals a whole number when that is its value
(`wholeNumber?_finite_iff`).

A float is a mantissa and an exponent of two, and the mantissa has its leading bit unless the
exponent is the least one. So the value determines both (`IsFloat.unique`): if the exponents
differed, the mantissa of the smaller one would be at least twice the other one, which has its
leading bit, and so too great. The sign is told from the value, except that zero has two; these are
the same in a comparison, and so the statement is about values and not about bits.

To be a whole number means that the denominator, a power of two, divides the mantissa. This is how
an integer in a document is compared with a float there, exactly and without rounding, however
great both of them are.
-/

namespace UpgradeSafety.Numeral

/-- The mantissa and the exponent of a float follow from its value. -/
theorem IsFloat.unique {m m' : Nat} {q q' : Int} (h : IsFloat m q) (h' : IsFloat m' q')
    (hm : 0 < m) (heq : (m : ℚ) * 2 ^ q = m' * 2 ^ q') : m = m' ∧ q = q' := by
  -- of two different exponents the greater one belongs to a float with a leading bit
  have hle : ∀ {n n' : Nat} {p p' : Int}, IsFloat n p → IsFloat n' p' → 0 < n →
      (n : ℚ) * 2 ^ p = n' * 2 ^ p' → p' ≤ p := by
    intro n n' p p' hn hn' hpos hvalue
    by_contra hlt
    obtain ⟨k, hk⟩ := Int.eq_ofNat_of_zero_le (show 0 ≤ p' - p - 1 by omega)
    have hp' : p' = p + (k + 1 : Nat) := by push_cast; omega
    have hunit : (0 : ℚ) < 2 ^ p := by positivity
    rw [hp', zpow_add₀ two_ne_zero, zpow_natCast, mul_comm (2 ^ p : ℚ), ← mul_assoc] at hvalue
    have hmantissa := mul_right_cancel₀ hunit.ne' hvalue
    have hmantissa : n = n' * 2 ^ (k + 1) := by exact_mod_cast hmantissa
    have hlead : 2 ^ 52 ≤ n' := hn'.normal.resolve_right fun hleast => by
      have := hn.least
      omega
    have hgrow : n' * 2 ≤ n' * 2 ^ (k + 1) := by
      rw [pow_succ']
      exact Nat.mul_le_mul_left n' (Nat.le_mul_of_pos_right 2 (Nat.two_pow_pos k))
    have := hn.mantissa
    omega
  have hunit (p : Int) : (0 : ℚ) < 2 ^ p := by positivity
  have hpos : (0 : ℚ) < m' * 2 ^ q' := by
    rw [← heq]
    have hm' : (0 : ℚ) < m := by exact_mod_cast hm
    exact mul_pos hm' (hunit q)
  have hm' : 0 < m' := by
    have := pos_of_mul_pos_left hpos (hunit q').le
    exact_mod_cast this
  have hq : q = q' := le_antisymm (hle h' h hm' heq.symm) (hle h h' hm heq)
  subst hq
  exact ⟨by exact_mod_cast mul_right_cancel₀ (hunit q).ne' heq, rfl⟩

namespace Binary64

/-- The value of a finite float. -/
def signedValue (negative : Bool) (m : Nat) (q : Int) : ℚ :=
  if negative then -(m * 2 ^ q) else m * 2 ^ q

variable {negative negative' : Bool} {m m' : Nat} {q q' : Int}

theorem same_finite_iff (h : IsFloat m q) (h' : IsFloat m' q') :
    (finite negative m q).same (finite negative' m' q') = true ↔
      signedValue negative m q = signedValue negative' m' q' := by
  have hunit (p : Int) : (0 : ℚ) < 2 ^ p := by positivity
  have hnonneg (n : Nat) (p : Int) : (0 : ℚ) ≤ n * 2 ^ p := by positivity
  have hzero (n : Nat) (p : Int) : (n : ℚ) * 2 ^ p = 0 ↔ n = 0 := by
    rw [mul_eq_zero, or_iff_left (hunit p).ne', Nat.cast_eq_zero]
  rw [same, Bool.or_eq_true, Bool.and_eq_true, Bool.and_eq_true, Bool.and_eq_true, beq_iff_eq,
    beq_iff_eq, beq_iff_eq, beq_iff_eq, beq_iff_eq]
  constructor
  · rintro (⟨rfl, rfl⟩ | ⟨⟨rfl, rfl⟩, rfl⟩)
    · simp [signedValue]
    · rfl
  · intro heq
    by_cases hm : m = 0
    · left
      refine ⟨hm, ?_⟩
      have : (m' : ℚ) * 2 ^ q' = 0 := by
        unfold signedValue at heq
        rw [hm] at heq
        split at heq <;> split at heq <;> simp_all
      exact (hzero m' q').mp this
    · right
      have hpos : (0 : ℚ) < m * 2 ^ q := lt_of_le_of_ne (hnonneg m q) fun h => hm ((hzero m q).mp h.symm)
      have hother := hnonneg m' q'
      have hsign : negative = negative' := by
        unfold signedValue at heq
        cases negative <;> cases negative' <;> simp only [Bool.false_eq_true, if_true, if_false] at heq
        · rfl
        · linarith
        · linarith
        · rfl
      subst hsign
      have hvalue : (m : ℚ) * 2 ^ q = m' * 2 ^ q' := by
        unfold signedValue at heq
        split at heq
        · exact neg_injective heq
        · exact heq
      obtain ⟨rfl, rfl⟩ := h.unique h' (Nat.pos_of_ne_zero hm) hvalue
      exact ⟨⟨rfl, rfl⟩, rfl⟩

theorem wholeNumber?_finite_iff {n : Int} :
    (finite negative m q).wholeNumber? = some n ↔ signedValue negative m q = n := by
  have hsigned (k : Nat) : (if negative then -(k : Int) else (k : Int)) = n ↔
      (if negative then -(k : ℚ) else (k : ℚ)) = n := by
    split <;> norm_cast
  unfold wholeNumber? signedValue
  dsimp only
  split
  · rename_i hq
    obtain ⟨k, rfl⟩ := Int.eq_ofNat_of_zero_le hq
    have hcast : ((m * Nat.pow 2 k : Nat) : ℚ) = m * 2 ^ k := by
      rw [Nat.cast_mul]
      exact congrArg _ (Nat.cast_pow 2 k)
    rw [Option.some.injEq, Int.toNat_natCast, hsigned, hcast, zpow_natCast]
  · rename_i hq
    obtain ⟨k, hk⟩ := Int.eq_ofNat_of_zero_le (show 0 ≤ -q by omega)
    obtain rfl : q = -(k : Int) := by omega
    have hpow : (0 : ℚ) < 2 ^ k := by positivity
    rw [neg_neg, Int.toNat_natCast, zpow_neg, zpow_natCast, ← div_eq_mul_inv]
    split
    · rename_i hdvd
      obtain ⟨a, rfl⟩ := Nat.dvd_of_mod_eq_zero hdvd
      have hdiv : Nat.pow 2 k * a / Nat.pow 2 k = a := Nat.mul_div_cancel_left a (Nat.two_pow_pos k)
      have hcast : ((Nat.pow 2 k * a : Nat) : ℚ) / 2 ^ k = a := by
        rw [div_eq_iff hpow.ne', Nat.cast_mul, mul_comm]
        exact congrArg _ (Nat.cast_pow 2 k)
      rw [Option.some.injEq, hdiv, hsigned, hcast]
    · rename_i hdvd
      refine iff_of_false nofun fun heq => hdvd ?_
      have habs : (m : ℚ) / 2 ^ k = n.natAbs := by
        have hnonneg : (0 : ℚ) ≤ m / 2 ^ k := by positivity
        have hcast : ((n.natAbs : Nat) : ℚ) = |(n : ℚ)| := by
          rw [Nat.cast_natAbs, Int.cast_abs]
        rw [hcast, ← heq]
        split
        · rw [abs_neg, abs_of_nonneg hnonneg]
        · rw [abs_of_nonneg hnonneg]
      rw [div_eq_iff hpow.ne'] at habs
      have : m = n.natAbs * 2 ^ k := by exact_mod_cast habs
      rw [this]
      exact Nat.mul_mod_left _ _

end Binary64

end UpgradeSafety.Numeral
