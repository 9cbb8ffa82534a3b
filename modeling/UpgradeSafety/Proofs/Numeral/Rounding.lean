import Mathlib
import UpgradeSafety.Numeral.Fraction

/-!
# The float nearest to a fraction

The values of fractions as rational numbers. A fraction between the two halfway points around a
float is rounded to that float (`Binary64.ofFraction_eq`); the halfway points themselves belong to
it when its mantissa is even.

Rounding is done with whole numbers: the exponent of the leading bit is found, the fraction is
divided by the unit of the last bit, and the quotient is rounded to the nearest whole number, at a
half to the even one. What each of these steps does to the value is one lemma
(`binaryExponent_spec`, `value_divPow2`, `roundHalfEven_eq`), so that the theorem is about rational
numbers.

The float below a power of two is nearer than the one above it. That is why the lower halfway point
is given in quarters of the last bit (`lowerQuarters`), and a fraction below the least float with
an exponent is treated apart: the unit is half as great there, and it is rounded up to the float
(`roundHalfEven_below`).
-/

namespace UpgradeSafety.Numeral

namespace Fraction

variable {x : Fraction}

/-- The value of a fraction. -/
def value (x : Fraction) : ℚ := x.num / x.den

theorem value_scaled (n : Nat) (q : Int) : (scaled n q).value = n * (2 : ℚ) ^ q := by
  unfold scaled value
  split
  · rename_i h
    obtain ⟨k, rfl⟩ := Int.eq_ofNat_of_zero_le h
    simp
  · rename_i h
    obtain ⟨k, hk⟩ := Int.eq_ofNat_of_zero_le (show 0 ≤ -q by omega)
    obtain rfl : q = -(k : Int) := by omega
    simp [div_eq_mul_inv]

theorem scaled_den_pos (n : Nat) (q : Int) : 0 < (scaled n q).den := by
  unfold scaled
  split
  · exact Nat.one_pos
  · exact Nat.two_pow_pos _

/-- Dividing by a power multiplies the denominator, or the numerator when the exponent is negative. -/
theorem value_divPow {base : Nat} (k : Int) {y : Fraction} (hy : y =
      if 0 ≤ k then ⟨x.num, x.den * base ^ k.toNat⟩ else ⟨x.num * base ^ (-k).toNat, x.den⟩) :
    y.value = x.value / (base : ℚ) ^ k := by
  subst hy
  unfold value
  split
  · rename_i h
    obtain ⟨j, rfl⟩ := Int.eq_ofNat_of_zero_le h
    simp [div_div]
  · rename_i h
    obtain ⟨j, hj⟩ := Int.eq_ofNat_of_zero_le (show 0 ≤ -k by omega)
    obtain rfl : k = -(j : Int) := by omega
    simp [div_mul_eq_mul_div]

theorem value_divPow2 (k : Int) : (x.divPow2 k).value = x.value / (2 : ℚ) ^ k :=
  value_divPow k rfl

theorem divPow2_den_pos (h : 0 < x.den) (k : Int) : 0 < (x.divPow2 k).den := by
  unfold divPow2
  split
  · exact Nat.mul_pos h (Nat.two_pow_pos _)
  · exact h

theorem value_divPow10 (k : Int) : (x.divPow10 k).value = x.value / (10 : ℚ) ^ k :=
  value_divPow k rfl

theorem divPow10_den_pos (h : 0 < x.den) (k : Int) : 0 < (x.divPow10 k).den := by
  unfold divPow10
  split
  · exact Nat.mul_pos h (Nat.pow_pos (by decide))
  · exact h

/-! ## Comparisons -/

theorem one_le_value_iff (hx : 0 < x.den) : 1 ≤ x.value ↔ x.den ≤ x.num := by
  unfold value
  rw [one_le_div (by exact_mod_cast hx)]
  exact_mod_cast Iff.rfl

/-! ## Exponents -/

/-- The exponent of the leading bit of a fraction. -/
theorem binaryExponent_spec (hnum : 0 < x.num) (hden : 0 < x.den) :
    (2 : ℚ) ^ x.binaryExponent ≤ x.value ∧ x.value < (2 : ℚ) ^ (x.binaryExponent + 1) := by
  have hnum_le : ((2 : ℚ) ^ x.num.log2) ≤ x.num := by exact_mod_cast Nat.log2_self_le hnum.ne'
  have hnum_lt : (x.num : ℚ) < (2 : ℚ) ^ (x.num.log2 + 1) := by exact_mod_cast Nat.lt_log2_self
  have hden_le : ((2 : ℚ) ^ x.den.log2) ≤ x.den := by exact_mod_cast Nat.log2_self_le hden.ne'
  have hden_lt : (x.den : ℚ) < (2 : ℚ) ^ (x.den.log2 + 1) := by exact_mod_cast Nat.lt_log2_self
  have hden_pos : (0 : ℚ) < x.den := by exact_mod_cast hden
  have hupper : x.value < (2 : ℚ) ^ ((x.num.log2 : Int) - x.den.log2 + 1) := by
    rw [value, div_lt_iff₀ hden_pos]
    calc (x.num : ℚ) < (2 : ℚ) ^ (x.num.log2 + 1) := hnum_lt
      _ = (2 : ℚ) ^ ((x.num.log2 : Int) - x.den.log2 + 1) * (2 : ℚ) ^ x.den.log2 := by
          rw [← zpow_natCast, ← zpow_natCast, ← zpow_add₀ two_ne_zero]
          congr 1
          push_cast
          ring
      _ ≤ (2 : ℚ) ^ ((x.num.log2 : Int) - x.den.log2 + 1) * x.den := by gcongr
  have hlower : (2 : ℚ) ^ ((x.num.log2 : Int) - x.den.log2 - 1) ≤ x.value := by
    rw [value, le_div_iff₀ hden_pos]
    calc (2 : ℚ) ^ ((x.num.log2 : Int) - x.den.log2 - 1) * x.den
        ≤ (2 : ℚ) ^ ((x.num.log2 : Int) - x.den.log2 - 1) * (2 : ℚ) ^ (x.den.log2 + 1) := by gcongr
      _ = (2 : ℚ) ^ x.num.log2 := by
          rw [← zpow_natCast, ← zpow_natCast, ← zpow_add₀ two_ne_zero]
          congr 1
          push_cast
          ring
      _ ≤ x.num := hnum_le
  have hone := one_le_value_iff (divPow2_den_pos hden ((x.num.log2 : Int) - x.den.log2))
  rw [value_divPow2, one_le_div (by positivity)] at hone
  unfold binaryExponent
  dsimp only
  split
  · rename_i h
    exact ⟨hone.mpr h, hupper⟩
  · rename_i h
    refine ⟨hlower, ?_⟩
    rw [sub_add_cancel]
    exact lt_of_not_ge fun hge => h (hone.mp hge)

/-! ## Rounding -/

/-- A number within a half of a whole number is rounded to it; at a half the even one is taken. -/
theorem roundHalfEven_eq {m : Nat} (hden : 0 < x.den)
    (hlow : (m : ℚ) - 1 / 2 < x.value ∨ (m : ℚ) - 1 / 2 = x.value ∧ m % 2 = 0)
    (hhigh : x.value < m + 1 / 2 ∨ x.value = m + 1 / 2 ∧ m % 2 = 0) :
    x.roundHalfEven = m := by
  have hden_pos : (0 : ℚ) < x.den := by exact_mod_cast hden
  have hlow' : 2 * m * x.den < 2 * x.num + x.den ∨
      (2 * m * x.den = 2 * x.num + x.den ∧ m % 2 = 0) := by
    refine hlow.imp (fun h => ?_) fun ⟨h, heven⟩ => ⟨?_, heven⟩
    · rw [value, lt_div_iff₀ hden_pos] at h
      have : (2 * m * x.den : ℚ) < 2 * x.num + x.den := by linarith
      exact_mod_cast this
    · rw [value, eq_div_iff hden_pos.ne'] at h
      have : (2 * m * x.den : ℚ) = 2 * x.num + x.den := by linarith
      exact_mod_cast this
  have hhigh' : 2 * x.num < 2 * m * x.den + x.den ∨
      (2 * x.num = 2 * m * x.den + x.den ∧ m % 2 = 0) := by
    refine hhigh.imp (fun h => ?_) fun ⟨h, heven⟩ => ⟨?_, heven⟩
    · rw [value, div_lt_iff₀ hden_pos] at h
      have : (2 * x.num : ℚ) < 2 * m * x.den + x.den := by linarith
      exact_mod_cast this
    · rw [value, div_eq_iff hden_pos.ne'] at h
      have : (2 * x.num : ℚ) = 2 * m * x.den + x.den := by linarith
      exact_mod_cast this
  have hdiv := Nat.div_add_mod x.num x.den
  have hmod := Nat.mod_lt x.num hden
  unfold roundHalfEven
  dsimp only
  generalize x.num / x.den = d at *
  generalize x.num % x.den = r at *
  have hprod : 2 * m * x.den = 2 * (x.den * m) := by ring
  rw [hprod] at hlow' hhigh'
  -- the whole part of the fraction is that number or the one below it
  have hm : m = d ∨ m = d + 1 := by
    by_contra hne
    rcases (by omega : m + 1 ≤ d ∨ d + 2 ≤ m) with hlt | hgt
    · have := Nat.mul_le_mul_left x.den hlt
      rw [Nat.mul_add] at this
      omega
    · have := Nat.mul_le_mul_left x.den hgt
      rw [Nat.mul_add] at this
      omega
  rcases hm with rfl | rfl
  · split
    · rfl
    · split <;> omega
  · rw [Nat.mul_add] at hlow' hhigh'
    split
    · omega
    · split <;> omega

end Fraction

/-! ## Rounding to floats -/

/-- A mantissa and an exponent that a float has. -/
structure IsFloat (m : Nat) (q : Int) : Prop where
  mantissa : m < 2 ^ 53
  least : -1074 ≤ q
  greatest : q ≤ 971
  normal : 2 ^ 52 ≤ m ∨ q = -1074

/-- The lower halfway point of a float, in quarters of its last bit: the float below the least one
with an exponent is nearer. -/
def lowerQuarters (m : Nat) (q : Int) : Nat :=
  if m = Nat.pow 2 52 && q != -1074 then 4 * m - 1 else 4 * m - 2

/-- A number lies between the halfway points around a float, or on one if the mantissa is even. -/
structure RoundsTo (v : ℚ) (m : Nat) (q : Int) : Prop where
  low : (lowerQuarters m q : ℚ) * 2 ^ (q - 2) < v ∨
    (lowerQuarters m q : ℚ) * 2 ^ (q - 2) = v ∧ m % 2 = 0
  high : v < (4 * m + 2 : ℚ) * 2 ^ (q - 2) ∨ v = (4 * m + 2 : ℚ) * 2 ^ (q - 2) ∧ m % 2 = 0

theorem lowerQuarters_ge {m : Nat} (hm : 0 < m) (q : Int) :
    (4 * m - 2 : ℚ) ≤ lowerQuarters m q := by
  have hge : 4 * m ≤ lowerQuarters m q + 2 := by
    unfold lowerQuarters
    split <;> omega
  have : (4 * m : ℚ) ≤ lowerQuarters m q + 2 := by exact_mod_cast hge
  linarith

section

variable {v : ℚ} {m : Nat} {q : Int}

theorem zpow_quarter (q : Int) : (2 : ℚ) ^ (q - 2) = 2 ^ q / 4 := by
  rw [zpow_sub₀ two_ne_zero]
  norm_num

theorem RoundsTo.le_high (h : RoundsTo v m q) : v ≤ (m + 1 / 2) * 2 ^ q := by
  have hhigh : v ≤ (4 * m + 2 : ℚ) * 2 ^ (q - 2) := h.high.elim le_of_lt fun h => h.1.le
  rw [zpow_quarter] at hhigh
  linarith

theorem RoundsTo.low_le (h : RoundsTo v m q) :
    (lowerQuarters m q : ℚ) / 4 * 2 ^ q ≤ v := by
  have hlow : (lowerQuarters m q : ℚ) * 2 ^ (q - 2) ≤ v := h.low.elim le_of_lt fun h => h.1.le
  rw [zpow_quarter] at hlow
  linarith

theorem RoundsTo.pos (h : RoundsTo v m q) (hm : 0 < m) : 0 < v := by
  have hpow : (0 : ℚ) < 2 ^ q := by positivity
  have hm' : (1 : ℚ) ≤ m := by exact_mod_cast hm
  have := lowerQuarters_ge hm q
  exact lt_of_lt_of_le (by apply mul_pos _ hpow; linarith) h.low_le

end

/-- A fraction that rounds to a float, divided by the unit of that float. -/
theorem roundHalfEven_divPow2 {x : Fraction} {m : Nat} {q : Int} (hden : 0 < x.den) (hm : 0 < m)
    (h : RoundsTo x.value m q) : (x.divPow2 q).roundHalfEven = m := by
  have hpow : (0 : ℚ) < 2 ^ q := by positivity
  have hge := lowerQuarters_ge hm q
  refine Fraction.roundHalfEven_eq (Fraction.divPow2_den_pos hden q) ?_ ?_
  · rw [Fraction.value_divPow2, lt_div_iff₀ hpow, eq_div_iff hpow.ne']
    rcases h.low with hlow | ⟨hlow, heven⟩
    · left
      rw [zpow_quarter] at hlow
      nlinarith
    · rw [zpow_quarter] at hlow
      rcases hge.lt_or_eq with hlt | heq
      · left
        nlinarith
      · right
        refine ⟨?_, heven⟩
        rw [← hlow, ← heq]
        ring
  · rw [Fraction.value_divPow2, div_lt_iff₀ hpow, div_eq_iff hpow.ne']
    refine h.high.imp (fun hhigh => ?_) fun ⟨hhigh, heven⟩ => ⟨?_, heven⟩
    · rw [zpow_quarter] at hhigh
      linarith
    · rw [hhigh, zpow_quarter]
      ring

/-- Below the least float with an exponent the unit is half as great: what rounds to that float is
rounded up to it. -/
theorem roundHalfEven_below {x : Fraction} {q : Int} (hden : 0 < x.den)
    (h : RoundsTo x.value (2 ^ 52) q) (hq : q ≠ -1074) (hlt : x.value < 2 ^ (q + 52)) :
    (x.divPow2 (q - 1)).roundHalfEven = 2 ^ 53 := by
  have hpow : (0 : ℚ) < 2 ^ (q - 1) := by positivity
  have hhalf : (2 : ℚ) ^ q = 2 * 2 ^ (q - 1) := by
    rw [← zpow_one_add₀ two_ne_zero]
    congr 1
    ring
  have hbelow : lowerQuarters (2 ^ 52) q = 2 ^ 54 - 1 := by
    unfold lowerQuarters
    rw [if_pos (by simpa using hq)]
    norm_num
  have hlow := h.low_le
  rw [hbelow, hhalf] at hlow
  rw [zpow_add₀ two_ne_zero, hhalf] at hlt
  refine Fraction.roundHalfEven_eq (Fraction.divPow2_den_pos hden _) ?_ ?_
  · rw [Fraction.value_divPow2, lt_div_iff₀ hpow, eq_div_iff hpow.ne']
    rcases (show (2 ^ 53 - 1 / 2 : ℚ) * 2 ^ (q - 1) ≤ x.value by push_cast at hlow; linarith).lt_or_eq
      with hlt | heq
    · left
      push_cast
      exact hlt
    · right
      refine ⟨?_, by norm_num⟩
      push_cast
      exact heq
  · rw [Fraction.value_divPow2, div_lt_iff₀ hpow]
    left
    push_cast
    norm_num at hlt ⊢
    linarith

/-- What rounds to a float is read as that float. -/
theorem ofFraction_eq {x : Fraction} {m : Nat} {q : Int} (negative : Bool) (hden : 0 < x.den)
    (hfloat : IsFloat m q) (hm : 0 < m) (h : RoundsTo x.value m q) :
    Binary64.ofFraction negative x = .finite negative m q := by
  have hpow : (0 : ℚ) < 2 ^ q := by positivity
  have hpos := h.pos hm
  have hnum : 0 < x.num := by
    by_contra hzero
    have hzero : x.num = 0 := by omega
    simp [Fraction.value, hzero] at hpos
  obtain ⟨hexp, hexp'⟩ := Fraction.binaryExponent_spec hnum hden
  have hm' : (m : ℚ) + 1 ≤ 2 ^ 53 := by exact_mod_cast hfloat.mantissa
  -- the leading bit is at most that of the float
  have hupper : x.binaryExponent < q + 53 := by
    have hlt : x.value < 2 ^ (q + 53) := by
      rw [zpow_add₀ two_ne_zero]
      calc x.value ≤ (m + 1 / 2) * 2 ^ q := h.le_high
        _ < 2 ^ q * 2 ^ (53 : Int) := by
          rw [mul_comm]
          apply mul_lt_mul_of_pos_left _ hpow
          norm_num at hm' ⊢
          linarith
    exact (zpow_lt_zpow_iff_right₀ one_lt_two).mp (lt_of_le_of_lt hexp hlt)
  have hgreatest := hfloat.greatest
  have hleast := hfloat.least
  unfold Binary64.ofFraction
  dsimp only
  rcases (by omega : max (x.binaryExponent - 52) (-1074) = q ∨
    (x.binaryExponent < q + 52 ∧ -1074 < q)) with hunit | ⟨hbelow, hq⟩
  · rw [hunit, roundHalfEven_divPow2 hden hm h]
    have hne : m ≠ Nat.pow 2 53 := by
      have := hfloat.mantissa
      exact Nat.ne_of_lt this
    rw [if_neg hne]
    dsimp only
    rw [if_neg (by omega)]
  · have hnormal : 2 ^ 52 ≤ m := hfloat.normal.resolve_right (by omega)
    have hlt : x.value < 2 ^ (q + 52) :=
      lt_of_lt_of_le hexp' (zpow_le_zpow_right₀ one_le_two (by omega))
    have hlow := h.low_le
    -- only the least float with its exponent has a halfway point below its leading bit
    have heq : m = 2 ^ 52 := by
      by_contra hne
      have hge : (4503599627370497 : ℚ) ≤ m := by
        exact_mod_cast Nat.lt_of_le_of_ne hnormal (Ne.symm hne)
      have hquarters : (4503599627370496 : ℚ) ≤ lowerQuarters m q / 4 := by
        linarith [lowerQuarters_ge hm q]
      have hmul := mul_le_mul_of_nonneg_right hquarters hpow.le
      rw [zpow_add₀ two_ne_zero] at hlt
      norm_num at hlt
      linarith
    subst heq
    have hexact : x.binaryExponent = q + 51 := by
      have hge : (2 : ℚ) ^ (q + 51) ≤ x.value := by
        have hbelow : lowerQuarters (2 ^ 52) q = 2 ^ 54 - 1 := by
          unfold lowerQuarters
          rw [if_pos (by simp; omega)]
          norm_num
        rw [hbelow] at hlow
        rw [zpow_add₀ two_ne_zero]
        push_cast at hlow
        norm_num at hlow ⊢
        linarith
      have := (zpow_lt_zpow_iff_right₀ one_lt_two).mp (lt_of_le_of_lt hge hexp')
      omega
    have hunit : max (x.binaryExponent - 52) (-1074) = q - 1 := by omega
    rw [hunit, roundHalfEven_below hden h (by omega) hlt,
      if_pos (show 2 ^ 53 = Nat.pow 2 53 from rfl)]
    dsimp only
    rw [if_neg (by omega), sub_add_cancel]
    rfl

end UpgradeSafety.Numeral
