import UpgradeSafety.Numeral.Shortest
import UpgradeSafety.Proofs.Numeral.Rounding

/-!
# Floats that are read back

The fewest digits that are chosen for a float are rounded to that float (`shortest_roundsTo`):
seventeen digits always suffice. A decimal that is rounded to a float is read as that float
(`floatOfDecimal_eq`), and the bits of a float are those of its exact value
(`Binary64.toFloat_of_ofFloat`).

The search for the digits goes from one digit to seventeen and takes the first nearest decimal that
reads back as the float, so what has to be shown is that it finds one. With seventeen digits a step
of the decimal grid is smaller than the distance between the float and its halfway points
(`roundsTo_of_near`), and the nearest decimal is at most half a step away.

Reading a decimal brings it to a fraction and rounds that. Only the range has to be looked at
before: a decimal that rounds to a finite float is neither too great nor too small for the reader
to take the fraction.
-/

namespace UpgradeSafety.Numeral

/-! ## Decimal exponents -/

namespace Fraction

variable {x : Fraction}

theorem pow_length_toDigits {n : Nat} (hn : 0 < n) :
    10 ^ ((Nat.toDigits 10 n).length - 1) ≤ n ∧ n < 10 ^ (Nat.toDigits 10 n).length := by
  have hpos : 0 < (Nat.toDigits 10 n).length := Nat.length_toDigits_pos
  have hlt := (Nat.length_toDigits_le_iff (b := 10) (by decide) hpos).mp (le_refl _)
  refine ⟨?_, hlt⟩
  by_contra hcontra
  rcases Nat.eq_zero_or_pos ((Nat.toDigits 10 n).length - 1) with hzero | hone
  · rw [hzero] at hcontra
    omega
  · have := (Nat.length_toDigits_le_iff (b := 10) (by decide) hone).mpr (Nat.lt_of_not_le hcontra)
    omega

theorem leadingExponent_of_ge_one (hden : 0 < x.den) (h : x.den ≤ x.num) :
    (10 : ℚ) ^ x.leadingExponent ≤ x.value ∧ x.value < (10 : ℚ) ^ (x.leadingExponent + 1) := by
  have hden_pos : (0 : ℚ) < x.den := by exact_mod_cast hden
  have hwhole : 0 < x.num / x.den := Nat.div_pos h hden
  obtain ⟨hge, hlt⟩ := pow_length_toDigits hwhole
  have hpos : 0 < (Nat.toDigits 10 (x.num / x.den)).length := Nat.length_toDigits_pos
  unfold leadingExponent
  rw [if_pos h]
  generalize (Nat.toDigits 10 (x.num / x.den)).length = l at *
  obtain ⟨k, rfl⟩ : ∃ k, l = k + 1 := ⟨l - 1, by omega⟩
  have hlower : 10 ^ k * x.den ≤ x.num := (Nat.le_div_iff_mul_le hden).mp hge
  have hupper : x.num < 10 ^ (k + 1) * x.den := (Nat.div_lt_iff_lt_mul hden).mp hlt
  have hexp : ((k + 1 : Nat) : Int) - 1 = (k : Int) := by push_cast; ring
  rw [hexp, value, le_div_iff₀ hden_pos, div_lt_iff₀ hden_pos]
  constructor
  · exact_mod_cast hlower
  · exact_mod_cast hupper

theorem one_le_pow_scaled (k : Nat) : 1 ≤ (2 : ℚ) ^ (-(k : Int)) * 10 ^ k := by
  have hten : (10 : ℚ) ^ k = 2 ^ k * 5 ^ k := by
    rw [← mul_pow]
    norm_num
  rw [hten, zpow_neg, zpow_natCast, ← mul_assoc, inv_mul_cancel₀ (by positivity), one_mul]
  exact one_le_pow₀ (by norm_num)

theorem leadingExponent_of_lt_one (hden : 0 < x.den) (hlt : x.num < x.den)
    (hleast : (2 : ℚ) ^ (-1074 : Int) ≤ x.value) :
    (10 : ℚ) ^ x.leadingExponent ≤ x.value ∧ x.value < (10 : ℚ) ^ (x.leadingExponent + 1) := by
  have hden_pos : (0 : ℚ) < x.den := by exact_mod_cast hden
  unfold leadingExponent
  rw [if_neg (Nat.not_le.mpr hlt)]
  split
  · rename_i j hj
    obtain ⟨hfit, -, hfirst⟩ := List.find?_range_eq_some.mp hj
    have hfit : x.den ≤ x.num * 10 ^ j := of_decide_eq_true hfit
    have hpow : (0 : ℚ) < 10 ^ j := by positivity
    have hj0 : 0 < j := by
      rcases Nat.eq_zero_or_pos j with rfl | hj0
      · omega
      · exact hj0
    have hbefore : x.num * 10 ^ (j - 1) < x.den := by
      have := hfirst (j - 1) (by omega)
      simpa using this
    obtain ⟨k, rfl⟩ : ∃ k, j = k + 1 := ⟨j - 1, by omega⟩
    rw [Nat.add_sub_cancel] at hbefore
    have hexp : -((k + 1 : Nat) : Int) + 1 = -(k : Int) := by push_cast; ring
    rw [hexp, zpow_neg, zpow_neg, zpow_natCast, zpow_natCast, value, inv_eq_one_div, inv_eq_one_div,
      div_le_div_iff₀ hpow hden_pos, div_lt_div_iff₀ hden_pos (by positivity), one_mul]
    constructor
    · exact_mod_cast hfit
    · exact_mod_cast hbefore
  · rename_i hnone
    exfalso
    obtain ⟨k, hk, hleast⟩ : ∃ k : Nat, k < 1100 ∧ (2 : ℚ) ^ (-(k : Int)) ≤ x.value :=
      ⟨1074, by decide, hleast⟩
    have hmiss : x.num * 10 ^ k < x.den := Nat.lt_of_not_le fun hle =>
      List.find?_eq_none.mp hnone k (List.mem_range.mpr hk) (decide_eq_true hle)
    have hlarge := one_le_pow_scaled k
    have hsmall : (2 : ℚ) ^ (-(k : Int)) * 10 ^ k < 1 := by
      calc (2 : ℚ) ^ (-(k : Int)) * 10 ^ k ≤ x.value * 10 ^ k := by gcongr
        _ = (x.num * 10 ^ k : ℚ) / x.den := by rw [value, div_mul_eq_mul_div]
        _ < 1 := by
          rw [div_lt_one hden_pos]
          exact_mod_cast hmiss
    exact absurd hsmall (not_lt.mpr hlarge)

/-- The exponent of the leading decimal digit of a fraction that is no less than the least float. -/
theorem leadingExponent_spec (hden : 0 < x.den) (hleast : (2 : ℚ) ^ (-1074 : Int) ≤ x.value) :
    (10 : ℚ) ^ x.leadingExponent ≤ x.value ∧ x.value < (10 : ℚ) ^ (x.leadingExponent + 1) := by
  by_cases h : x.den ≤ x.num
  · exact leadingExponent_of_ge_one hden h
  · exact leadingExponent_of_lt_one hden (Nat.lt_of_not_le h) hleast

/-- A fraction is rounded down when the remainder is at most a half of the denominator, and up when it
is at least a half. -/
theorem roundHalfEven_cases (x : Fraction) :
    (x.roundHalfEven = x.num / x.den ∧ 2 * (x.num % x.den) ≤ x.den) ∨
      (x.roundHalfEven = x.num / x.den + 1 ∧ x.den ≤ 2 * (x.num % x.den)) := by
  unfold roundHalfEven
  dsimp only
  rcases Nat.lt_trichotomy (2 * (x.num % x.den)) x.den with hless | hhalf | hmore
  · rw [if_pos hless]
    exact Or.inl ⟨rfl, hless.le⟩
  · rw [if_neg (by omega), if_neg (by omega)]
    rcases Nat.mod_two_eq_zero_or_one (x.num / x.den) with heven | hodd
    · exact Or.inl ⟨by rw [heven, Nat.add_zero], hhalf.le⟩
    · exact Or.inr ⟨by rw [hodd], hhalf.ge⟩
  · rw [if_neg (by omega), if_pos hmore]
    exact Or.inr ⟨rfl, hmore.le⟩

/-- A rounded fraction is at most a half away. -/
theorem roundHalfEven_near (hden : 0 < x.den) :
    (x.roundHalfEven : ℚ) - 1 / 2 ≤ x.value ∧ x.value ≤ x.roundHalfEven + 1 / 2 := by
  have hden_pos : (0 : ℚ) < x.den := by exact_mod_cast hden
  have hdiv := Nat.div_add_mod x.num x.den
  have hmod := Nat.mod_lt x.num hden
  have hnear : 2 * x.roundHalfEven * x.den ≤ 2 * x.num + x.den ∧
      2 * x.num ≤ 2 * x.roundHalfEven * x.den + x.den := by
    rcases roundHalfEven_cases x with ⟨hround, hrest⟩ | ⟨hround, hrest⟩
    · have hproduct : 2 * (x.num / x.den) * x.den = 2 * (x.den * (x.num / x.den)) := by ring
      rw [hround, hproduct]
      generalize x.den * (x.num / x.den) = below at hdiv ⊢
      generalize x.num % x.den = rest at hdiv hmod hrest
      omega
    · have hproduct : 2 * (x.num / x.den + 1) * x.den =
          2 * (x.den * (x.num / x.den)) + 2 * x.den := by ring
      rw [hround, hproduct]
      generalize x.den * (x.num / x.den) = below at hdiv ⊢
      generalize x.num % x.den = rest at hdiv hmod hrest
      omega
  rw [value, le_div_iff₀ hden_pos, div_le_iff₀ hden_pos]
  have hlow : (2 * x.roundHalfEven * x.den : ℚ) ≤ 2 * x.num + x.den := by exact_mod_cast hnear.1
  have hhigh : (2 * x.num : ℚ) ≤ 2 * x.roundHalfEven * x.den + x.den := by exact_mod_cast hnear.2
  constructor <;> linarith

end Fraction

/-! ## Decimals -/

/-- The value of a decimal. -/
def Decimal.value (x : Decimal) : ℚ := x.digits * (10 : ℚ) ^ x.exponent

/-- What reads back as a float lies between the halfway points around it. -/
theorem readsBack_iff {m : Nat} {q k : Int} {d : Nat} :
    readsBack m q k d = true ↔ RoundsTo (Decimal.value ⟨d, k⟩) m q := by
  have hpow : (0 : ℚ) < 10 ^ k := by positivity
  -- both bounds are compared on the grid of the decimal
  have hlow (n : Nat) : ((Fraction.scaled n (q - 2)).divPow10 k).value =
      n * (2 : ℚ) ^ (q - 2) / 10 ^ k := by
    rw [Fraction.value_divPow10, Fraction.value_scaled]
  have hden (n : Nat) : 0 < ((Fraction.scaled n (q - 2)).divPow10 k).den :=
    Fraction.divPow10_den_pos (Fraction.scaled_den_pos n _) k
  have hle (n : Nat) : ((Fraction.scaled n (q - 2)).divPow10 k).num ≤
      d * ((Fraction.scaled n (q - 2)).divPow10 k).den ↔ n * (2 : ℚ) ^ (q - 2) ≤ d * 10 ^ k := by
    have hpos : (0 : ℚ) < ((Fraction.scaled n (q - 2)).divPow10 k).den := by exact_mod_cast hden n
    rw [← div_le_iff₀ hpow, ← hlow, Fraction.value, div_le_iff₀ hpos]
    norm_cast
  have hge (n : Nat) : d * ((Fraction.scaled n (q - 2)).divPow10 k).den ≤
      ((Fraction.scaled n (q - 2)).divPow10 k).num ↔ (d * 10 ^ k : ℚ) ≤ n * (2 : ℚ) ^ (q - 2) := by
    have hpos : (0 : ℚ) < ((Fraction.scaled n (q - 2)).divPow10 k).den := by exact_mod_cast hden n
    rw [← le_div_iff₀ hpow, ← hlow, Fraction.value, le_div_iff₀ hpos]
    norm_cast
  have hbelow : (if m = Nat.pow 2 52 && q != -1074 then 4 * m - 1 else 4 * m - 2) =
      lowerQuarters m q := rfl
  have hhigh : ((4 * m + 2 : Nat) : ℚ) = 4 * m + 2 := by push_cast; ring
  unfold readsBack
  dsimp only
  rw [hbelow]
  split
  · rename_i heven
    rw [Bool.and_eq_true, decide_eq_true_eq, decide_eq_true_eq, hle, hge, hhigh]
    constructor
    · rintro ⟨h1, h2⟩
      exact ⟨h1.lt_or_eq.imp_right fun h => ⟨h, heven⟩, h2.lt_or_eq.imp_right fun h => ⟨h, heven⟩⟩
    · rintro ⟨h1, h2⟩
      exact ⟨h1.elim le_of_lt fun h => h.1.le, h2.elim le_of_lt fun h => h.1.le⟩
  · rename_i hodd
    rw [Bool.and_eq_true, decide_eq_true_eq, decide_eq_true_eq, ← Nat.not_le, hge, ← Nat.not_le, hle,
      hhigh, not_le, not_le]
    constructor
    · rintro ⟨h1, h2⟩
      exact ⟨Or.inl h1, Or.inl h2⟩
    · rintro ⟨h1, h2⟩
      exact ⟨h1.resolve_right fun h => hodd h.2, h2.resolve_right fun h => hodd h.2⟩

/-! ## Seventeen digits suffice -/

theorem IsFloat.least_le {m : Nat} {q : Int} (h : IsFloat m q) (hm : 0 < m) :
    (2 : ℚ) ^ (-1074 : Int) ≤ m * 2 ^ q := by
  have hm' : (1 : ℚ) ≤ m := by exact_mod_cast hm
  have hpow : (2 : ℚ) ^ (-1074 : Int) ≤ 2 ^ q := zpow_le_zpow_right₀ one_le_two h.least
  have hpos : (0 : ℚ) < 2 ^ q := by positivity
  nlinarith

/-- A decimal within half a step of a float is rounded to it when sixteen digits of its grid are below
the float: the steps are then smaller than the distance of the halfway points. -/
theorem roundsTo_of_near {m d : Nat} {q k : Int} (h : IsFloat m q) (hm : 0 < m)
    (hfine : (10 : ℚ) ^ k * 10 ^ 16 ≤ m * 2 ^ q) (hlow : ((d : ℚ) - 1 / 2) * 10 ^ k ≤ m * 2 ^ q)
    (hhigh : (m * 2 ^ q : ℚ) ≤ (d + 1 / 2) * 10 ^ k) : RoundsTo (Decimal.value ⟨d, k⟩) m q := by
  have hgrid : (0 : ℚ) < 10 ^ k := by positivity
  have hunit : (0 : ℚ) < 2 ^ q := by positivity
  have hmantissa : (m : ℚ) + 1 ≤ 2 ^ 53 := by exact_mod_cast h.mantissa
  have hbound : (m : ℚ) * 2 ^ q + 2 ^ q ≤ 2 ^ 53 * 2 ^ q := by
    have := mul_le_mul_of_nonneg_right hmantissa hunit.le
    rwa [add_mul, one_mul] at this
  unfold Decimal.value
  dsimp only
  refine ⟨Or.inl ?_, Or.inl ?_⟩
  · rw [zpow_quarter]
    unfold lowerQuarters
    split
    · -- the halfway point below the least mantissa is nearer, but the mantissa is known
      rename_i hcond
      rw [Bool.and_eq_true, decide_eq_true_eq] at hcond
      have hm52 : (m : ℚ) = 4503599627370496 := by
        rw [hcond.1]
        norm_num
      have hquarter : ((4 * m - 1 : Nat) : ℚ) = 4 * m - 1 := by
        rw [Nat.cast_sub (by omega)]
        push_cast
        ring
      rw [hquarter]
      rw [hm52] at hfine hhigh ⊢
      linarith
    · have hquarter : ((4 * m - 2 : Nat) : ℚ) = 4 * m - 2 := by
        rw [Nat.cast_sub (by omega)]
        push_cast
        ring
      rw [hquarter]
      linarith
  · rw [zpow_quarter]
    linarith

/-- The nearest decimal of seventeen digits is rounded to the float. -/
theorem neighbour?_seventeen {m : Nat} {q : Int} (h : IsFloat m q) (hm : 0 < m) :
    ∃ x, neighbour? m q 17 = some x := by
  have hden := Fraction.scaled_den_pos m q
  have hvalue := Fraction.value_scaled m q
  have hleast : (2 : ℚ) ^ (-1074 : Int) ≤ (Fraction.scaled m q).value := by
    rw [hvalue]
    exact h.least_le hm
  obtain ⟨hlead, -⟩ := Fraction.leadingExponent_spec hden hleast
  unfold neighbour?
  dsimp only
  generalize hk : (Fraction.scaled m q).leadingExponent + 1 - ((17 : Nat) : Int) = k
  obtain ⟨hlow, hhigh⟩ := Fraction.roundHalfEven_near (Fraction.divPow10_den_pos hden k)
  rw [Fraction.value_divPow10, hvalue] at hlow hhigh
  generalize ((Fraction.scaled m q).divPow10 k).roundHalfEven = near at *
  have hgrid : (0 : ℚ) < 10 ^ k := by positivity
  have hfine : (10 : ℚ) ^ k * 10 ^ 16 ≤ m * 2 ^ q := by
    rw [hvalue] at hlead
    have hleading : (10 : ℚ) ^ k * 10 ^ 16 = 10 ^ (Fraction.scaled m q).leadingExponent := by
      rw [← zpow_natCast, ← zpow_add₀ (by norm_num), ← hk]
      congr 1
      push_cast
      ring
    rwa [hleading]
  have hreads : readsBack m q k near = true :=
    readsBack_iff.mpr (roundsTo_of_near h hm hfine ((le_div_iff₀ hgrid).mp hlow)
      ((div_le_iff₀ hgrid).mp hhigh))
  rw [if_pos hreads]
  exact ⟨_, rfl⟩

theorem neighbour?_roundsTo {m n : Nat} {q : Int} {x : Decimal} (h : neighbour? m q n = some x) :
    RoundsTo x.value m q := by
  unfold neighbour? at h
  dsimp only at h
  generalize (Fraction.scaled m q).leadingExponent + 1 - (n : Int) = k at h
  generalize (Fraction.scaled m q).divPow10 k = y at h
  generalize (if y.roundHalfEven = y.num / y.den then y.roundHalfEven + 1
    else y.roundHalfEven - 1) = far at h
  split at h
  · rename_i hreads
    cases h
    exact readsBack_iff.mp hreads
  · split at h
    · rename_i hreads
      cases h
      exact readsBack_iff.mp hreads
    · cases h

/-- The zeros at the end of a number divide it. -/
theorem exists_mul_pow_trailing (n : Nat) :
    ∃ a, n = a * 10 ^ ((Nat.toDigits 10 n).reverse.takeWhile (· == '0')).length := by
  generalize hds : Nat.toDigits 10 n = ds
  have hn : Nat.ofDigitChars 10 ds 0 = n := by rw [← hds, Nat.ofDigitChars_ten_toDigits]
  have hzeros : ds.reverse.takeWhile (· == '0') =
      List.replicate (ds.reverse.takeWhile (· == '0')).length '0' :=
    List.eq_replicate_of_mem fun c hc => eq_of_beq (List.mem_takeWhile_imp (p := (· == '0')) hc)
  have hsplit : ds = (ds.reverse.dropWhile (· == '0')).reverse ++
      List.replicate (ds.reverse.takeWhile (· == '0')).length '0' := by
    have := congrArg List.reverse (List.takeWhile_append_dropWhile (p := (· == '0')) (l := ds.reverse))
    rw [List.reverse_append, List.reverse_reverse, hzeros, List.reverse_replicate] at this
    exact this.symm
  generalize (ds.reverse.takeWhile (· == '0')).length = zeros at *
  refine ⟨Nat.ofDigitChars 10 (ds.reverse.dropWhile (· == '0')).reverse 0, ?_⟩
  rw [hsplit, Nat.ofDigitChars_append, Nat.ofDigitChars_replicate_zero] at hn
  rw [Nat.mul_comm, hn]

theorem Decimal.value_trim (x : Decimal) : x.trim.value = x.value := by
  unfold trim
  dsimp only
  split
  · rename_i hzero
    simp [value, hzero]
  · obtain ⟨a, ha⟩ := exists_mul_pow_trailing x.digits
    generalize ((Nat.toDigits 10 x.digits).reverse.takeWhile (· == '0')).length = zeros at *
    have hdiv : x.digits / Nat.pow 10 zeros = a := by
      rw [ha]
      exact Nat.mul_div_cancel a (Nat.pow_pos (by decide))
    unfold value
    dsimp only
    rw [hdiv, zpow_add₀ (by norm_num), zpow_natCast, ha]
    push_cast
    ring

/-- The digits that are chosen for a float are rounded to it. -/
theorem shortest_roundsTo {m : Nat} {q : Int} (h : IsFloat m q) (hm : 0 < m) :
    RoundsTo (shortest m q).value m q := by
  unfold shortest
  split
  · rename_i x hx
    obtain ⟨i, -, hi⟩ := List.exists_of_findSome?_eq_some hx
    rw [Decimal.value_trim]
    exact neighbour?_roundsTo hi
  · rename_i hnone
    obtain ⟨x, hx⟩ := neighbour?_seventeen h hm
    have := List.findSome?_eq_none_iff.mp hnone 16 (List.mem_range.mpr (by decide))
    rw [hx] at this
    cases this

/-! ## Reading decimals -/

theorem two_pow_lt_ten_pow : (2 : ℚ) ^ (1200 : Int) < 10 ^ (400 : Int) := by
  have hcube : (2 : ℚ) ^ (1200 : Int) = (2 ^ (3 : Int)) ^ (400 : Int) := by rw [← zpow_mul]; norm_num
  rw [hcube]
  exact zpow_lt_zpow_left₀ (by norm_num) (by norm_num) (by norm_num)

theorem RoundsTo.lt_greatest {v : ℚ} {m : Nat} {q : Int} (h : RoundsTo v m q) (hfloat : IsFloat m q) :
    v < 10 ^ (400 : Int) := by
  have hm : (m : ℚ) + 1 ≤ 2 ^ 53 := by exact_mod_cast hfloat.mantissa
  have hunit : (2 : ℚ) ^ q ≤ 2 ^ (971 : Int) := zpow_le_zpow_right₀ one_le_two hfloat.greatest
  have hpos : (0 : ℚ) < 2 ^ q := by positivity
  calc v ≤ (m + 1 / 2) * 2 ^ q := h.le_high
    _ ≤ 2 ^ 53 * 2 ^ (971 : Int) := by
      apply mul_le_mul _ hunit hpos.le (by positivity)
      linarith
    _ = 2 ^ (1024 : Int) := by
      rw [← zpow_natCast, ← zpow_add₀ two_ne_zero]
      rfl
    _ ≤ 2 ^ (1200 : Int) := zpow_le_zpow_right₀ one_le_two (by decide)
    _ < 10 ^ (400 : Int) := two_pow_lt_ten_pow

theorem RoundsTo.least_lt {v : ℚ} {m : Nat} {q : Int} (h : RoundsTo v m q) (hfloat : IsFloat m q)
    (hm : 0 < m) : (10 : ℚ) ^ (-400 : Int) < v := by
  have hm' : (1 : ℚ) ≤ m := by exact_mod_cast hm
  have hunit : (2 : ℚ) ^ (-1074 : Int) ≤ 2 ^ q := zpow_le_zpow_right₀ one_le_two hfloat.least
  have hpos : (0 : ℚ) < 2 ^ q := by positivity
  have hquarters := lowerQuarters_ge hm q
  calc (10 : ℚ) ^ (-400 : Int) < 2 ^ (-1200 : Int) := by
        rw [zpow_neg, zpow_neg]
        exact inv_strictAnti₀ (by positivity) two_pow_lt_ten_pow
    _ ≤ 2 ^ (-1075 : Int) := zpow_le_zpow_right₀ one_le_two (by decide)
    _ = 1 / 2 * 2 ^ (-1074 : Int) := by
      rw [one_div, ← zpow_neg_one, ← zpow_add₀ two_ne_zero]
      rfl
    _ ≤ lowerQuarters m q / 4 * 2 ^ q := by
      apply mul_le_mul _ hunit (by positivity) (by positivity)
      linarith
    _ ≤ v := h.low_le

/-- A decimal that is rounded to a float is read as that float. -/
theorem floatOfDecimal_eq {x : Decimal} {m : Nat} {q : Int} (negative : Bool) (hfloat : IsFloat m q)
    (hm : 0 < m) (h : RoundsTo x.value m q) :
    floatOfDecimal negative x.digits x.exponent = (Binary64.finite negative m q).toFloat := by
  have hpos := h.pos hm
  have hten (k : Int) : (0 : ℚ) < 10 ^ k := by positivity
  have hdigits : 0 < x.digits := by
    by_contra hzero
    have hzero : x.digits = 0 := by omega
    simp [Decimal.value, hzero] at hpos
  obtain ⟨hge, hlt⟩ := Fraction.pow_length_toDigits hdigits
  have hlength : 0 < (Nat.toDigits 10 x.digits).length := Nat.length_toDigits_pos
  unfold floatOfDecimal
  dsimp only
  generalize (Nat.toDigits 10 x.digits).length = l at *
  have hfirst : (10 : ℚ) ^ (l + x.exponent - 1) ≤ x.value := by
    have hge' : ((10 : ℚ) ^ (l - 1)) ≤ x.digits := by exact_mod_cast hge
    have hsplit : (10 : ℚ) ^ (l + x.exponent - 1) = 10 ^ (l - 1) * 10 ^ x.exponent := by
      rw [← zpow_natCast, ← zpow_add₀ (by norm_num)]
      congr 1
      omega
    rw [hsplit, Decimal.value]
    have := hten x.exponent
    gcongr
  have hlast : x.value < (10 : ℚ) ^ (l + x.exponent) := by
    have hlt' : (x.digits : ℚ) < 10 ^ l := by exact_mod_cast hlt
    rw [zpow_add₀ (by norm_num), zpow_natCast, Decimal.value]
    have := hten x.exponent
    gcongr
  have hmost : l + x.exponent - 1 < 400 :=
    (zpow_lt_zpow_iff_right₀ (by norm_num)).mp (lt_of_le_of_lt hfirst (h.lt_greatest hfloat))
  have hleast : -400 < l + x.exponent :=
    (zpow_lt_zpow_iff_right₀ (by norm_num)).mp ((h.least_lt hfloat hm).trans hlast)
  rw [if_neg (by simp; omega), if_neg (by omega)]
  have hden : 0 < ((Fraction.mk x.digits 1).divPow10 (-x.exponent)).den :=
    Fraction.divPow10_den_pos Nat.one_pos _
  have hvalue : ((Fraction.mk x.digits 1).divPow10 (-x.exponent)).value = x.value := by
    rw [Fraction.value_divPow10, Fraction.value, Decimal.value, zpow_neg, div_inv_eq_mul]
    norm_num
  rw [ofFraction_eq negative hden hfloat hm (by rwa [hvalue])]

/-! ## Bits -/

namespace Binary64

theorem isFloat_of_ofBits {n m : Nat} {q : Int} {negative : Bool}
    (h : ofBits n = finite negative m q) : IsFloat m q := by
  have hfraction : n % 2 ^ 52 < 2 ^ 52 := Nat.mod_lt _ (by decide)
  have hexponent : n / 2 ^ 52 % 2 ^ 11 < 2 ^ 11 := Nat.mod_lt _ (by decide)
  unfold ofBits at h
  dsimp only [Nat.pow_eq] at h
  generalize n % 2 ^ 52 = fraction at *
  generalize n / 2 ^ 52 % 2 ^ 11 = exponent at *
  split at h
  · split at h <;> cases h
  · split at h
    · cases h
      exact ⟨by omega, by omega, by omega, Or.inr rfl⟩
    · cases h
      exact ⟨by omega, by omega, by omega, Or.inl (by omega)⟩

theorem bits_of_ofBits {n m : Nat} {q : Int} {negative : Bool} (hn : n < 2 ^ 64)
    (h : ofBits n = finite negative m q) : (finite negative m q).bits = n := by
  have hfraction : n % 2 ^ 52 < 2 ^ 52 := Nat.mod_lt _ (by decide)
  have hexponent : n / 2 ^ 52 % 2 ^ 11 < 2 ^ 11 := Nat.mod_lt _ (by decide)
  have hsign : n / 2 ^ 63 < 2 := by omega
  have hsplit : n = n / 2 ^ 63 * 2 ^ 63 + n / 2 ^ 52 % 2 ^ 11 * 2 ^ 52 + n % 2 ^ 52 := by omega
  unfold ofBits at h
  dsimp only [Nat.pow_eq] at h
  have hnegative : (n / 2 ^ 63 % 2 == 1).toNat = n / 2 ^ 63 := by
    rcases (by omega : n / 2 ^ 63 = 0 ∨ n / 2 ^ 63 = 1) with hzero | hone
    · rw [hzero]
      rfl
    · rw [hone]
      rfl
  split at h
  · split at h <;> cases h
  · split at h
    · rename_i hzero
      cases h
      unfold bits
      dsimp only [Nat.pow_eq]
      rw [hnegative, if_pos hfraction]
      omega
    · cases h
      unfold bits
      dsimp only [Nat.pow_eq]
      rw [hnegative, if_neg (by omega)]
      omega

/-- A float that is a number is the float of its exact value. -/
theorem toFloat_of_ofFloat {x : Float} {m : Nat} {q : Int} {negative : Bool}
    (h : ofFloat x = finite negative m q) : (finite negative m q).toFloat = x := by
  have hbits : (finite negative m q).bits = x.toBits.toNat := bits_of_ofBits x.toBits.toNat_lt h
  rw [toFloat, hbits, UInt64.ofNat_toNat, Float.ofBits_toBits]

end Binary64

end UpgradeSafety.Numeral
