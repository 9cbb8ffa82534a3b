import UpgradeSafety.Proofs.Json.RoundTrip
import UpgradeSafety.Proofs.Numeral.ReadBack

/-!
# Written floats

A float that is a number is read back from its text as itself (`rereadFloat_eq`): its shortest
decimal rounds to it, and the text of a decimal writes the value of the decimal.

Only the second half is proved here. A decimal is digits and a power of ten, and its text may have
the point inside the digits, zeros before or behind them, or an exponent, as its size demands. Each
form is a text in its parts already, so its value is a calculation with rational numbers: zeros in
front add nothing (`digitsValue_zeros_append`), zeros behind are a power of ten
(`digitsValue_append_zeros`), and the exponent is what was taken off (`value_decimal_decimalText`).

The text is then read as a decimal of the same value, possibly with other digits, and what a
decimal is rounded to depends on its value alone.
-/

namespace UpgradeSafety.Json

open Numeral

/-! ## The value of a text -/

theorem digitsValue_zeros_append (n : Nat) (ds : List Char) :
    digitsValue (List.replicate n '0' ++ ds) = digitsValue ds := by
  rw [digitsValue_eq, digitsValue_eq, Nat.ofDigitChars_append, Nat.ofDigitChars_replicate_zero,
    Nat.mul_zero]

theorem digitsValue_append_zeros (ds : List Char) (n : Nat) :
    digitsValue (ds ++ List.replicate n '0') = digitsValue ds * 10 ^ n := by
  rw [digitsValue_eq, digitsValue_eq, Nat.ofDigitChars_append, Nat.ofDigitChars_replicate_zero,
    Nat.mul_comm]

theorem digitsValue_powerDigits (n : Nat) : digitsValue (powerDigits n) = n := by
  unfold powerDigits
  split
  · exact (digitsValue_zeros_append 1 _).trans (digitsValue_decimal n)
  · exact digitsValue_decimal n

/-- The text of a decimal writes its value. -/
theorem value_decimal_decimalText (x : Decimal) : (decimalText x).decimal.value = x.value := by
  have hdigits := digitsValue_decimal x.digits
  have hlength : 0 < (Nat.toDigits 10 x.digits).length := Nat.length_toDigits_pos
  unfold decimalText
  dsimp only
  generalize Nat.toDigits 10 x.digits = ds at *
  have htake (k : Nat) : digitsValue (ds.take k ++ ds.drop k) = x.digits := by
    rw [List.take_append_drop, hdigits]
  split
  · split
    · rename_i hexponent
      obtain ⟨n, hn⟩ := Int.eq_ofNat_of_zero_le hexponent
      have hzeros : digitsValue (ds ++ List.replicate n '0' ++ ['0']) = x.digits * 10 ^ (n + 1) := by
        rw [List.append_assoc, ← List.replicate_succ', digitsValue_append_zeros, hdigits]
      simp only [NumeralText.decimal, NumeralText.power, Decimal.value, hn,
        Int.toNat_natCast, Option.getD_some, hzeros]
      push_cast
      rw [pow_succ]
      norm_num
      ring
    · split
      · rename_i hlead
        have hdrop : ((ds.drop ((x.exponent + ds.length - 1).toNat + 1)).length : Int) =
            -x.exponent := by
          rw [List.length_drop]
          omega
        simp only [NumeralText.decimal, NumeralText.power, Decimal.value, Option.getD_some, htake,
          hdrop, zero_sub, neg_neg]
      · have hfraction : ((List.replicate (-(x.exponent + ds.length - 1) - 1).toNat '0' ++ ds).length :
            Int) = -x.exponent := by
          rw [List.length_append, List.length_replicate]
          omega
        have hzero : digitsValue ('0' :: (List.replicate
            (-(x.exponent + ds.length - 1) - 1).toNat '0' ++ ds)) = x.digits := by
          rw [← List.cons_append, ← List.replicate_succ, digitsValue_zeros_append, hdigits]
        simp only [NumeralText.decimal, NumeralText.power, Decimal.value, Option.getD_some,
          List.singleton_append, hzero, hfraction, zero_sub, neg_neg]
  · have hpower : (if decide (x.exponent + ds.length - 1 < 0) = true then
        -(digitsValue (powerDigits (x.exponent + ds.length - 1).natAbs) : Int)
        else digitsValue (powerDigits (x.exponent + ds.length - 1).natAbs)) =
        x.exponent + ds.length - 1 := by
      rw [digitsValue_powerDigits]
      split
      · rename_i h
        rw [decide_eq_true_eq] at h
        omega
      · rename_i h
        rw [decide_eq_true_eq] at h
        omega
    have hbehind : (((if (ds.length == 1) = true then none else some (ds.drop 1)).getD []).length :
        Int) = ds.length - 1 := by
      split
      · rename_i h
        rw [beq_iff_eq] at h
        simp [h]
      · simp
        omega
    have hall : digitsValue (ds.take 1 ++
        (if (ds.length == 1) = true then none else some (ds.drop 1)).getD []) = x.digits := by
      split
      · rename_i h
        rw [beq_iff_eq] at h
        rw [Option.getD_none, List.append_nil, List.take_of_length_le h.le, hdigits]
      · exact htake 1
    simp only [NumeralText.decimal, NumeralText.power, Decimal.value, hpower, hbehind, hall]
    have hexponent : x.exponent + ds.length - 1 - (ds.length - 1) = x.exponent := by omega
    rw [hexponent]

/-! ## Floats that are read back -/

/-- The text of a float writes that float. -/
theorem value_floatText {x : Float} {negative : Bool} {m : Nat} {q : Int}
    (h : Binary64.ofFloat x = .finite negative m q) : (floatText negative m q).value = .float x := by
  have hfloat := Binary64.isFloat_of_ofBits h
  have hx := Binary64.toFloat_of_ofFloat h
  rw [NumeralText.value_of_isFloat (floatText_isFloat negative m q), ← hx]
  congr 1
  unfold floatText
  split
  · rename_i hm
    obtain rfl : q = -1074 := hfloat.normal.resolve_left (by omega)
    subst hm
    rfl
  · rename_i hm
    have hrounds := shortest_roundsTo hfloat (Nat.pos_of_ne_zero hm)
    rw [← value_decimal_decimalText] at hrounds
    exact floatOfDecimal_eq negative hfloat (Nat.pos_of_ne_zero hm) hrounds

/-- A float that is a number is read back as itself. -/
theorem rereadFloat_eq {x : Float} (h : (Binary64.ofFloat x).isFinite = true) :
    rereadFloat x = .float x := by
  cases hx : Binary64.ofFloat x with
  | finite negative m q =>
    have hread := readValue_floatText 0 negative m q endsNumber_nil
    rw [List.append_nil, ← toList_writeFloat hx, value_floatText hx] at hread
    rw [rereadFloat, hread]
  | infinite negative | nan =>
    rw [hx] at h
    cases h

end UpgradeSafety.Json
