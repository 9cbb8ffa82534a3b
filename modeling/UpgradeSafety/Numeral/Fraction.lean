import UpgradeSafety.Numeral.Binary64

/-!
# Fractions and the floats nearest to them

Exact fractions, scaled by powers of two and of ten, and rounded. The float nearest to a fraction is
found by rounding the fraction in units of the last bit that a float of its size has.
-/

namespace UpgradeSafety.Numeral

/-- A positive fraction. -/
structure Fraction where
  num : Nat
  den : Nat
  deriving DecidableEq, Repr

namespace Fraction

/-- `n · 2^q`. -/
def scaled (n : Nat) (q : Int) : Fraction :=
  if 0 ≤ q then ⟨n * Nat.pow 2 q.toNat, 1⟩ else ⟨n, Nat.pow 2 (-q).toNat⟩

/-- The fraction divided by `2^k`. -/
def divPow2 (x : Fraction) (k : Int) : Fraction :=
  if 0 ≤ k then ⟨x.num, x.den * Nat.pow 2 k.toNat⟩ else ⟨x.num * Nat.pow 2 (-k).toNat, x.den⟩

/-- The fraction divided by `10^k`. -/
def divPow10 (x : Fraction) (k : Int) : Fraction :=
  if 0 ≤ k then ⟨x.num, x.den * Nat.pow 10 k.toNat⟩ else ⟨x.num * Nat.pow 10 (-k).toNat, x.den⟩

/-- The exponent of the leading bit of a fraction that is not zero. -/
def binaryExponent (x : Fraction) : Int :=
  let e : Int := x.num.log2 - x.den.log2
  let y := x.divPow2 e
  if y.den ≤ y.num then e else e - 1

/-- The exponent of the leading decimal digit of a fraction that is not zero. -/
def leadingExponent (x : Fraction) : Int :=
  if x.den ≤ x.num then ((Nat.toDigits 10 (x.num / x.den)).length : Int) - 1
  else match (List.range 1100).find? fun j => x.den ≤ x.num * Nat.pow 10 j with
    | some j => -(j : Int)
    | none => 0

/-- The whole number nearest to a fraction; of two equally near ones the even one. -/
def roundHalfEven (x : Fraction) : Nat :=
  let d := x.num / x.den
  let twice := 2 * (x.num % x.den)
  if twice < x.den then d
  else if x.den < twice then d + 1
  else d + d % 2

end Fraction

/-- The float nearest to a fraction that is not zero; of two equally near ones the one with the even
mantissa. Beyond the greatest float it is infinite. -/
def Binary64.ofFraction (negative : Bool) (x : Fraction) : Binary64 :=
  let unit := max (x.binaryExponent - 52) (-1074)
  let m := (x.divPow2 unit).roundHalfEven
  let (m, q) := if m = Nat.pow 2 53 then (Nat.pow 2 52, unit + 1) else (m, unit)
  if 971 < q then infinite negative else finite negative m q

/-- The float nearest to `digits · 10^exponent`. Far exponents are settled without computing the
power: below the least float the result is zero, beyond the greatest it is infinite. -/
def floatOfDecimal (negative : Bool) (digits : Nat) (exponent : Int) : Float :=
  let size : Int := (Nat.toDigits 10 digits).length + exponent
  let x : Binary64 :=
    if digits = 0 || size < -400 then .finite negative 0 (-1074)
    else if 400 < size then .infinite negative
    else .ofFraction negative ((Fraction.mk digits 1).divPow10 (-exponent))
  x.toFloat

example : Binary64.ofFraction false ⟨1, 10⟩ = .finite false 0x1999999999999a (-56) := by
  decide +kernel

end UpgradeSafety.Numeral
