import UpgradeSafety.Numeral.Fraction

/-!
# Decimal digits of a float

Two ways to choose decimal digits for the exact value `m · 2^q` of a float: the fewest digits that
still read back as the same float, and the nearest decimal with a given number of digits. Both work
on the grid `d · 10^k` and compare exact fractions.
-/

namespace UpgradeSafety.Numeral

/-- The positive decimal number `digits · 10^exponent`. -/
structure Decimal where
  digits : Nat
  exponent : Int
  deriving DecidableEq, Repr

/-- A decimal without trailing zeros in its digits. -/
def Decimal.trim (x : Decimal) : Decimal :=
  let zeros := ((Nat.toDigits 10 x.digits).reverse.takeWhile (· == '0')).length
  if x.digits = 0 then ⟨0, 0⟩ else ⟨x.digits / Nat.pow 10 zeros, x.exponent + zeros⟩

/-- The numbers that read back as the float `m · 2^q`: between the two halfway points to its
neighbours, which belong to it when `m` is even. All are counted in quarters of `2^q`. -/
def readsBack (m : Nat) (q : Int) (k : Int) (d : Nat) : Bool :=
  let below := if m = Nat.pow 2 52 && q != -1074 then 4 * m - 1 else 4 * m - 2
  let low := (Fraction.scaled below (q - 2)).divPow10 k
  let high := (Fraction.scaled (4 * m + 2) (q - 2)).divPow10 k
  if m % 2 = 0 then low.num ≤ d * low.den && d * high.den ≤ high.num
  else low.num < d * low.den && d * high.den < high.num

/-- The decimal with `n` digits, next to the float on the grid, that reads back; the nearer of
two. -/
def neighbour? (m : Nat) (q : Int) (n : Nat) : Option Decimal :=
  let x := Fraction.scaled m q
  let k := x.leadingExponent + 1 - n
  let y := x.divPow10 k
  let near := y.roundHalfEven
  let far := if near = y.num / y.den then near + 1 else near - 1
  if readsBack m q k near then some ⟨near, k⟩
  else if readsBack m q k far then some ⟨far, k⟩
  else none

/-- The fewest digits that read back as the float `m · 2^q`, for `m` not zero. Seventeen always
suffice. -/
def shortest (m : Nat) (q : Int) : Decimal :=
  match (List.range 17).findSome? fun i => neighbour? m q (i + 1) with
  | some x => x.trim
  | none => ⟨m, q⟩

/-- The nearest decimal with `n` digits to the float `m · 2^q`, for `m` not zero. -/
def nearest (n m : Nat) (q : Int) : Decimal :=
  let x := Fraction.scaled m q
  let k := x.leadingExponent + 1 - n
  Decimal.trim ⟨(x.divPow10 k).roundHalfEven, k⟩

example : shortest 0x1999999999999a (-56) = ⟨1, -1⟩ := by decide +kernel
example : shortest 1 (-1074) = ⟨5, -324⟩ := by decide +kernel

end UpgradeSafety.Numeral
