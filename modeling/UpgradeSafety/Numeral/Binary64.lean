/-!
# Exact values of floats

A finite float is a whole number times a power of two. Everything that is decided about a float's
value is decided on these two numbers.
-/

namespace UpgradeSafety.Numeral

/-- What the bits of a float say. -/
inductive Binary64 where
  | finite (negative : Bool) (mantissa : Nat) (exponent : Int)
  | infinite (negative : Bool)
  | nan
  deriving DecidableEq, Repr

namespace Binary64

/-- Decodes the sign, the exponent and the fraction of a float. -/
def ofBits (bits : Nat) : Binary64 :=
  let negative := bits / Nat.pow 2 63 % 2 == 1
  let exponent : Nat := bits / Nat.pow 2 52 % Nat.pow 2 11
  let fraction : Nat := bits % Nat.pow 2 52
  if exponent = 0x7ff then (if fraction = 0 then infinite negative else nan)
  else if exponent = 0 then finite negative fraction (-1074)
  else finite negative (Nat.pow 2 52 + fraction) ((exponent : Int) - 1075)

/-- The exact value of a float. -/
def ofFloat (x : Float) : Binary64 := ofBits x.toBits.toNat

/-- The bits of a float, for the mantissa and exponent that a float of its value has. -/
def bits : Binary64 → Nat
  | finite negative m q =>
    negative.toNat * Nat.pow 2 63 +
      if m < Nat.pow 2 52 then m else (q + 1075).toNat * Nat.pow 2 52 + (m - Nat.pow 2 52)
  | infinite negative => negative.toNat * Nat.pow 2 63 + 0x7ff * Nat.pow 2 52
  | nan => 0x7ff8 * Nat.pow 2 48

/-- The float of an exact value. -/
def toFloat (x : Binary64) : Float := Float.ofBits (UInt64.ofNat x.bits)

/-- Whether a float is a number. -/
def isFinite : Binary64 → Bool
  | finite .. => true
  | _ => false

/-- Equality of floats by value: both zeros are equal, and what is no number equals nothing. -/
def same : Binary64 → Binary64 → Bool
  | finite negative m q, finite negative' m' q' =>
    (m == 0 && m' == 0) || (negative == negative' && m == m' && q == q')
  | infinite negative, infinite negative' => negative == negative'
  | _, _ => false

/-- The whole part of a finite float. -/
def truncate? : Binary64 → Option Int
  | finite negative m q =>
    let n := if 0 ≤ q then m * Nat.pow 2 q.toNat else m / Nat.pow 2 (-q).toNat
    some (if negative then -(n : Int) else n)
  | _ => none

/-- The greatest whole number that is not above a finite float. -/
def floor? : Binary64 → Option Int
  | finite negative m q =>
    let signed : Int := if negative then -(m : Int) else m
    some (if 0 ≤ q then signed * Nat.pow 2 q.toNat else signed.fdiv (Nat.pow 2 (-q).toNat))
  | _ => none

/-- The whole number that a float equals, if it does. -/
def wholeNumber? : Binary64 → Option Int
  | finite negative m q =>
    let signed (n : Nat) : Int := if negative then -(n : Int) else n
    if 0 ≤ q then some (signed (m * Nat.pow 2 q.toNat))
    else if m % Nat.pow 2 (-q).toNat = 0 then some (signed (m / Nat.pow 2 (-q).toNat))
    else none
  | _ => none

example : (ofBits 0x3ff0000000000000).wholeNumber? = some 1 := by decide +kernel
example : (ofBits 0x3fe0000000000000).wholeNumber? = none := by decide +kernel

end Binary64

/-- A number rounded to its 53 highest bits, a half to the even neighbour. -/
def roundTo53Bits (n : Nat) : Nat :=
  let unit := Nat.pow 2 (n.log2 - 52)
  let twice := 2 * (n % unit)
  if twice < unit then n / unit * unit
  else if unit < twice then (n / unit + 1) * unit
  else (n / unit + n / unit % 2) * unit

/-- The exact value of the float nearest to an integer; none beyond the greatest float. -/
def Binary64.ofInt? (n : Int) : Option Binary64 :=
  let m := roundTo53Bits n.natAbs
  if m.log2 < 1024 then some (finite (n < 0) m 0) else none

end UpgradeSafety.Numeral
