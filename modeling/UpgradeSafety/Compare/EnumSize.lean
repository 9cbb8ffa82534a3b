import UpgradeSafety.Numeral.Binary64

/-!
# The size of an enum

An enum takes as many bytes as its names need, but at least one. The number of bits is a logarithm
that is rounded to 53 bits, so a number of names barely above a power of two passes for that power.
-/

namespace UpgradeSafety.Compare

open Numeral

/-- The least number of bytes with at least `n` values. -/
def bytesFor (n : Nat) : Nat := (n - 1).log2 / 8 + 1

/-- The natural logarithm of two in units of 10^-18. -/
def lnTwo : Nat := 693147180559945309

/-- Whether the logarithm of `n`, which is above 2^b and has 53 bits, is rounded to `b`. Near 2^b it
grows by 1 / ln 2 with the relative distance, and half a unit of its last place is 2^(L - 53) for an
`L` that is the logarithm of `b`. Numbers from 2^1024 are split into a fraction and a power; the
logarithm of the fraction is rounded before that of the power is added, which admits a little
more. -/
def logRoundsTo (b n : Nat) : Bool :=
  let distance := (n - Nat.pow 2 b) * Nat.pow 2 52 * Nat.pow 10 18
  if n.log2 < 1024 then
    2 * distance ≤ Nat.pow 2 b * Nat.pow 2 b.log2 * lnTwo
  else
    4 * distance < Nat.pow 2 b * (2 * Nat.pow 2 b.log2 + 1) * lnTwo

/-- The number of bytes of an enum with `count` names. -/
def enumSize (count : Nat) : Nat :=
  let n := roundTo53Bits (max 2 count)
  let below := bytesFor n - 1
  if 0 < below && logRoundsTo (8 * below) n then below else below + 1

example : enumSize 0 = 1 ∧ enumSize 256 = 1 ∧ enumSize 257 = 2 ∧ enumSize (Nat.pow 2 48) = 6 := by
  decide

example : enumSize (Nat.pow 2 56 + 176) = 7 ∧ enumSize (Nat.pow 2 56 + 192) = 8 := by decide

end UpgradeSafety.Compare
