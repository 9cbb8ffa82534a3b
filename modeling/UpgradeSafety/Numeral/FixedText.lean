import UpgradeSafety.Numeral.Shortest

/-!
# Floats with a chosen number of digits

Three styles of writing a float with a given precision: a fixed number of places behind the point, a
leading digit with a power of ten, and a number of significant digits in whichever of the two is
shorter. All digits are those of the exact value, rounded to the nearest, a half to the even digit.
-/

namespace UpgradeSafety.Numeral

/-- The styles of writing a float with a precision. -/
inductive FloatStyle where
  /-- The precision is the number of places behind the point. -/
  | fixed
  /-- The precision is the number of places between the leading digit and the power of ten. -/
  | scientific
  /-- The precision is the number of significant digits. -/
  | general
  deriving DecidableEq, Repr

/-- The `n` leading decimal digits of `m · 2^q` and the exponent of the first of them. -/
def leadingDigits (n m : Nat) (q : Int) : List Char × Int :=
  if m = 0 then (List.replicate n '0', 0)
  else
    let x := Fraction.scaled m q
    let lead := x.leadingExponent
    let d := (x.divPow10 (lead + 1 - n)).roundHalfEven
    if d < Nat.pow 10 n then (Nat.toDigits 10 d, lead)
    else (Nat.toDigits 10 (d / 10), lead + 1)

/-- Digits with a point in front of the last `places`. A point behind all digits is left out unless
it is kept. -/
def pointed (keepsPoint : Bool) (places : Nat) (ds : List Char) : List Char :=
  let ds := List.replicate (places + 1 - ds.length) '0' ++ ds
  let whole := ds.length - places
  ds.take whole ++ (if places = 0 && !keepsPoint then [] else '.' :: ds.drop whole)

/-- A power of ten behind a number, with at least two digits. -/
def powerOfTen (exponent : Int) : List Char :=
  let ds := Nat.toDigits 10 exponent.natAbs
  'e' :: (if exponent < 0 then '-' else '+') :: (if ds.length < 2 then '0' :: ds else ds)

/-- Digits without zeros at their end. -/
def dropTrailingZeros (ds : List Char) : List Char :=
  (ds.reverse.dropWhile (· == '0')).reverse

/-- The text of `m · 2^q`. With `keepsPoint` the point is always written, and the zeros at the end
of the general style are too. -/
def FloatStyle.positive (style : FloatStyle) (keepsPoint : Bool) (precision m : Nat) (q : Int) :
    List Char :=
  match style with
  | fixed =>
    let d := ((Fraction.scaled m q).divPow10 (-(precision : Int))).roundHalfEven
    pointed keepsPoint precision (Nat.toDigits 10 d)
  | scientific =>
    let (ds, lead) := leadingDigits (precision + 1) m q
    pointed keepsPoint precision ds ++ powerOfTen lead
  | general =>
    let n := max 1 precision
    let (ds, lead) := leadingDigits n m q
    if -4 ≤ lead && lead < n then
      let whole := (lead + 1).toNat
      let places := if keepsPoint then ds else ds.take whole ++ dropTrailingZeros (ds.drop whole)
      pointed keepsPoint ((places.length : Int) - 1 - lead).toNat places
    else
      let ds := if keepsPoint then ds else ds.take 1 ++ dropTrailingZeros (ds.drop 1)
      pointed keepsPoint (ds.length - 1) ds ++ powerOfTen lead

/-- The text of a float. -/
def FloatStyle.text (style : FloatStyle) (keepsPoint : Bool) (precision : Nat) :
    Binary64 → List Char
  | .nan => ['n', 'a', 'n']
  | .infinite negative => (if negative then ['-'] else []) ++ ['i', 'n', 'f']
  | .finite negative m q =>
    (if negative then ['-'] else []) ++ style.positive keepsPoint precision m q

example : FloatStyle.fixed.positive false 2 0x10147ae147ae14 (-52) = ['1', '.', '0', '0'] := by
  decide +kernel

end UpgradeSafety.Numeral
