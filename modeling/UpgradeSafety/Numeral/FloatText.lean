import UpgradeSafety.Numeral.Shortest

/-!
# The text of a float

One printer with a record of the format's decisions: how the digits are chosen, where positional
notation ends, and whether a whole number keeps a fraction.
-/

namespace UpgradeSafety.Numeral

/-- How a float is written. -/
structure FloatFormat where
  /-- The number of significant digits, or the fewest that read back. -/
  precision : Option Nat
  /-- Exponents of the leading digit from `-4` up to this bound are written without a power. -/
  positionalBelow : Int
  /-- Whether a whole number ends in `.0`. -/
  keepsPoint : Bool

/-- The fewest digits that read back; positional from `0.0001` up to `10^16`. -/
def FloatFormat.exact : FloatFormat := ⟨none, 16, true⟩

/-- Six significant digits without trailing zeros; positional from `0.0001` up to `10^6`. -/
def FloatFormat.general : FloatFormat := ⟨some 6, 6, false⟩

/-- The text of a positive decimal. -/
def FloatFormat.positive (f : FloatFormat) (x : Decimal) : String :=
  let ds := Nat.toDigits 10 x.digits
  let lead : Int := x.exponent + ds.length - 1
  let point := if f.keepsPoint then ".0" else ""
  if -4 ≤ lead && lead < f.positionalBelow then
    if 0 ≤ x.exponent then
      String.ofList (ds ++ List.replicate x.exponent.toNat '0') ++ point
    else if 0 ≤ lead then
      String.ofList (ds.take (lead.toNat + 1)) ++ "." ++ String.ofList (ds.drop (lead.toNat + 1))
    else "0." ++ String.ofList (List.replicate (-lead - 1).toNat '0' ++ ds)
  else
    let power := toString lead.natAbs
    String.ofList (ds.take 1) ++
      (if ds.length == 1 then "" else "." ++ String.ofList (ds.drop 1)) ++
      (if lead < 0 then "e-" else "e+") ++ (if power.length < 2 then "0" ++ power else power)

/-- The text of a float. -/
def FloatFormat.text (f : FloatFormat) (x : Float) : String :=
  match Binary64.ofFloat x with
  | .nan => "nan"
  | .infinite negative => if negative then "-inf" else "inf"
  | .finite negative m q =>
    let sign := if negative then "-" else ""
    if m = 0 then sign ++ (if f.keepsPoint then "0.0" else "0")
    else match f.precision with
      | none => sign ++ f.positive (shortest m q)
      | some n => sign ++ f.positive (nearest n m q)

end UpgradeSafety.Numeral
