/-!
# Membership in a table of code points

A character class beyond ASCII is a table of ranges in increasing order, searched by halving.
-/

namespace UpgradeSafety.Text

/-- Looks for `code` among the entries `low ≤ i < high` of a table in increasing order. -/
def inRangesFrom (table : Array (Nat × Nat)) (code low high : Nat) : Bool :=
  if _h : low < high then
    let middle := (low + high) / 2
    match table[middle]? with
    | none => false
    | some (first, last) =>
      if code < first then inRangesFrom table code low middle
      else if last < code then inRangesFrom table code (middle + 1) high
      else true
  else false
termination_by high - low

/-- Whether a table of ranges in increasing order holds `code`. -/
def inRanges (table : Array (Nat × Nat)) (code : Nat) : Bool :=
  inRangesFrom table code 0 table.size

end UpgradeSafety.Text
