/-!
# Keccak-256

The sponge with 136 bytes of rate over the permutation on twenty-five 64-bit lanes, with the
padding `0x01 … 0x80`. Lane `(x, y)` of a state has index `x + 5 y`.
-/

namespace UpgradeSafety.Hash

/-- The twenty-five lanes. -/
abbrev Lanes := Array UInt64

/-- The constants that the rounds add to the first lane. -/
def roundConstants : List UInt64 := [
  0x0000000000000001, 0x0000000000008082, 0x800000000000808a, 0x8000000080008000,
  0x000000000000808b, 0x0000000080000001, 0x8000000080008081, 0x8000000000008009,
  0x000000000000008a, 0x0000000000000088, 0x0000000080008009, 0x000000008000000a,
  0x000000008000808b, 0x800000000000008b, 0x8000000000008089, 0x8000000000008003,
  0x8000000000008002, 0x8000000000000080, 0x000000000000800a, 0x800000008000000a,
  0x8000000080008081, 0x8000000000008080, 0x0000000080000001, 0x8000000080008008]

/-- The distance by which each lane is turned. -/
def rotations : Array UInt64 := #[
  0, 1, 62, 28, 27, 36, 44, 6, 55, 20, 3, 10, 43, 25, 39, 41, 45, 15, 21, 8, 18, 2, 61, 56, 14]

/-- A lane turned to the left. -/
def rotateLeft (w n : UInt64) : UInt64 := if n = 0 then w else (w <<< n) ||| (w >>> (64 - n))

/-- The lane at an index; zero outside the state. -/
def lane (s : Lanes) (i : Nat) : UInt64 := s.getD i 0

/-- Every lane takes up the parity of two neighbouring columns. -/
def theta (s : Lanes) : Lanes :=
  let parity (x : Nat) : UInt64 :=
    lane s x ^^^ lane s (x + 5) ^^^ lane s (x + 10) ^^^ lane s (x + 15) ^^^ lane s (x + 20)
  let columns := (Array.range 5).map parity
  let mix := (Array.range 5).map fun x =>
    lane columns ((x + 4) % 5) ^^^ rotateLeft (lane columns ((x + 1) % 5)) 1
  (Array.range 25).map fun i => lane s i ^^^ lane mix (i % 5)

/-- Lanes are turned and moved: lane `(x, y)` goes to `(y, 2 x + 3 y)`. -/
def rhoPi (s : Lanes) : Lanes :=
  (Array.range 25).map fun i =>
    let (y, z) := (i % 5, i / 5)
    -- the column that lands in row `z` from row `y`
    let x := (z + 5 * 3 - 3 * y % 5) * 3 % 5
    rotateLeft (lane s (x + 5 * y)) (rotations.getD (x + 5 * y) 0)

/-- Every lane takes up its two neighbours to the right. -/
def chi (s : Lanes) : Lanes :=
  (Array.range 25).map fun i =>
    let row := i / 5 * 5
    lane s i ^^^ (~~~ lane s (row + (i + 1) % 5) &&& lane s (row + (i + 2) % 5))

/-- One round. -/
def round (s : Lanes) (constant : UInt64) : Lanes :=
  let t := chi (rhoPi (theta s))
  t.setIfInBounds 0 (lane t 0 ^^^ constant)

/-- The permutation: twenty-four rounds. -/
def permute (s : Lanes) : Lanes := roundConstants.foldl round s

/-- The number of bytes taken up between two permutations. -/
def rate : Nat := 136

/-- The number that bytes write, the last one highest. -/
def littleEndian (bytes : List UInt8) : UInt64 :=
  bytes.foldr (fun b n => n <<< 8 ||| b.toUInt64) 0

/-- Adds a block of `rate` bytes to the state and permutes it. -/
def absorb (s : Lanes) (block : List UInt8) : Lanes :=
  permute <| (Array.range 25).map fun i =>
    lane s i ^^^ (if i < rate / 8 then littleEndian ((block.drop (8 * i)).take 8) else 0)

/-- A last block is filled up by a mark and zeros; its last byte carries the end mark. -/
def padded (rest : List UInt8) : List UInt8 :=
  let filled := rest ++ 0x01 :: List.replicate (rate - 1 - rest.length) 0
  filled.take (rate - 1) ++ [(filled.getD (rate - 1) 0) ||| 0x80]

/-- Takes up all bytes, block by block. -/
def absorbAll (s : Lanes) (bytes : List UInt8) : Lanes :=
  if _h : rate ≤ bytes.length then absorbAll (absorb s (bytes.take rate)) (bytes.drop rate)
  else absorb s (padded bytes)
termination_by bytes.length
decreasing_by simp only [rate] at *; simp only [List.length_drop]; omega

/-- The eight bytes of a lane, the lowest first. -/
def laneBytes (w : UInt64) : List UInt8 :=
  (List.range 8).map fun i => (w >>> (8 * i.toUInt64)).toUInt8

/-- The Keccak-256 hash: the first four lanes after all bytes are taken up. -/
def keccak256 (bytes : List UInt8) : List UInt8 :=
  let s := absorbAll (Array.replicate 25 0) bytes
  (List.range 4).flatMap fun i => laneBytes (lane s i)

end UpgradeSafety.Hash
