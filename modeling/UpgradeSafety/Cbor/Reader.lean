import UpgradeSafety.Text.Utf8

/-!
# Reading CBOR

An item of the concise binary object representation, as it is written. Strings of open length are
written in chunks; only strings written whole can be referred to by their number, so the way of
writing is kept. A tag says how to understand the item behind it.

An item begins with a byte that holds its major type in three bits and five further bits, which are
a small number, say in how many of the next bytes a number stands, or leave a length open. A break
ends what has an open length and stands nowhere else. Reading gives the item and the bytes behind
it.
-/

namespace UpgradeSafety

/-- A data item. -/
inductive Cbor where
  | int (n : Int)
  | bytes (whole : Bool) (bs : List UInt8)
  | text (whole : Bool) (s : String)
  | array (items : List Cbor)
  | map (entries : List (Cbor × Cbor))
  | tagged (tag : Nat) (item : Cbor)
  /-- A floating point number of `size` bytes, by its bits. -/
  | float (size bits : Nat)
  | simple (n : Nat)
  deriving Inhabited

namespace Cbor

/-- Items may be nested this deep. -/
def maxDepth : Nat := 400

end Cbor

end UpgradeSafety

namespace UpgradeSafety.Cbor

/-- The next bytes of an input, with the rest. -/
def takeBytes (count : Nat) (input : List UInt8) : Option (List UInt8 × List UInt8) :=
  let front := input.take count
  if front.length = count then some (front, input.drop count) else none

/-- The number that the five bits of a first byte announce. -/
def readNumber (low : Nat) (input : List UInt8) : Option (Nat × List UInt8) :=
  if low < 24 then some (low, input)
  else if low < 28 then
    (takeBytes (Nat.pow 2 (low - 24)) input).map fun (bs, rest) => (Text.bigEndian bs, rest)
  else none

/-- A length; none inside for one that is left open. -/
def readLength (low : Nat) (input : List UInt8) : Option (Option Nat × List UInt8) :=
  if low = 31 then some (none, input)
  else (readNumber low input).map fun (n, rest) => (some n, rest)

/-- The input behind a break, when a length is open and the break comes next. -/
def afterBreak? (length : Option Nat) (input : List UInt8) : Option (List UInt8) :=
  match length, input with
  | none, b :: rest => if b = 0xff then some rest else none
  | _, _ => none

/-- The chunks of a string of open length, up to the break. Every chunk has the major type of the
whole and a length of its own. -/
def readChunks (major : Nat) : Nat → List UInt8 → Option (List (List UInt8) × List UInt8)
  | 0, _ | _, [] => none
  | fuel + 1, b :: input =>
    if b = 0xff then some ([], input)
    else if b.toNat / 32 ≠ major then none
    else do
      let (length, rest) ← readNumber (b.toNat % 32) input
      let (chunk, rest) ← takeBytes length rest
      let (chunks, rest) ← readChunks major fuel rest
      some (chunk :: chunks, rest)

/-- The chunks of a byte or text string, and whether it is written whole. A string written whole
is a single chunk. -/
def readString (fuel major low : Nat) (input : List UInt8) :
    Option (Bool × List (List UInt8) × List UInt8) := do
  match ← readLength low input with
  | (some length, rest) =>
    let (chunk, rest) ← takeBytes length rest
    some (true, [chunk], rest)
  | (none, rest) =>
    let (chunks, rest) ← readChunks major fuel rest
    some (false, chunks, rest)

/-- The text of chunks, each of which is a text. -/
def textOf (chunks : List (List UInt8)) : Option String :=
  (chunks.mapM fun c => (Text.decodeUtf8 c).toOption).map String.join

/-- A simple value or a floating point number. A simple value that fits the first byte is written
there. -/
def readSimple (low : Nat) (input : List UInt8) : Option (Cbor × List UInt8) :=
  if low < 24 then some (.simple low, input)
  else if low = 24 then
    match input with
    | b :: rest => if b.toNat < 32 then none else some (.simple b.toNat, rest)
    | [] => none
  else if low < 28 then
    let size := Nat.pow 2 (low - 24)
    (takeBytes size input).map fun (bs, rest) => (.float size (Text.bigEndian bs), rest)
  else none

mutual

/-- Reads an item that may hold others down to `depth` levels. -/
def readItem : Nat → Nat → List UInt8 → Option (Cbor × List UInt8)
  | 0, _, _ | _, _, [] => none
  | fuel + 1, depth, b :: input => do
    let low := b.toNat % 32
    match b.toNat / 32, depth with
    | 0, _ =>
      let (n, rest) ← readNumber low input
      some (.int n, rest)
    | 1, _ =>
      let (n, rest) ← readNumber low input
      some (.int (-1 - n), rest)
    | 2, _ =>
      let (whole, chunks, rest) ← readString fuel 2 low input
      some (.bytes whole chunks.flatten, rest)
    | 3, _ =>
      let (whole, chunks, rest) ← readString fuel 3 low input
      some (.text whole (← textOf chunks), rest)
    | 4, depth + 1 =>
      let (length, rest) ← readLength low input
      let (items, rest) ← readItems fuel depth length rest
      some (.array items, rest)
    | 5, depth + 1 =>
      let (length, rest) ← readLength low input
      let (entries, rest) ← readEntries fuel depth length rest
      some (.map entries, rest)
    | 6, depth + 1 =>
      let (tag, rest) ← readNumber low input
      let (item, rest) ← readItem fuel depth rest
      some (.tagged tag item, rest)
    | 7, _ => readSimple low input
    | _, _ => none

/-- Reads a number of items, or the items up to a break. -/
def readItems : Nat → Nat → Option Nat → List UInt8 → Option (List Cbor × List UInt8)
  | 0, _, _, _ => none
  | _, _, some 0, input => some ([], input)
  | fuel + 1, depth, length, input =>
    match afterBreak? length input with
    | some rest => some ([], rest)
    | none => do
      let (item, rest) ← readItem fuel depth input
      let (items, rest) ← readItems fuel depth (length.map (· - 1)) rest
      some (item :: items, rest)

/-- Reads a number of entries, or the entries up to a break at the place of a key. -/
def readEntries : Nat → Nat → Option Nat → List UInt8 →
    Option (List (Cbor × Cbor) × List UInt8)
  | 0, _, _, _ => none
  | _, _, some 0, input => some ([], input)
  | fuel + 1, depth, length, input =>
    match afterBreak? length input with
    | some rest => some ([], rest)
    | none => do
      let (key, rest) ← readItem fuel depth input
      let (value, rest) ← readItem fuel depth rest
      let (entries, rest) ← readEntries fuel depth (length.map (· - 1)) rest
      some ((key, value) :: entries, rest)

end

/-- Reads one item. Every item takes a byte at least, which bounds the steps. -/
def read (input : List UInt8) : Option (Cbor × List UInt8) :=
  readItem (2 * input.length + 2) maxDepth input

end UpgradeSafety.Cbor
