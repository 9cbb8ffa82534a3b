import UpgradeSafety.Cbor.Address
import UpgradeSafety.Cbor.Moment
import UpgradeSafety.Cbor.Pattern
import UpgradeSafety.Cbor.Reader
import UpgradeSafety.Numeral.Binary64

/-!
# The meaning of CBOR items

Tags say what an item stands for, and not every item can stand for what its tag says. Some tags
refer to other items: to one that was marked for it, or to a string by its number among those read
so far. What is the key of a map or a member of a set is read in a frozen form, because only what
cannot change can be looked up.
-/

namespace UpgradeSafety.Cbor

/-- What an item stands for, as far as the items around it can tell. -/
inductive Value where
  | int (n : Int)
  | flag (b : Bool)
  | float (value : Numeral.Binary64)
  | absent
  | bytes (bs : List UInt8)
  | text (s : String)
  | list (isFrozen : Bool) (items : List Value)
  | map (isFrozen : Bool) (keys values : List Value)
  | decimal
  | fraction (isZero : Bool)
  | other

namespace Value

mutual

/-- Whether a value can be looked up: what can change cannot. -/
def isKey : Value → Bool
  | list isFrozen items => isFrozen && areKeys items
  | map isFrozen keys values => isFrozen && areKeys keys && areKeys values
  | _ => true

/-- Whether all values of a list can be looked up. -/
def areKeys : List Value → Bool
  | [] => true
  | v :: vs => isKey v && areKeys vs

end

/-- The whole number that a value is. -/
def whole? : Value → Option Int
  | int n => some n
  | flag b => some (if b then 1 else 0)
  | _ => none

/-- The greatest whole number that is not above a number. -/
def floor? : Value → Option Int
  | float x => x.floor?
  | v => v.whole?

/-- Whether a value is a number that a float can come near to. -/
def isMeasure : Value → Bool
  | int n => (Numeral.Binary64.ofInt? n).isSome
  | flag _ | float _ | decimal | fraction _ => true
  | _ => false

end Value

/-- The value of a floating point number of `size` bytes. -/
def floatValue (size bits : Nat) : Numeral.Binary64 :=
  let (exponentBits, fractionBits) : Nat × Nat := match size with
    | 2 => (5, 10)
    | 4 => (8, 23)
    | _ => (11, 52)
  let fraction := bits % Nat.pow 2 fractionBits
  let exponent := bits / Nat.pow 2 fractionBits % Nat.pow 2 exponentBits
  let negative := bits / Nat.pow 2 (fractionBits + exponentBits) % 2 == 1
  let bias := Nat.pow 2 (exponentBits - 1) - 1
  if exponent == Nat.pow 2 exponentBits - 1 then
    if fraction == 0 then .infinite negative else .nan
  else
    let mantissa := if exponent == 0 then fraction else Nat.pow 2 fractionBits + fraction
    .finite negative mantissa ((max exponent 1 : Nat) - (bias : Int) - fractionBits)

/-- Whether a decimal number can have an exponent and a number of digits. -/
def isDecimal (exponent : Int) (digits : Nat) : Bool :=
  -1999999999999999997 ≤ exponent && exponent + digits ≤ 1000000000000000000

/-- Whether a number times a power of two has no more than a million digits. -/
def isScalable (n exponent : Int) : Bool :=
  exponent ≤ 3321928 &&
    (exponent + n.natAbs.log2 ≤ 3321920 ||
      n.natAbs * Nat.pow 2 exponent.toNat < Nat.pow 10 1000000)

/-- The significand and the exponent of a decimal number stand in a list, the exponent first. -/
def isDecimalPair : Value → Value → Bool
  | exponent, .float _ | exponent, .decimal => exponent.whole?.any (isDecimal · 1)
  | exponent, n =>
    match exponent.whole?, n.whole? with
    | some e, some n => isDecimal e (Nat.toDigits 10 n.natAbs).length
    | _, _ => false

/-- Whether a number can be scaled by a power of two. -/
def isScaledPair (exponent n : Value) : Bool :=
  match n, exponent.floor? with
  | .float _, some e | .decimal, some e => isScalable 1 e
  | n, some e => n.whole?.any (isScalable · e)
  | _, none => false

/-- A fraction of whole numbers or of fractions. -/
def fractionOf : List Value → Option Value
  | [.decimal] => some (.fraction false)
  | [.float x] => (x.floor?).map fun n => .fraction (n == 0)
  | [.fraction isZero] => some (.fraction isZero)
  | [n] => (n.whole?).map fun n => .fraction (n == 0)
  | [n, d] => do
    let isZero? : Value → Option Bool
      | .fraction isZero => some isZero
      | v => v.whole?.map (· == 0)
    let numerator ← isZero? n
    if ← isZero? d then none else some (.fraction numerator)
  | _ => none

/-- Whether a value says how many leading bits the members of a network share. -/
def isBitCount (limit : Nat) (v : Value) : Bool :=
  match v with
  | .text s => (decimalOf? s.toList).any (· ≤ limit)
  | v => v.whole?.any fun (n : Int) => 0 ≤ n && n ≤ limit

/-- Whether an address and a number of bits, or a mask, are a network of either version. -/
def isNetwork (address bits : Value) : Bool :=
  let hasMask : Bool := match bits with
    | .text s => (quadOf? s.toList).any isMask
    | _ => false
  let isNarrow : Bool := match address with
    | .bytes bs => bs.length == 4
    | .text s => (quadOf? s.toList).isSome
    | v => v.whole?.any fun (n : Int) => 0 ≤ n && n < Nat.pow 2 32
  let isWide : Bool := match address with
    | .bytes bs => bs.length == 16
    | .text s => isWideAddress s.toList
    | v => v.whole?.any fun (n : Int) => 0 ≤ n && n < Nat.pow 2 128
  isNarrow && (isBitCount 32 bits || hasMask) || isWide && isBitCount 128 bits

/-- Whether a value is an address of `size` bytes, a network or an address in a network. A network
may leave out bytes of its address; an address may have a zone if `hasZone`. -/
def isPlace (size : Nat) (hasZone : Bool) : Value → Bool
  | .bytes bs => bs.length == size
  | .list _ [.bytes bs, bits] => bs.length == size && isBitCount (8 * size) bits
  | .list _ [bits, .bytes bs] => bs.length ≤ size && isBitCount (8 * size) bits
  | .list _ [.bytes bs, bits, _] =>
    hasZone && bs.length == size && (isBitCount (8 * size) bits || bits matches .absent)
  | _ => false

/-- The items of what can be gone through. -/
def itemsOf? : Value → Option (List Value)
  | .list _ items => some items
  | .map _ keys _ => some keys
  | .bytes _ | .text _ => some []
  | _ => none

/-- What a tag makes of a value. Tags that are not known say nothing about it. -/
def meaning (tag : Nat) (v : Value) : Option Value :=
  let check (isGood : Bool) (result : Value := .other) : Option Value :=
    if isGood then some result else none
  match tag, v with
  -- moments and dates
  | 0, .text s => check (isMoment s)
  | 1, v => check (v.floor?.any isMomentSeconds)
  | 100, v => check (v.whole?.any isDateDays)
  | 1004, .text s => check (isDate s)
  -- numbers
  | 2, .bytes bs => some (.int (Text.bigEndian bs))
  | 3, .bytes bs => some (.int (-1 - (Text.bigEndian bs : Int)))
  | 4, .list _ [exponent, n] => check (isDecimalPair exponent n) .decimal
  | 5, .list _ [exponent, n] => check (isScaledPair exponent n) .decimal
  | 30, .list _ parts => fractionOf parts
  | 43000, .list _ [re, im] => check (re.isMeasure && im.isMeasure)
  -- texts with a form of their own
  | 35, .text s => check (Pattern.isPattern true s.toList)
  | 35, .bytes bs => check (Pattern.isPattern false (bs.map fun b => Char.ofNat b.toNat))
  | 36, .text _ | 36, .absent => some .other
  | 37, .bytes bs => check (bs.length == 16)
  -- addresses and networks
  | 52, v => check (isPlace 4 false v)
  | 54, v => check (isPlace 16 true v)
  | 260, .bytes bs => check ([4, 6, 16].contains bs.length)
  | 261, .map _ [address] [bits] => check (isNetwork address bits)
  -- sets
  | 258, v => (itemsOf? v).bind fun items => check (Value.areKeys items)
  | 0, _ | 1004, _ | 2, _ | 3, _ | 4, _ | 5, _ | 30, _ | 43000, _ | 35, _ | 36, _ | 37, _
  | 260, _ | 261, _ => none
  | _, _ => some .other

/-- What is known of an item to which others can refer. -/
inductive Known where
  | nothing
  /-- The items of a list that were read so far, the last one first. -/
  | items (items : List Value)
  /-- The entries of a map that were read so far, the last one first. -/
  | entries (keys values : List Value)
  | all (v : Value)

/-- What a reference finds. -/
def Known.value? : Known → Option Value
  | nothing => none
  | items vs => some (.list false vs.reverse)
  | entries keys values => some (.map false keys.reverse values.reverse)
  | all v => some v

/-- What was read so far and can be referred to. -/
structure Memory where
  /-- The items that were marked. -/
  marked : Array Known := #[]
  /-- The strings of the space of names that is open. -/
  strings : Option (Array Value) := none

/-- What is found out in the course of reading. -/
abbrev Recall := StateT Memory Option

/-- The least length of a string that gets the next number: to refer to it has to be shorter than
to write it. -/
def leastLength (count : Nat) : Nat :=
  if count < 24 then 3
  else if count < Nat.pow 2 8 then 4
  else if count < Nat.pow 2 16 then 5
  else if count < Nat.pow 2 32 then 7
  else 11

/-- Gives a string of some bytes a number, if it is long enough. -/
def noteString (size : Nat) (v : Value) : Recall Unit := modify fun m =>
  match m.strings with
  | some strings =>
    if leastLength strings.size ≤ size then { m with strings := some (strings.push v) } else m
  | none => m

/-- Notes what is known of the item at some marks. -/
def noteKnown (marks : List Nat) (known : Known) : Recall Unit := modify fun m =>
  { m with marked := marks.foldl (fun marked i => marked.setIfInBounds i known) m.marked }

/-- Notes what the item at some marks stands for, and gives it. -/
def note (marks : List Nat) (v : Value) : Recall Value := do
  noteKnown marks (.all v)
  return v

/-- The number that a reference gives. -/
def referenceOf : Value → Recall Nat
  | .int n => if 0 ≤ n then return n.toNat else failure
  | _ => failure

mutual

/-- What an item stands for. `marks` are the numbers under which it was marked. What is not frozen
can be referred to while it is being read. -/
def valueOf (isFrozen : Bool) (marks : List Nat) : Cbor → Recall Value
  | .int n => note marks (.int n)
  | .bytes whole bs => do
    if whole then noteString bs.length (.bytes bs)
    note marks (.bytes bs)
  | .text whole s => do
    if whole then noteString s.utf8ByteSize (.text s)
    note marks (.text s)
  | .array items => itemsFrom isFrozen marks [] items
  | .map entries => entriesFrom isFrozen marks [] [] entries
  | .float size bits => note marks (.float (floatValue size bits))
  | .simple n => note marks <| match n with
    | 20 => .flag false
    | 21 => .flag true
    | 22 => .absent
    | _ => .other
  | .tagged tag item => do
    match tag with
    | 28 =>
      let mark := (← get).marked.size
      modify fun m => { m with marked := m.marked.push .nothing }
      valueOf isFrozen (mark :: marks) item
    | 256 =>
      let strings := (← get).strings
      modify fun m => { m with strings := some #[] }
      let v ← valueOf isFrozen marks item
      modify fun m => { m with strings }
      return v
    | 25 =>
      let n ← referenceOf (← valueOf isFrozen [] item)
      match (← get).strings.bind (·[n]?) with
      | some v => note marks v
      | none => failure
    | 29 =>
      let n ← referenceOf (← valueOf isFrozen [] item)
      match (← get).marked[n]?.bind Known.value? with
      | some v => note marks v
      | none => failure
    | _ =>
      match meaning tag (← valueOf (isFrozen || tag == 258) [] item) with
      | some v => note marks v
      | none => failure

/-- The list of items behind those that are known already, the last one first. -/
def itemsFrom (isFrozen : Bool) (marks : List Nat) (known : List Value) :
    List Cbor → Recall Value
  | [] => note marks (.list isFrozen known.reverse)
  | item :: items => do
    unless isFrozen do noteKnown marks (.items known)
    let v ← valueOf isFrozen [] item
    itemsFrom isFrozen marks (v :: known) items

/-- The map of entries behind those that are known already, the last one first. -/
def entriesFrom (isFrozen : Bool) (marks : List Nat) (keys values : List Value) :
    List (Cbor × Cbor) → Recall Value
  | [] => note marks (.map isFrozen keys.reverse values.reverse)
  | (key, value) :: entries => do
    unless isFrozen do noteKnown marks (.entries keys values)
    let k ← valueOf true [] key
    unless k.isKey do failure
    let v ← valueOf isFrozen [] value
    entriesFrom isFrozen marks (k :: keys) (v :: values) entries

end

/-- Whether bytes are exactly one map. -/
def isOneMap (input : List UInt8) : Bool :=
  match read input with
  | some (item, []) => ((valueOf false [] item).run {}).any fun (v, _) =>
      match v with
      | .map isFrozen _ _ => !isFrozen
      | _ => false
  | _ => false

end UpgradeSafety.Cbor
