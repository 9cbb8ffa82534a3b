import UpgradeSafety.Text.Hex

/-!
# Texts in UTF-8

Reading stops at the first byte sequence that encodes no character. The fault tells the bytes at
fault by their positions, the first of them, and the rule that they break.
-/

namespace UpgradeSafety.Text

/-- The rules that bytes can break. -/
inductive Utf8Rule where
  | startByte
  | continuation
  | complete
  deriving DecidableEq, Repr

/-- The wording of a broken rule. -/
def Utf8Rule.complaint : Utf8Rule → String
  | startByte => "invalid start byte"
  | continuation => "invalid continuation byte"
  | complete => "unexpected end of data"

/-- Where bytes are not in UTF-8: the first of `count` bytes at fault stands at `position`. -/
structure Utf8Fault where
  byte : UInt8
  position : Nat
  count : Nat
  rule : Utf8Rule
  deriving DecidableEq, Repr

/-- The message for a fault. -/
def Utf8Fault.message (f : Utf8Fault) : String :=
  "'utf-8' codec can't decode " ++
    (if f.count = 1 then
      "byte 0x" ++ hexOfBytes [f.byte] ++ " in position " ++ toString f.position
    else
      "bytes in position " ++ toString f.position ++ "-" ++ toString (f.position + f.count - 1)) ++
    ": " ++ f.rule.complaint

/-- The number of bytes of a character that begins with a byte; none when no character does. -/
def sequenceLength? (b : UInt8) : Option Nat :=
  let n := b.toNat
  if n < 0x80 then some 1
  else if n < 0xc2 then none
  else if n < 0xe0 then some 2
  else if n < 0xf0 then some 3
  else if n < 0xf5 then some 4
  else none

/-- Whether a byte may be the second one behind a first byte: sequences that are longer than needed,
surrogates and numbers above the last character are excluded. -/
def isSecond (first b : UInt8) : Bool :=
  let n := b.toNat
  let low := if first = 0xe0 then 0xa0 else if first = 0xf0 then 0x90 else 0x80
  let high := if first = 0xed then 0x9f else if first = 0xf4 then 0x8f else 0xbf
  low ≤ n && n ≤ high

/-- Whether a byte may be the third or the fourth one. -/
def isContinuation (b : UInt8) : Bool := b.toNat / 64 == 2

/-- How many of the bytes behind a first byte continue its character, of at most `most`. -/
def continued (first : UInt8) (most : Nat) (bytes : List UInt8) : Nat :=
  match bytes.take most with
  | [] => 0
  | b :: more => if isSecond first b then (more.takeWhile isContinuation).length + 1 else 0

/-- The character that a complete sequence encodes. -/
def charOfSequence (first : UInt8) (more : List UInt8) : Char :=
  let lead := match more.length with
    | 0 => first.toNat
    | 1 => first.toNat % 0x20
    | 2 => first.toNat % 0x10
    | _ => first.toNat % 0x08
  Char.ofNat (more.foldl (fun n b => n * 64 + b.toNat % 64) lead)

/-- Reads characters from position `i` on. The fuel bounds the number of characters. -/
def readUtf8 : Nat → Nat → List UInt8 → Except Utf8Fault (List Char)
  | 0, _, _ | _, _, [] => .ok []
  | fuel + 1, i, b :: rest =>
    match sequenceLength? b with
    | none => .error ⟨b, i, 1, .startByte⟩
    | some size =>
      let good := continued b (size - 1) rest
      if good = size - 1 then do
        let cs ← readUtf8 fuel (i + size) (rest.drop good)
        return charOfSequence b (rest.take good) :: cs
      else if good = rest.length then .error ⟨b, i, good + 1, .complete⟩
      else .error ⟨b, i, good + 1, .continuation⟩

/-- Reads a text in UTF-8. -/
def decodeUtf8 (bytes : List UInt8) : Except Utf8Fault String :=
  (readUtf8 bytes.length 0 bytes).map String.ofList

end UpgradeSafety.Text
