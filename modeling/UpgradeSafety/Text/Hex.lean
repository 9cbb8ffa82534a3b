import UpgradeSafety.Text.Blank
import UpgradeSafety.Text.Quoted

/-!
# Bytes in hexadecimal

Bytes are written with two digits each. A reader also accepts blanks between two bytes.
-/

namespace UpgradeSafety.Text

/-- The value of a hexadecimal digit. -/
def hexNibble? (c : Char) : Option Nat :=
  if c.isDigit then some (c.toNat - 0x30)
  else if 'a' ≤ c && c ≤ 'f' then some (c.toNat - 0x61 + 10)
  else if 'A' ≤ c && c ≤ 'F' then some (c.toNat - 0x41 + 10)
  else none

/-- Bytes as pairs of digits. -/
def hexOfBytes (bytes : List UInt8) : String :=
  String.ofList (bytes.flatMap fun b => hexDigits 2 b.toNat)

/-- Reads pairs of digits; ASCII blanks may stand between two bytes. -/
def readHexBytes : List Char → Option (List UInt8)
  | [] => some []
  | [c] => if isAsciiBlank c then some [] else none
  | c :: d :: rest =>
    if isAsciiBlank c then readHexBytes (d :: rest)
    else do
      let high ← hexNibble? c
      let low ← hexNibble? d
      let bytes ← readHexBytes rest
      some (UInt8.ofNat (16 * high + low) :: bytes)

/-- The bytes that a text writes in hexadecimal. -/
def bytesOfHex? (s : String) : Option (List UInt8) := readHexBytes s.toList

/-- The bytes of a text in UTF-8. -/
def utf8Bytes (s : String) : List UInt8 := s.toUTF8.toList

/-- The number that bytes write, the first one highest. -/
def bigEndian (bytes : List UInt8) : Nat := bytes.foldl (fun n b => n * 256 + b.toNat) 0

end UpgradeSafety.Text
