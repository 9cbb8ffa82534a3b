import UpgradeSafety.Text.Hex

/-!
# Addresses of networks

An address of the fourth version is a number of 32 bits, written as four decimal numbers with points
between them; one of the sixth version is a number of 128 bits, written as eight hexadecimal numbers
with colons between them, of which one run of zeros may be left out. A network is an address with
the number of leading bits that its members share.
-/

namespace UpgradeSafety.Cbor

/-- The parts of a text between the places of a mark. -/
def splitAt (mark : Char) : List Char → List (List Char)
  | [] => [[]]
  | c :: cs =>
    match splitAt mark cs with
    | [] => [[c]]
    | part :: parts => if c == mark then [] :: part :: parts else (c :: part) :: parts

/-- The number that decimal digits write. -/
def decimalOf? (cs : List Char) : Option Nat :=
  if cs.isEmpty || !cs.all Char.isDigit then none
  else some (cs.foldl (fun n c => 10 * n + (c.toNat - 0x30)) 0)

/-- The bytes of an address of the fourth version. No number is written with a leading zero. -/
def quadOf? (cs : List Char) : Option (List Nat) :=
  let parts := splitAt '.' cs
  if parts.length != 4 then none
  else parts.mapM fun part => do
    let n ← decimalOf? part
    if part.length ≤ 3 && n < 256 && !(part.length != 1 && part.head? == some '0') then some n
    else none

/-- Whether a part of an address of the sixth version is a hexadecimal number of 16 bits. -/
def isGroup (cs : List Char) : Bool :=
  !cs.isEmpty && cs.length ≤ 4 && cs.all fun c => (Text.hexNibble? c).isSome

/-- Whether groups stand on one side of the run that is left out; there may be none. -/
def isSide (groups : List (List Char)) : Bool := groups == [[]] || groups.all isGroup

/-- Whether parts are the groups of an address of the sixth version: eight of them, or fewer on the
sides of one run that is left out. -/
def areGroups : List (List Char) → Bool
  | [] => false
  | first :: parts =>
    let front := first :: parts.takeWhile fun part => !part.isEmpty
    match parts.dropWhile fun part => !part.isEmpty with
    | [] => front.length == 8 && front.all isGroup
    | _ :: back =>
      !back.isEmpty && isSide front && isSide back &&
        ((front ++ back).filter fun part => !part.isEmpty).length < 8

/-- Whether a text is an address of the sixth version. Its last two groups may be written like an
address of the fourth version, and the name of a zone may follow it. -/
def isWideAddress (cs : List Char) : Bool :=
  let address := cs.takeWhile (· != '%')
  let zone := cs.dropWhile (· != '%')
  let parts := splitAt ':' address
  let last := parts.getLast?.getD []
  (zone.isEmpty || zone != ['%'] && !(zone.drop 1).contains '%') && 3 ≤ parts.length &&
    if last.contains '.' then
      (quadOf? last).isSome && areGroups (parts.dropLast ++ [['0'], ['0']])
    else areGroups parts

/-- Whether the bytes of an address are a mask: ones in front of zeros, or zeros in front of ones.
-/
def isMask (quad : List Nat) : Bool :=
  let n := quad.foldl (fun n b => 256 * n + b) 0
  let isRun (n : Nat) : Bool := Nat.land n (n + 1) == 0
  isRun n || isRun (Nat.pow 2 32 - 1 - n)

end UpgradeSafety.Cbor
