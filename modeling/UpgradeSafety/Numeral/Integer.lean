import UpgradeSafety.Text.Blank
import UpgradeSafety.Text.DecimalDigit

/-!
# Written integers

An integer is written with optional blanks around it, an optional sign, an optional base mark
(`0x`, `0o`, `0b`) and digits of any script. One underscore may stand between two digits and after
a base mark. When the base is left open, a written zero may be followed by zeros only.
-/

namespace UpgradeSafety.Numeral

open Text

/-- The base a reader works in. `asMarked` takes it from the mark, ten without one. -/
inductive Base where
  | asMarked
  | ten
  | sixteen
  deriving DecidableEq, Repr

namespace Base

/-- The number by which a failure to read names the base. -/
def number : Base → Nat
  | asMarked => 0
  | ten => 10
  | sixteen => 16

end Base

/-- Why a text is no integer. -/
inductive IntegerFault where
  /-- The text does not follow the grammar. -/
  | malformed
  /-- More decimal digits than the reader accepts. -/
  | tooLong (digits : Nat)
  deriving DecidableEq, Repr

/-- The number of digits of the longest decimal number that is read. -/
def maxDecimalDigits : Nat := 4300

/-- Whether an integer may be written in decimal: with no more digits than are read. -/
def isWritable (n : Int) : Bool := n.natAbs < Nat.pow 10 maxDecimalDigits

/-- The plain character that a blank or a digit of any script stands for. ASCII stays as it is. -/
def plainChar (c : Char) : Char :=
  if c.toNat < 0x7f then c
  else if isBlank c then ' '
  else match decimalDigit? c with
    | some d => Char.ofNat (0x30 + d)
    | none => '?'

/-- The value of an ASCII digit or letter as a digit of a base up to 36. -/
def digitValue? (c : Char) : Option Nat :=
  if c.isDigit then some (c.toNat - 0x30)
  else if 'a' ≤ c && c ≤ 'z' then some (c.toNat - 0x61 + 10)
  else if 'A' ≤ c && c ≤ 'Z' then some (c.toNat - 0x41 + 10)
  else none

/-- Reads digits of `base` up to the first other character: the value, the number of digits and
the rest. `afterDigit` says that an underscore may come next; none when the digits break the rule
that an underscore stands between two digits. -/
def readDigits (base : Nat) (value count : Nat) (afterDigit : Bool) :
    List Char → Option (Nat × Nat × List Char)
  | [] => if afterDigit then some (value, count, []) else none
  | '_' :: cs => if afterDigit then readDigits base value count false cs else none
  | c :: cs =>
    match digitValue? c with
    | some d =>
      if d < base then readDigits base (value * base + d) (count + 1) true cs
      else if afterDigit then some (value, count, c :: cs) else none
    | none => if afterDigit then some (value, count, c :: cs) else none

/-- The base of a text after its sign, the text after the base mark, and whether only zero is
allowed. -/
def baseMark (base : Base) (cs : List Char) : Nat × List Char × Bool :=
  let marked (n : Nat) (rest : List Char) : Nat × List Char × Bool :=
    (n, match rest with | '_' :: r => r | r => r, false)
  match base, cs with
  | .asMarked, '0' :: 'x' :: r | .asMarked, '0' :: 'X' :: r => marked 16 r
  | .asMarked, '0' :: 'o' :: r | .asMarked, '0' :: 'O' :: r => marked 8 r
  | .asMarked, '0' :: 'b' :: r | .asMarked, '0' :: 'B' :: r => marked 2 r
  | .asMarked, '0' :: r => (10, '0' :: r, true)
  | .asMarked, r => (10, r, false)
  | .sixteen, '0' :: 'x' :: r | .sixteen, '0' :: 'X' :: r => marked 16 r
  | .sixteen, r => (16, r, false)
  | .ten, r => (10, r, false)

/-- The sign of a text and what follows it. -/
def readSign : List Char → Bool × List Char
  | '-' :: r => (true, r)
  | '+' :: r => (false, r)
  | r => (false, r)

/-- Reads a written integer. -/
def readInteger (base : Base) (s : String) : Except IntegerFault Int :=
  let cs := (s.toList.map plainChar).dropWhile isAsciiBlank
  let (negative, cs) := readSign cs
  let (radix, cs, zeroOnly) := baseMark base cs
  match readDigits radix 0 0 false cs with
  | none => .error .malformed
  | some (value, count, rest) =>
    if radix == 10 && maxDecimalDigits < count then .error (.tooLong count)
    else if zeroOnly && value != 0 then .error .malformed
    else if rest.all isAsciiBlank then .ok (if negative then -(value : Int) else value)
    else .error .malformed

end UpgradeSafety.Numeral
