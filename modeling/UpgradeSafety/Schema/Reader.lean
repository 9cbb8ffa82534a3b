import UpgradeSafety.Json.Basic
import UpgradeSafety.Numeral.Integer
import UpgradeSafety.Schema.Checked
import UpgradeSafety.Text.Quoted

/-!
# Reading the values of records

How lenient a record is with its values: whole numbers may be written as truth values, as floats
without a fraction or as texts, truth values as certain words and numbers, and texts as nothing
else. A field is known by its name in camel case and by its name in snake case; the first wins.
-/

namespace UpgradeSafety.Schema

open Numeral

/-- A text. -/
def text : Json → Checked String
  | .str s => .valid s
  | _ => .fail .notText

/-- A text without its underscores, unless one stands at an end or beside another. -/
def joinDigits (cs : List Char) : List Char :=
  let double := (cs.zip (cs.drop 1)).any fun (a, b) => a == '_' && b == '_'
  if cs.head? == some '_' || cs.getLast? == some '_' || double then cs
  else cs.filter (· != '_')

/-- The rest of a number behind a leading zero: from its first other digit or a minus, or from the
character before a point; of zeros alone the last character. `last` is the character before. -/
def afterZeros (last : Char) : List Char → Option (List Char)
  | [] => some [last]
  | c :: cs =>
    if c == '0' || c == '_' then afterZeros c cs
    else if c == '-' || c.isDigit then some (c :: cs)
    else if c == '.' then some (last :: c :: cs)
    else none

/-- A number without leading zeros. -/
def dropLeadingZeros : List Char → Option (List Char)
  | [] => none
  | c :: cs =>
    if c == '0' then afterZeros c cs
    else if c == '-' || c.isDigit then some (c :: cs)
    else none

/-- A number without a point that only zeros follow. -/
def dropZeroFraction (cs : List Char) : List Char :=
  if ((cs.dropWhile (· != '.')).drop 1).all (· == '0') then cs.takeWhile (· != '.') else cs

/-- A plain number: an optional minus and digits, the first of which is zero only if it is the only
one. -/
def plainWhole (cs : List Char) : Checked Int :=
  let (negative, body) := match cs with
    | '-' :: r => (true, r)
    | r => (false, r)
  let ds := body.takeWhile Char.isDigit
  let n : Int := ds.foldl (fun n d => n * 10 + (d.toNat - 0x30 : Nat)) 0
  if ds.head? != some '0' && maxDecimalDigits < ds.length + (cs.length - body.length) then
    .fail .wholeSize
  else if ds.isEmpty || ds.length != body.length || (ds.head? == some '0' && ds.length != 1) then
    .fail .wholeSyntax
  else .valid (if negative then -n else n)

/-- A whole number written in a text for a field without a reader of its own: with blanks around
it, a plus or zeros in front of it, underscores within it and a fraction of zeros behind it. -/
def wholeOfText (s : String) : Checked Int :=
  let body := match Text.trimBoth Text.isSpace s.toList with
    | '+' :: '-' :: r => '+' :: '-' :: r
    | '+' :: r => r
    | r => r
  match dropLeadingZeros body with
  | some cs => plainWhole (joinDigits (dropZeroFraction cs))
  | none => .fail .wholeSyntax

/-- A float as a whole number of 64 bits. -/
def wholeOfFloat (x : Float) : Checked Int :=
  match (Binary64.ofFloat x).wholeNumber? with
  | none => if (Binary64.ofFloat x).isFinite then .fail .fractional else .fail .notFinite
  | some n => if n.natAbs < Nat.pow 2 63 then .valid n else .fail .wholeSize

/-- A whole number in any of its forms. -/
def whole : Json → Checked Int
  | .int n => .valid n
  | .bool b => .valid (if b then 1 else 0)
  | .float x => wholeOfFloat x
  | .str s => wholeOfText s
  | _ => .fail .notWhole

/-- The words for true and false, in any letter case. -/
def flagWord? (s : String) : Option Bool :=
  let w := String.ofList (s.toList.map Char.toLower)
  if ["0", "off", "f", "false", "n", "no"].contains w then some false
  else if ["1", "on", "t", "true", "y", "yes"].contains w then some true
  else none

/-- Zero and one as truth values. A number of more than 64 bits is not read as one at all. -/
def flagOfNumber (n : Int) : Checked Bool :=
  if n = 0 then .valid false
  else if n = 1 then .valid true
  else if -(Nat.pow 2 63 : Int) ≤ n && n < Nat.pow 2 63 then .fail .flagSyntax
  else .fail .notFlag

/-- A truth value in any of its forms. -/
def flag : Json → Checked Bool
  | .bool b => .valid b
  | .str s =>
    match flagWord? s with
    | some b => .valid b
    | none => .fail .flagSyntax
  | .int n => flagOfNumber n
  | .float x =>
    match wholeOfFloat x with
    | .valid n => flagOfNumber n
    | .invalid _ => .fail .notFlag
  | _ => .fail .notFlag

variable {α : Type}

/-- A list whose elements pass a check. -/
def list (element : Json → Checked α) : Json → Checked (List α)
  | .arr items => Checked.allFrom element 0 items
  | _ => .fail .notList

/-- A table whose values pass a check. -/
def table (value : Json → Checked α) : Json → Checked (List (String × α))
  | .obj fields => Checked.allNamed value fields
  | _ => .fail .notTable

/-- The fields of a record. -/
def record (read : Fields → Checked α) : Json → Checked α
  | .obj fields => read fields
  | _ => .fail .notRecord

/-- `null`, or a value that passes a check. -/
def nullable (check : Json → Checked α) : Json → Checked (Option α)
  | .null => .valid none
  | v => (check v).map some

/-- One of the words of a kind. -/
def oneOf (kind : String → Option α) : Json → Checked α
  | .str s =>
    match kind s with
    | some a => .valid a
    | none => .fail .notListedKind
  | _ => .fail .notListedKind

/-- The two names of a field. -/
structure Name where
  camel : String
  snake : String

/-- A name that is the same in both cases. -/
def Name.plain (s : String) : Name := ⟨s, s⟩

/-- The value of a field and the name it was found under. -/
def Name.find? (name : Name) (fields : Fields) : Option (String × Json) :=
  match fields.lookup name.camel with
  | some v => some (name.camel, v)
  | none => (fields.lookup name.snake).map fun v => (name.snake, v)

/-- A field that must be present. -/
def required (fields : Fields) (name : Name) (check : Json → Checked α) : Checked α :=
  match name.find? fields with
  | some (found, v) => (check v).under (.field found)
  | none => .invalid [⟨[.field name.camel], .missing⟩]

/-- A field with a default for its absence; a present `null` is checked like any value. -/
def defaulted (fields : Fields) (name : Name) (check : Json → Checked α) (default : α) :
    Checked α :=
  match name.find? fields with
  | some (found, v) => (check v).under (.field found)
  | none => .valid default

/-- A field that may be absent or `null`. -/
def optional (fields : Fields) (name : Name) (check : Json → Checked α) : Checked (Option α) :=
  defaulted fields name (nullable check) none

/-- The complaint about an integer with too many digits. -/
def digitsComplaint (digits : String) : String :=
  "Exceeds the limit (" ++ toString maxDecimalDigits ++
    " digits) for integer string conversion" ++ digits ++
    "; use sys.set_int_max_str_digits() to increase the limit"

/-- The complaint about a text that is no integer. Long texts are cut. -/
def integerComplaint (base : Base) (s : String) : IntegerFault → String
  | .malformed =>
    "invalid literal for int() with base " ++ toString base.number ++ ": " ++
      String.ofList ((Text.quote s).toList.take 200)
  | .tooLong digits => digitsComplaint (": value has " ++ toString digits ++ " digits")

/-- A whole number that a text writes in the manner of source code; other values as `whole`. -/
def writtenWhole (base : Base) : Json → Checked Int
  | .str s =>
    match readInteger base s with
    | .ok n => .valid n
    | .error e => .fail (.rule ("Value error, " ++ integerComplaint base s e))
  | v => whole v

end UpgradeSafety.Schema
