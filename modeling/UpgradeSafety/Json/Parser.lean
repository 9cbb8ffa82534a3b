import UpgradeSafety.Json.Basic
import UpgradeSafety.Numeral.Fraction
import UpgradeSafety.Numeral.Integer

/-!
# Reading JSON

A reader over the characters of a text. Beside standard JSON it accepts `NaN`, `Infinity` and
`-Infinity`. A field that occurs twice in an object keeps its first place and its last value.

A complaint is recorded with the number of characters that were left where it arose, so its line
and column are found from the text itself.
-/

namespace UpgradeSafety.Json

/-- What is wrong with a text that is no JSON. -/
inductive Complaint where
  | byteOrderMark
  | expectedValue
  | expectedName
  | expectedColon
  | expectedComma
  | unterminatedString
  | controlCharacter
  | badEscape
  | badUnicodeEscape
  | extraData
  /-- An integer of too many digits. The text may be JSON all the same. -/
  | overlong (digits : Nat)
  deriving DecidableEq, Repr

/-- The wording of a complaint. -/
def Complaint.text : Complaint → String
  | byteOrderMark => "Unexpected UTF-8 BOM (decode using utf-8-sig)"
  | expectedValue => "Expecting value"
  | expectedName => "Expecting property name enclosed in double quotes"
  | expectedColon => "Expecting ':' delimiter"
  | expectedComma => "Expecting ',' delimiter"
  | unterminatedString => "Unterminated string starting at"
  | controlCharacter => "Invalid control character at"
  | badEscape => "Invalid \\escape"
  | badUnicodeEscape => "Invalid \\uXXXX escape"
  | extraData => "Extra data"
  | overlong _ => "Integer with too many digits"

/-- A complaint and the number of characters left where it arose. -/
structure SyntaxFault where
  complaint : Complaint
  left : Nat
  deriving DecidableEq, Repr

/-- The message of a fault in the text `s`: the wording with line, column and offset. -/
def SyntaxFault.message (s : String) (e : SyntaxFault) : String :=
  let cs := s.toList
  let offset := cs.length - e.left
  let before := cs.take offset
  let line := before.count '\n' + 1
  let column := (before.reverse.takeWhile (· != '\n')).length + 1
  e.complaint.text ++ ": line " ++ toString line ++ " column " ++ toString column ++
    " (char " ++ toString offset ++ ")"

/-- The blanks of JSON. -/
def isSpace (c : Char) : Bool := c == ' ' || c == '\t' || c == '\n' || c == '\r'

/-- Skips blanks. -/
def skipSpace (cs : List Char) : List Char := cs.dropWhile isSpace

/-- Ends a reading with a complaint at `rest`. -/
def complain {α : Type} (c : Complaint) (rest : List Char) : Except SyntaxFault α :=
  .error ⟨c, rest.length⟩

/-- The value of a hexadecimal digit. -/
def hexValue? (c : Char) : Option Nat :=
  if c.isDigit then some (c.toNat - 0x30)
  else if 'a' ≤ c && c ≤ 'f' then some (c.toNat - 0x61 + 10)
  else if 'A' ≤ c && c ≤ 'F' then some (c.toNat - 0x41 + 10)
  else none

/-- Four hexadecimal digits after `\u`, with at least one more character behind them. -/
def readHex4 : List Char → Option (Nat × List Char)
  | a :: b :: c :: d :: e :: rest => do
    let a ← hexValue? a
    let b ← hexValue? b
    let c ← hexValue? c
    let d ← hexValue? d
    some (((a * 16 + b) * 16 + c) * 16 + d, e :: rest)
  | _ => none

/-- The character that a one-letter escape stands for. -/
def escaped? : Char → Option Char
  | '"' => some '"'
  | '\\' => some '\\'
  | '/' => some '/'
  | 'b' => some '\x08'
  | 'f' => some '\x0c'
  | 'n' => some '\n'
  | 'r' => some '\r'
  | 't' => some '\t'
  | _ => none

/-- A second half of a surrogate pair directly after the first: its value and the rest. `none`
when the text does not go on with an escape; a broken escape there is a complaint. -/
def readLowHalf (rest : List Char) : Except SyntaxFault (Option (Nat × List Char)) :=
  match rest with
  | '\\' :: 'u' :: more =>
    if more.length < 5 then .ok none
    else match readHex4 more with
      | none => complain .badUnicodeEscape ('u' :: more)
      | some (low, rest) =>
        if 0xdc00 ≤ low && low < 0xe000 then .ok (some (low, rest)) else .ok none
  | _ => .ok none

/-- The body of a string after its opening quote: `read` holds the characters read so far, last
first, and `start` is the text from the opening quote on. The fuel bounds the number of steps; one
for each character suffices. -/
def readString (start : List Char) : Nat → List Char → List Char →
    Except SyntaxFault (String × List Char)
  | 0, _, _ => complain .unterminatedString start
  | _ + 1, _, [] => complain .unterminatedString start
  | _ + 1, read, '"' :: rest => .ok (String.ofList read.reverse, rest)
  | _ + 1, _, ['\\'] => complain .unterminatedString start
  | fuel + 1, read, '\\' :: 'u' :: rest =>
    match readHex4 rest with
    | none => complain .badUnicodeEscape ('u' :: rest)
    | some (high, rest) =>
      if 0xd800 ≤ high && high < 0xdc00 then
        match readLowHalf rest with
        | .error e => .error e
        | .ok none => readString start fuel (Char.ofNat 0xfffd :: read) rest
        | .ok (some (low, rest)) =>
          let code := 0x10000 + (high - 0xd800) * 0x400 + (low - 0xdc00)
          readString start fuel (Char.ofNat code :: read) rest
      else if 0xdc00 ≤ high && high < 0xe000 then
        readString start fuel (Char.ofNat 0xfffd :: read) rest
      else readString start fuel (Char.ofNat high :: read) rest
  | fuel + 1, read, '\\' :: c :: rest =>
    match escaped? c with
    | some d => readString start fuel (d :: read) rest
    | none => complain .badEscape ('\\' :: c :: rest)
  | fuel + 1, read, c :: rest =>
    if c.toNat ≤ 0x1f then complain .controlCharacter (c :: rest)
    else readString start fuel (c :: read) rest

/-- The number that ASCII digits write. -/
def digitsValue (ds : List Char) : Nat := ds.foldl (fun n d => n * 10 + (d.toNat - 0x30)) 0

/-- The fraction digits after a point, with the rest; none when no digit follows the point. -/
def readFraction : List Char → Option (List Char × List Char)
  | '.' :: rest =>
    match rest.takeWhile Char.isDigit with
    | [] => none
    | ds => some (ds, rest.dropWhile Char.isDigit)
  | _ => none

/-- The exponent after `e` or `E`, with the rest; none when no digit follows. -/
def readExponent (cs : List Char) : Option (Int × List Char) :=
  let digits (negative : Bool) (rest : List Char) : Option (Int × List Char) :=
    match rest.takeWhile Char.isDigit with
    | [] => none
    | ds =>
      let n : Int := digitsValue ds
      some (if negative then -n else n, rest.dropWhile Char.isDigit)
  match cs with
  | 'e' :: '-' :: rest | 'E' :: '-' :: rest => digits true rest
  | 'e' :: '+' :: rest | 'E' :: '+' :: rest => digits false rest
  | 'e' :: rest | 'E' :: rest => digits false rest
  | _ => none

/-- A number, with the rest; none when the text does not begin with one. -/
def readNumber (cs : List Char) : Option (Json × List Char) :=
  let (negative, body) := match cs with
    | '-' :: r => (true, r)
    | r => (false, r)
  let whole : Option (List Char × List Char) := match body with
    | '0' :: r => some (['0'], r)
    | c :: r =>
      if c.isDigit then some ((c :: r).takeWhile Char.isDigit, (c :: r).dropWhile Char.isDigit)
      else none
    | [] => none
  match whole with
  | none => none
  | some (ds, rest) =>
    let fraction := readFraction rest
    let (fs, rest) := fraction.getD ([], rest)
    let exponent := readExponent rest
    let (e, rest) := exponent.getD (0, rest)
    if fraction.isNone && exponent.isNone then
      let n : Int := digitsValue ds
      some (.int (if negative then -n else n), rest)
    else
      some (.float (Numeral.floatOfDecimal negative (digitsValue (ds ++ fs)) (e - fs.length)), rest)

/-- How many digits the integer at the front of a text has, when they are more than are read; `v` is
the number that stands there. -/
def overlong? (v : Json) (cs : List Char) : Option Nat :=
  match v, if cs.head? == some '-' then cs.drop 1 else cs with
  | int _, '0' :: _ => none
  | int _, body =>
    let digits := (body.takeWhile Char.isDigit).length
    if Numeral.maxDecimalDigits < digits then some digits else none
  | _, _ => none

/-- Drops a word from the front of a text. -/
def dropWord (word : String) (cs : List Char) : Option (List Char) :=
  if cs.take word.length == word.toList then some (cs.drop word.length) else none

/-- The words that stand for values. -/
def constants : List (String × Json) :=
  [("null", null), ("true", bool true), ("false", bool false), ("NaN", float (0.0 / 0.0)),
    ("Infinity", float (1.0 / 0.0)), ("-Infinity", float (-1.0 / 0.0))]

mutual

/-- A value at the front of a text, with the rest. The fuel bounds the number of steps; twice the
number of characters suffices. -/
def readValue : Nat → List Char → Except SyntaxFault (Json × List Char)
  | 0, cs => complain .expectedValue cs
  | fuel + 1, cs =>
    match cs with
    | '"' :: rest => do
      let (s, rest) ← readString cs (rest.length + 1) [] rest
      .ok (.str s, rest)
    | '[' :: rest =>
      match skipSpace rest with
      | ']' :: rest => .ok (.arr [], rest)
      | rest => do
        let (items, rest) ← readItems fuel [] rest
        .ok (.arr items, rest)
    | '\x7b' :: rest =>
      match skipSpace rest with
      | '\x7d' :: rest => .ok (.obj [], rest)
      | rest => do
        let (fields, rest) ← readFields fuel [] rest
        .ok (.obj fields, rest)
    | _ =>
      match constants.findSome? fun (word, v) => (dropWord word cs).map fun rest => (v, rest) with
      | some found => .ok found
      | none => match readNumber cs with
        | some (v, rest) =>
          match overlong? v cs with
          | some digits => complain (.overlong digits) cs
          | none => .ok (v, rest)
        | none => complain .expectedValue cs

/-- The elements of an array up to its closing bracket, after those already read, last first. -/
def readItems : Nat → List Json → List Char → Except SyntaxFault (List Json × List Char)
  | 0, _, cs => complain .expectedValue cs
  | fuel + 1, read, cs => do
    let (v, rest) ← readValue fuel cs
    match skipSpace rest with
    | ']' :: rest => .ok ((v :: read).reverse, rest)
    | ',' :: rest => readItems fuel (v :: read) (skipSpace rest)
    | rest => complain .expectedComma rest

/-- The fields of an object up to its closing brace, after those already read. -/
def readFields : Nat → Fields → List Char → Except SyntaxFault (Fields × List Char)
  | 0, _, cs => complain .expectedName cs
  | fuel + 1, read, cs =>
    match cs with
    | '"' :: rest => do
      let (name, rest) ← readString cs (rest.length + 1) [] rest
      match skipSpace rest with
      | ':' :: rest => do
        let (v, rest) ← readValue fuel (skipSpace rest)
        match skipSpace rest with
        | '\x7d' :: rest => .ok (putField name v read, rest)
        | ',' :: rest => readFields fuel (putField name v read) (skipSpace rest)
        | rest => complain .expectedComma rest
      | rest => complain .expectedColon rest
    | _ => complain .expectedName cs

end

/-- Reads a text that holds exactly one value. -/
def parse (s : String) : Except SyntaxFault Json := do
  let cs := s.toList
  match cs with
  | '\ufeff' :: _ => complain .byteOrderMark cs
  | _ =>
    let (v, rest) ← readValue (2 * cs.length + 1) (skipSpace cs)
    match skipSpace rest with
    | [] => .ok v
    | rest => complain .extraData rest

end UpgradeSafety.Json
