import UpgradeSafety.Json.Access
import UpgradeSafety.Numeral.FixedText

/-!
# Templates of messages

A template is a text with places for values. A place begins with a percent sign and ends with a
letter, its conversion; in between stand the name of the value, marks, a width and a precision, all
of which may be left out. A doubled percent sign stands for itself.

A template is first split into its pieces, and then the values are put in from left to right.
-/

namespace UpgradeSafety.Log

open Numeral

/-! ## Pieces -/

/-- A width or a precision: absent, written, or taken from the next value. -/
inductive Measure where
  | absent
  | written (n : Nat)
  | next
  deriving DecidableEq, Repr

/-- A place for a value. -/
structure Place where
  /-- The name of the value. -/
  key : Option String
  marks : List Char
  width : Measure
  precision : Measure
  /-- How the value is written; none if the template ends before it. -/
  conversion : Option Char
  /-- The position of the conversion in the template. -/
  position : Nat
  deriving DecidableEq, Repr

/-- A piece of a template. -/
inductive Piece where
  | plain (c : Char)
  /-- The template ends within the name of a value. -/
  | openKey
  | place (p : Place)
  deriving DecidableEq, Repr

/-- The name of a value up to the parenthesis that closes it, and what follows it. Parentheses
inside it are balanced; `depth` of them are open. -/
def readKey (depth : Nat) : List Char → Option (List Char × List Char)
  | [] => none
  | ')' :: cs =>
    match depth with
    | 0 => some ([], cs)
    | depth + 1 => (readKey depth cs).map fun (key, rest) => (')' :: key, rest)
  | '(' :: cs => (readKey (depth + 1) cs).map fun (key, rest) => ('(' :: key, rest)
  | c :: cs => (readKey depth cs).map fun (key, rest) => (c :: key, rest)

/-- The value of decimal digits. -/
def valueOfDigits (ds : List Char) : Nat := ds.foldl (fun n d => n * 10 + (d.toNat - 0x30)) 0

/-- A width or a precision at the front of a text. -/
def readMeasure : List Char → Measure × List Char
  | '*' :: cs => (.next, cs)
  | cs =>
    let ds := cs.takeWhile Char.isDigit
    (if ds.isEmpty then .absent else .written (valueOfDigits ds), cs.dropWhile Char.isDigit)

/-- A precision at the front of a text: behind a point, zero without digits. -/
def readPrecision : List Char → Measure × List Char
  | '.' :: cs =>
    match readMeasure cs with
    | (.absent, rest) => (.written 0, rest)
    | found => found
  | cs => (.absent, cs)

/-- Drops the letter that tells the size of a number, which has no meaning. -/
def dropSize : List Char → List Char
  | c :: cs => if c == 'h' || c == 'l' || c == 'L' then cs else c :: cs
  | [] => []

/-- The marks of a place. -/
def isMark (c : Char) : Bool := "-+ #0".toList.contains c

/-- The rest of a place behind its name, and what follows it. The template has `size` characters. -/
def readPlace (size : Nat) (key : Option String) (cs : List Char) : Place × List Char :=
  let (width, afterWidth) := readMeasure (cs.dropWhile isMark)
  let (precision, afterPrecision) := readPrecision afterWidth
  let rest := dropSize afterPrecision
  (⟨key, cs.takeWhile isMark, width, precision, rest.head?, size - rest.length⟩, rest.tail)

theorem length_of_readKey {depth : Nat} {cs key rest : List Char}
    (h : readKey depth cs = some (key, rest)) : rest.length < cs.length := by
  fun_induction readKey depth cs generalizing key with
  | case1 => simp at h
  | case2 cs => simp_all
  | case3 cs depth ih | case4 depth cs ih | case5 depth c cs _ _ ih =>
    obtain ⟨⟨k, r⟩, found, e⟩ := Option.map_eq_some_iff.1 h
    obtain ⟨-, rfl⟩ := Prod.mk.inj e
    have := ih found
    simp only [List.length_cons]
    omega

theorem length_dropWhile_le {α : Type} (p : α → Bool) (l : List α) :
    (l.dropWhile p).length ≤ l.length := (List.dropWhile_suffix p).length_le

theorem length_readMeasure_le (cs : List Char) : (readMeasure cs).2.length ≤ cs.length := by
  unfold readMeasure
  split
  · simp
  · exact length_dropWhile_le ..

theorem length_readPrecision_le (cs : List Char) : (readPrecision cs).2.length ≤ cs.length := by
  unfold readPrecision
  split
  · rename_i cs
    have := length_readMeasure_le cs
    split <;> simp_all <;> omega
  · simp

theorem length_dropSize_le (cs : List Char) : (dropSize cs).length ≤ cs.length := by
  unfold dropSize
  split
  · split <;> simp
  · simp

theorem length_readPlace_le (size : Nat) (key : Option String) (cs : List Char) :
    (readPlace size key cs).2.length ≤ cs.length := by
  simp only [readPlace, List.length_tail]
  have h₁ := length_dropWhile_le isMark cs
  have h₂ := length_readMeasure_le (cs.dropWhile isMark)
  have h₃ := length_readPrecision_le (readMeasure (cs.dropWhile isMark)).2
  have h₄ := length_dropSize_le (readPrecision (readMeasure (cs.dropWhile isMark)).2).2
  omega

/-- The pieces of a template of `size` characters, from some position to its end. -/
def readPieces (size : Nat) : List Char → List Piece
  | [] => []
  | '%' :: '%' :: cs => .plain '%' :: readPieces size cs
  | '%' :: '(' :: cs =>
    match h : readKey 0 cs with
    | none => [.openKey]
    | some (key, rest) =>
      have := length_of_readKey h
      have := length_readPlace_le size (some (String.ofList key)) rest
      let found := readPlace size (some (String.ofList key)) rest
      .place found.1 :: readPieces size found.2
  | '%' :: cs =>
    have := length_readPlace_le size none cs
    .place (readPlace size none cs).1 :: readPieces size (readPlace size none cs).2
  | c :: cs => .plain c :: readPieces size cs
termination_by cs => cs.length
decreasing_by all_goals simp_all <;> omega

/-- The pieces of a template. -/
def piecesOf (template : String) : List Piece :=
  readPieces template.toList.length template.toList

/-! ## Values -/

/-- The values for a template: in order, or one value, which may be a table of named ones. -/
inductive Arguments where
  | inOrder (values : List Json)
  | single (value : Json)

/-- The values that are left, and the table of named ones. -/
structure Supply where
  rest : List Json
  table : Option Json := none

/-- The values before any is used. -/
def Arguments.supply : Arguments → Supply
  | inOrder [.obj (f :: fs)] => ⟨[.obj (f :: fs)], some (.obj (f :: fs))⟩
  | inOrder values => ⟨values, none⟩
  | single v => ⟨[v], match v with | .arr _ | .obj _ => some v | _ => none⟩

/-- Whether there are no values, so that a text is no template but stands for itself. -/
def Arguments.isEmpty : Arguments → Bool
  | inOrder values => values.isEmpty
  | single v => !v.truthy

namespace Supply

/-- The next value. -/
def take (s : Supply) : Except Failure (Json × Supply) :=
  match s.rest with
  | v :: rest => .ok (v, { s with rest })
  | [] => .error (.fault .wrongSort)

/-- Puts a named value in place of the values that are left. -/
def choose (s : Supply) (key : String) : Except Failure Supply :=
  match s.table with
  | some (.obj fields) =>
    match fields.lookup key with
    | some v => .ok { s with rest := [v] }
    | none => .error (.fault .missingField)
  | _ => .error (.fault .wrongSort)

/-- A width or a precision, which has to be less than `bound`. -/
def measure (s : Supply) (bound : Nat) (fault : BadValue) :
    Measure → Except Failure (Option Int × Supply)
  | .absent => .ok (none, s)
  | .written n => if n < bound then .ok (some n, s) else .error (.badValue fault)
  | .next => do
    let (v, s) ← s.take
    match v.number? with
    | none => throw (.fault .wrongSort)
    | some n =>
      if -(bound : Int) ≤ n && n < bound then return (some n, s) else throw (.fault .overflow)

end Supply

/-! ## Conversions -/

/-- A converted value: a number has a sign and may have a mark of its base. -/
structure Converted where
  isNumber : Bool := true
  sign : List Char := []
  mark : List Char := []
  body : List Char

/-- A value as a whole number; the fraction of a float is dropped. -/
def wholePart : Json → Except Failure Int
  | .int n => .ok n
  | .bool b => .ok (if b then 1 else 0)
  | .float x =>
    match Binary64.ofFloat x with
    | .nan => .error (.badValue .notANumber)
    | v => match v.truncate? with
      | some n => .ok n
      | none => .error (.fault .overflow)
  | _ => .error (.fault .wrongSort)

/-- The float of a number. -/
def floatValue : Json → Except Failure Binary64
  | .float x => .ok (.ofFloat x)
  | v =>
    match v.number? with
    | none => .error (.fault .wrongSort)
    | some n =>
      match Binary64.ofInt? n with
      | some x => .ok x
      | none => .error (.fault .overflow)

/-- Escapes what is not ASCII. -/
def escapeWide (c : Char) : List Char :=
  if c.toNat < 0x80 then [c]
  else if c.toNat < 0x100 then '\\' :: 'x' :: Text.hexDigits 2 c.toNat
  else if c.toNat < 0x10000 then '\\' :: 'u' :: Text.hexDigits 4 c.toNat
  else '\\' :: 'U' :: Text.hexDigits 8 c.toNat

/-- A whole number in a base, with at least as many digits as the precision says. -/
def convertWhole (radix : Nat) (precision : Option Nat) (n : Int) : Converted :=
  let ds := Nat.toDigits radix n.natAbs
  { sign := if n < 0 then ['-'] else []
    body := List.replicate ((precision.getD 0) - ds.length) '0' ++ ds }

/-- A float in a style; a sign at the front of its text is taken apart. -/
def convertFloat (style : FloatStyle) (keepsPoint : Bool) (precision : Option Nat)
    (x : Binary64) : Converted :=
  match style.text keepsPoint (precision.getD 6) x with
  | '-' :: body => { sign := ['-'], body }
  | body => { body }

/-- The greatest precision of a whole number. -/
def greatestPrecision : Nat := Nat.pow 2 31 - 4

/-- A character, given by itself or by its number. -/
def convertChar : Json → Except Failure Converted
  | .str s =>
    match s.toList with
    | [c] => .ok { isNumber := false, body := [c] }
    | _ => .error (.fault .wrongSort)
  | v =>
    match v.number? with
    | none => .error (.fault .wrongSort)
    | some n =>
      if 0 ≤ n && n < 0x110000 then .ok { isNumber := false, body := [Char.ofNat n.toNat] }
      else .error (.fault .overflow)

/-- Writes a converted value in capitals. -/
def Converted.capital (x : Converted) : Converted :=
  { x with mark := x.mark.map Char.toUpper, body := x.body.map Char.toUpper }

/-- Converts a value. -/
def convert (p : Place) (conversion : Char) (precision : Option Nat) (v : Json) :
    Except Failure Converted := do
  let alternate := p.marks.contains '#'
  let words (text : String) : Converted :=
    { isNumber := false, body := text.toList.take (precision.getD text.length) }
  let whole (radix : Nat) (n : Int) : Except Failure Converted :=
    if greatestPrecision < precision.getD 0 then .error (.fault .overflow)
    else .ok (convertWhole radix precision n)
  let digits (radix : Nat) (mark : List Char) : Except Failure Converted :=
    match v.number? with
    | none => .error (.fault .wrongSort)
    | some n => (whole radix n).map fun x => { x with mark := if alternate then mark else [] }
  let float (style : FloatStyle) : Except Failure Converted :=
    (floatValue v).map (convertFloat style alternate precision)
  match conversion with
  | 's' => return words (← v.shown)
  | 'r' => return words (← v.writable).inspect
  | 'a' => return words (String.ofList ((← v.writable).inspect.toList.flatMap escapeWide))
  | 'd' | 'i' | 'u' => do
    let n ← wholePart v
    if isWritable n then whole 10 n else throw (.badValue .digitsToWrite)
  | 'o' => digits 8 ['0', 'o']
  | 'x' => digits 16 ['0', 'x']
  | 'X' => (digits 16 ['0', 'x']).map Converted.capital
  | 'e' => float .scientific
  | 'f' => float .fixed
  | 'g' => float .general
  | 'E' => (float .scientific).map Converted.capital
  | 'F' => (float .fixed).map Converted.capital
  | 'G' => (float .general).map Converted.capital
  | 'c' => convertChar v
  | c => throw (.badValue (.conversion c p.position))

/-- A converted value with its sign, filled up to a width: with blanks in front of it, behind it
with the mark `-`, or with zeros behind the sign of a number with the mark `0`. -/
def Converted.fill (x : Converted) (marks : List Char) (toLeft : Bool) (width : Nat) : List Char :=
  let sign :=
    if !x.isNumber || !x.sign.isEmpty then x.sign
    else if marks.contains '+' then ['+']
    else if marks.contains ' ' then [' ']
    else []
  let missing := width - (sign.length + x.mark.length + x.body.length)
  if toLeft then sign ++ x.mark ++ x.body ++ List.replicate missing ' '
  else if x.isNumber && marks.contains '0' then
    sign ++ x.mark ++ List.replicate missing '0' ++ x.body
  else List.replicate missing ' ' ++ sign ++ x.mark ++ x.body

/-- Beyond this width no text is built. -/
def greatestWidth : Nat := Nat.pow 2 32

/-- The text of a place, and the values that are left. -/
def Place.write (p : Place) (s : Supply) : Except Failure (List Char × Supply) := do
  let s ← match p.key with
    | some key => s.choose key
    | none => pure s
  let (width, s) ← s.measure (Nat.pow 2 63) .widthTooGreat p.width
  let (precision, s) ← s.measure (Nat.pow 2 31) .precisionTooGreat p.precision
  match p.conversion with
  | none => throw (.badValue .placeUnfinished)
  | some c =>
    let (v, s) ← s.take
    let x ← convert p c (precision.map Int.toNat) v
    let width := width.getD 0
    if greatestWidth < width.natAbs then throw (.fault .memory)
    return (x.fill p.marks (p.marks.contains '-' || width < 0) width.natAbs, s)

/-- Puts values into the pieces of a template. All values have to be used, unless they have
names. -/
def fill : List Piece → Supply → Except Failure (List Char)
  | [], s =>
    if s.rest.isEmpty || s.table.isSome then .ok [] else .error (.fault .wrongSort)
  | .plain c :: pieces, s => (fill pieces s).map (c :: ·)
  | .openKey :: _, s =>
    .error (if s.table.isSome then .badValue .keyUnfinished else .fault .wrongSort)
  | .place p :: pieces, s => do
    let (text, s) ← p.write s
    return text ++ (← fill pieces s)

/-- A message with its values. Without values nothing is replaced. -/
def message (template : String) (arguments : Arguments) : Except Failure String :=
  if arguments.isEmpty then .ok template
  else (fill (piecesOf template) arguments.supply).map String.ofList

end UpgradeSafety.Log
