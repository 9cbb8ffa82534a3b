import UpgradeSafety.Numeral.Integer
import UpgradeSafety.Text.WordChar

/-!
# Regular expressions

Whether a text is a regular expression. Groups are numbered in the order in which they open and may
have names; a reference may only go to a group that is closed; a condition may go to any group. What
a look behind tries must have one length, so the reader keeps the least and the greatest length of
all that it has read.
-/

namespace UpgradeSafety.Cbor.Pattern

/-- A character of an expression; a backslash belongs to the character behind it. -/
inductive Token where
  | plain (c : Char)
  | escaped (c : Char)
  deriving DecidableEq, Repr

/-- The tokens of a text; none when a backslash ends it. -/
def tokens? : List Char → Option (List Token)
  | [] => some []
  | ['\\'] => none
  | '\\' :: c :: cs => (tokens? cs).map (.escaped c :: ·)
  | c :: cs => (tokens? cs).map (.plain c :: ·)

/-- How many characters can match: at least and at most, if there is a limit. -/
structure Extent where
  least : Nat
  most : Option Nat
  deriving DecidableEq, Repr

namespace Extent

/-- One character. -/
def unit : Extent := ⟨1, some 1⟩

/-- Nothing. -/
def empty : Extent := ⟨0, some 0⟩

/-- One after the other. -/
def append (a b : Extent) : Extent :=
  ⟨a.least + b.least, do some ((← a.most) + (← b.most))⟩

/-- One or the other. -/
def either (a b : Extent) : Extent :=
  ⟨min a.least b.least, do some (max (← a.most) (← b.most))⟩

/-- Again and again, from `least` to `most` times. -/
def times (e : Extent) (least : Nat) (most : Option Nat) : Extent :=
  ⟨e.least * least,
    if e.most == some 0 || most == some 0 then some 0 else do some ((← e.most) * (← most))⟩

/-- Whether all matches have one length that can be counted. -/
def isFixed (e : Extent) : Bool := e.most == some e.least && e.least < Nat.pow 2 32

end Extent

/-- What repetition makes of a piece of an expression. -/
inductive Piece where
  /-- Marks a place and cannot be repeated. -/
  | place
  /-- Is repeated already. -/
  | repeated (extent : Extent)
  | single (extent : Extent)
  deriving DecidableEq, Repr

/-- The extent of a piece. -/
def Piece.extent : Piece → Extent
  | place => .empty
  | repeated e | single e => e

/-- What is known in the middle of an expression. -/
structure Progress where
  rest : List Token
  /-- Whether the expression is about characters, not about bytes. -/
  isText : Bool
  /-- The letters of the options that hold for the whole. -/
  options : List Char := []
  /-- The groups opened so far, and the extents of those that are closed. -/
  groups : Array (Option Extent) := #[none]
  names : List (String × Nat) := []
  /-- The number of groups in front of the look behind that is being read. -/
  behind : Option Nat := none
  /-- The groups of conditions. -/
  conditions : List Nat := []
  /-- Whether anything is repeated. -/
  repeats : Bool := false

/-- A reader of parts of expressions. -/
abbrev Reading := StateT Progress Option

/-- The next token. -/
def next? : Reading (Option Token) := do
  let p ← get
  match p.rest with
  | [] => return none
  | t :: rest =>
    set { p with rest }
    return some t

/-- The next token, which must be there and be no escape. -/
def nextChar : Reading Char := do
  match ← next? with
  | some (.plain c) => return c
  | _ => failure

/-- Takes a character if it comes next. -/
def accept (c : Char) : Reading Bool := do
  let p ← get
  match p.rest with
  | .plain d :: rest =>
    if c == d then
      set { p with rest }
      return true
    else return false
  | _ => return false

/-- Takes a character, which must come next. -/
def expect (c : Char) : Reading Unit := do
  unless ← accept c do failure

/-- Takes characters of a kind, at most `limit` of them. -/
def takeChars (isGood : Char → Bool) : Nat → Reading (List Char)
  | 0 => return []
  | limit + 1 => do
    let p ← get
    match p.rest with
    | .plain c :: rest =>
      if isGood c then
        set { p with rest }
        return c :: (← takeChars isGood limit)
      else return []
    | _ => return []

/-- Takes a name up to the character that ends it. -/
def takeName (last : Char) : Reading String := do
  let p ← get
  let name ← takeChars (· != last) p.rest.length
  expect last
  if name.isEmpty then failure
  return String.ofList name

/-- The number that digits write. -/
def numberOf (base : Nat) (digits : List Char) : Nat :=
  digits.foldl (fun n c => n * base + (Numeral.digitValue? c).getD 0) 0

/-- Whether a character is a digit of a base. -/
def isDigitOf (base : Nat) (c : Char) : Bool := (Numeral.digitValue? c).any (· < base)

/-- A number of exactly `count` digits of base sixteen. -/
def hexNumber (count : Nat) : Reading Nat := do
  let digits ← takeChars (isDigitOf 16) count
  if digits.length != count then failure
  return numberOf 16 digits

/-- Whether a text can name a group. -/
def isName (s : String) : Bool :=
  match s.toList with
  | c :: cs => Text.isWordChar c && (Text.decimalDigit? c).isNone && cs.all Text.isWordChar
  | [] => false

/-- Whether a group is closed. -/
def isClosed (group : Nat) : Reading Bool := do
  return ((← get).groups[group]?.join).isSome

/-- Checks what a look behind may refer to: groups that were closed in front of it. -/
def checkBehind (group : Nat) : Reading Unit := do
  if let some count := (← get).behind then
    unless (← isClosed group) && group < count do failure

/-- A reference to a closed group matches as much as the group does. -/
def referTo (group : Nat) : Reading Piece := do
  match (← get).groups[group]?.join with
  | none => failure
  | some extent =>
    checkBehind group
    return .single extent

/-- The code of the character that an escape stands for, in a set and elsewhere. Names of characters
are not looked up. -/
def escapedChar (c : Char) : Reading Nat := do
  let isText := (← get).isText
  match c with
  | 'a' => return 7
  | 'b' => return 8
  | 't' => return 9
  | 'n' => return 10
  | 'v' => return 11
  | 'f' => return 12
  | 'r' => return 13
  | 'x' => hexNumber 2
  | 'u' => if isText then hexNumber 4 else failure
  | 'U' =>
    let n ← if isText then hexNumber 8 else failure
    if n < 0x110000 then return n else failure
  | 'N' =>
    unless isText do failure
    expect '\x7b'
    let _ ← takeName '\x7d'
    return 0
  | c => if c.isAlphanum then failure else return c.toNat

/-- A character that its octal digits write, the first of which is read. -/
def octalChar (first : Char) : Reading Nat := do
  let digits ← takeChars (isDigitOf 8) 2
  let n := numberOf 8 (first :: digits)
  if n < 256 then return n else failure

/-- The code of an escape in a set; none for a class of characters. -/
def escapeInSet (c : Char) : Reading (Option Nat) := do
  if "dDsSwW".toList.contains c then return none
  else if isDigitOf 8 c then return some (← octalChar c)
  else return some (← escapedChar c)

/-- An escape outside sets. Digits refer to a group unless they are a zero with octal digits behind
it or three octal digits. -/
def escapeOutside (c : Char) : Reading Piece := do
  if "AbBZ".toList.contains c then return .place
  else if "dDsSwW".toList.contains c then return .single .unit
  else if c == '0' then
    let _ ← octalChar c
    return .single .unit
  else if c.isDigit then
    match ← takeChars Char.isDigit 1 with
    | [] => referTo (numberOf 10 [c])
    | more =>
      let last ← if (c :: more).all (isDigitOf 8) then takeChars (isDigitOf 8) 1 else pure []
      if last.isEmpty then referTo (numberOf 10 (c :: more))
      else if numberOf 8 (c :: more ++ last) < 256 then return .single .unit
      else failure
  else
    let _ ← escapedChar c
    return .single .unit

/-- An element of a set, or the end of a range: its code if it is a single character. -/
def setElement : Token → Reading (Option Nat)
  | .escaped c => escapeInSet c
  | .plain c => return some c.toNat

/-- The elements of a set. A bracket that comes first is an element, and a hyphen that comes last.
The ends of a range are single characters in order. -/
def readSet (isFirst : Bool) : Nat → Reading Unit
  | 0 => failure
  | fuel + 1 => do
    match ← next? with
    | none => failure
    | some t =>
      if t == .plain ']' && !isFirst then return
      let low ← setElement t
      if ← accept '-' then
        match ← next? with
        | none => failure
        | some t =>
          if t == .plain ']' then return
          match low, ← setElement t with
          | some low, some high => if high < low then failure
          | _, _ => failure
      readSet false fuel

/-- How often to repeat, behind an opening brace: from a least number of times, zero if it is left
out, to a greatest, if there is one. A brace that opens nothing of this kind is a character. -/
def readBounds : Reading (Option (Nat × Option Nat)) := do
  let start ← get
  if start.rest.head? == some (.plain '\x7d') then return none
  let low ← takeChars Char.isDigit start.rest.length
  let hasRange ← accept ','
  let high ← if hasRange then takeChars Char.isDigit start.rest.length else pure low
  if ← accept '\x7d' then
    let least := numberOf 10 low
    let most := if high.isEmpty then none else some (numberOf 10 high)
    let limit := Nat.pow 2 32 - 1
    if least < limit && most.all (fun m => least ≤ m && m < limit) then
      return some (least, most)
    else failure
  else
    set start
    return none

/-- Repeats the last piece. A further mark says to match as few as possible or to give nothing
back. -/
def repeatLast (pieces : List Piece) (least : Nat) (most : Option Nat) :
    Reading (List Piece) := do
  match pieces with
  | .single e :: pieces =>
    unless ← accept '?' do
      let _ ← accept '+'
    modify fun p => { p with repeats := true }
    return .repeated (e.times least most) :: pieces
  | _ => failure

/-- The letters of options that choose a kind of characters. -/
def kindOptions : List Char := ['a', 'L', 'u']

/-- Whether a letter is an option. -/
def isOption (c : Char) : Bool := "iLmsxatu".toList.contains c

/-- Checks options to turn on: at most one kind of characters, which suits the expression. -/
def checkOn (options : List Char) : Reading Unit := do
  let isText := (← get).isText
  if options.contains (if isText then 'L' else 'u') then failure
  if 1 < (kindOptions.filter options.contains).length then failure

/-- Options: those to turn on and those to turn off for a group, or none for options of the whole.
The first character is read. -/
def readOptions (first : Char) : Reading (Option (List Char × List Char)) := do
  let count := (← get).rest.length
  let on ← if first == '-' then pure [] else pure (first :: (← takeChars isOption count))
  checkOn on
  let mark ← if first == '-' then pure '-' else nextChar
  if mark == ')' then
    modify fun p => { p with options := p.options ++ on }
    return none
  if on.contains 't' then failure
  let off ← if mark == '-' then takeChars isOption count else pure []
  if mark == '-' then
    if off.isEmpty || off.any ('t' :: kindOptions).contains || off.any on.contains then failure
    expect ':'
  else if mark != ':' then failure
  return some (on, off)

/-- Opens a group, which may have a name of its own. -/
def openGroup (name : Option String) : Reading Nat := do
  let p ← get
  let group := p.groups.size
  let names ← match name with
    | none => pure p.names
    | some n => if p.names.any (·.1 == n) then failure else pure ((n, group) :: p.names)
  set { p with groups := p.groups.push none, names }
  return group

/-- The group with a name. -/
def groupNamed (name : String) : Reading Nat := do
  match (← get).names.lookup name with
  | some group => return group
  | none => failure

/-- The group of a condition, by its name or its number. -/
def conditionGroup (text : String) : Reading Nat := do
  let group ← if isName text then groupNamed text else
    match Numeral.readInteger .ten text with
    | .ok n =>
      if 0 < n then
        modify fun p => { p with conditions := n.toNat :: p.conditions }
        pure n.toNat
      else failure
    | .error _ => failure
  checkBehind group
  return group

/-- The rest of a comment in a group. -/
def skipComment : Reading Unit := do
  let p ← get
  match p.rest.dropWhile (· != .plain ')') with
  | [] => failure
  | _ :: rest => set { p with rest }

/-- The rest of a line. -/
def skipLine : Reading Unit := modify fun p =>
  { p with rest := (p.rest.dropWhile (· != .plain '\n')).drop 1 }

/-- Whether spread writing is on for the whole: blanks and comments count for nothing. -/
def isSpread : Reading Bool := return (← get).options.contains 'x'

mutual

/-- Reads pieces one after the other up to a bar, a closing parenthesis or the end; `pieces` are
those read so far, the last one first. Options of the whole may stand at the very beginning. -/
def readSequence : Nat → (spread atStart : Bool) → (pieces : List Piece) → Reading Extent
  | 0, _, _, _ => failure
  | fuel + 1, spread, atStart, pieces => do
    let p ← get
    match p.rest with
    | [] | .plain '|' :: _ | .plain ')' :: _ =>
      return pieces.foldl (fun e piece => piece.extent.append e) .empty
    | token :: rest =>
      set { p with rest }
      let go (piece : Piece) := readSequence fuel spread atStart (piece :: pieces)
      match token with
      | .escaped c => go (← escapeOutside c)
      | .plain c =>
        if spread && Text.isAsciiBlank c then readSequence fuel spread atStart pieces
        else if spread && c == '#' then
          skipLine
          readSequence fuel spread atStart pieces
        else match c with
        | '[' =>
          let _ ← accept '^'
          readSet true (rest.length + 1)
          go (.single .unit)
        | '^' | '$' => go .place
        | '?' => readSequence fuel spread atStart (← repeatLast pieces 0 (some 1))
        | '*' => readSequence fuel spread atStart (← repeatLast pieces 0 none)
        | '+' => readSequence fuel spread atStart (← repeatLast pieces 1 none)
        | '\x7b' =>
          match ← readBounds with
          | none => go (.single .unit)
          | some (least, most) =>
            readSequence fuel spread atStart (← repeatLast pieces least most)
        | '(' =>
          if ← accept '?' then
            match ← nextChar with
            | '#' =>
              skipComment
              readSequence fuel spread atStart pieces
            | ':' => go (.single (← readGroup fuel spread))
            | '>' => go (.single (← readGroup fuel spread))
            | '=' | '!' =>
              let _ ← readGroup fuel spread
              go (.single .empty)
            | '<' =>
              unless ['=', '!'].contains (← nextChar) do failure
              let behind := (← get).behind
              modify fun p => { p with behind := some (behind.getD p.groups.size) }
              let extent ← readGroup fuel spread
              modify fun p => { p with behind }
              if extent.isFixed then go (.single .empty) else failure
            | 'P' =>
              match ← nextChar with
              | '<' =>
                let name ← takeName '>'
                unless isName name do failure
                let group ← openGroup (some name)
                go (.single (← readNumbered fuel spread group))
              | '=' =>
                let name ← takeName ')'
                unless isName name do failure
                go (← referTo (← groupNamed name))
              | _ => failure
            | '(' =>
              let _ ← conditionGroup (← takeName ')')
              let yes ← readSequence fuel spread false []
              let no ← if ← accept '|' then readSequence fuel spread false [] else pure .empty
              expect ')'
              go (.single (yes.either no))
            | c =>
              if !isOption c && c != '-' then failure
              match ← readOptions c with
              | none =>
                if atStart && pieces.isEmpty then readSequence fuel (← isSpread) atStart pieces
                else failure
              | some (on, off) =>
                let inner := (spread || on.contains 'x') && !off.contains 'x'
                go (.single (← readGroup fuel inner))
          else
            go (.single (← readNumbered fuel spread (← openGroup none)))
        | _ => go (.single .unit)

/-- Reads the alternatives of a group and its end. -/
def readGroup : Nat → (spread : Bool) → Reading Extent
  | 0, _ => failure
  | fuel + 1, spread => do
    let extent ← readAlternatives fuel spread false false
    expect ')'
    return extent

/-- Reads the alternatives of a numbered group and closes it. -/
def readNumbered : Nat → (spread : Bool) → (group : Nat) → Reading Extent
  | 0, _, _ => failure
  | fuel + 1, spread, group => do
    let extent ← readGroup fuel spread
    modify fun p => { p with groups := p.groups.setIfInBounds group (some extent) }
    return extent

/-- Reads alternatives with bars between them. Options of the whole hold from the next alternative
outside all groups on. -/
def readAlternatives : Nat → (spread isWhole atStart : Bool) → Reading Extent
  | 0, _, _, _ => failure
  | fuel + 1, spread, isWhole, atStart => do
    let extent ← readSequence fuel spread atStart []
    if ← accept '|' then
      let spread ← if isWhole then isSpread else pure spread
      return extent.either (← readAlternatives fuel spread isWhole false)
    else return extent

end

/-- Whether a text is a regular expression; `isText` says that it is about characters, not about
bytes. The options of the whole choose one kind of characters at most, and a template repeats
nothing. -/
def isPattern (isText : Bool) (cs : List Char) : Bool :=
  match tokens? cs with
  | none => false
  | some tokens =>
    let start : Progress := { rest := tokens, isText }
    match (readAlternatives (4 * tokens.length + 4) false true true).run start with
    | some (_, p) =>
      p.rest.isEmpty && p.conditions.all (· < p.groups.size) &&
        (kindOptions.filter p.options.contains).length < 2 &&
        !(p.options.contains 't' && p.repeats)
    | none => false

end UpgradeSafety.Cbor.Pattern
