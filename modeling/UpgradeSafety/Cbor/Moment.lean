/-!
# Dates and moments

A date is written as a year, a month and a day, or as a year, a week and a day of the week, with or
without hyphens; a moment adds a time of day behind any one character, and the offset of a time
zone. Moments are also counted in seconds, and dates in days. Only the years from 1 to 9999 can be
told.
-/

namespace UpgradeSafety.Cbor

/-- Whether a year has a leap day. -/
def isLeap (year : Nat) : Bool := year % 4 == 0 && (year % 100 != 0 || year % 400 == 0)

/-- The number of days of a month. -/
def daysOfMonth (year month : Nat) : Nat :=
  if month == 2 then if isLeap year then 29 else 28
  else if [4, 6, 9, 11].contains month then 30
  else 31

/-- Whether a year has a month with a day. -/
def hasDay (year month day : Nat) : Bool :=
  1 ≤ year && 1 ≤ month && month ≤ 12 && 1 ≤ day && day ≤ daysOfMonth year month

/-- The day of the week on which a year begins, counted from Monday as 0. -/
def firstWeekday (year : Nat) : Nat :=
  let before := year - 1
  (before * 365 + before / 4 - before / 100 + before / 400) % 7

/-- Whether a year has a week with a day. A year has 53 weeks when it begins on a Thursday, and
when it has a leap day and begins on a Wednesday. The last week of the year 9999 does not end in
it. -/
def hasWeekday (year week day : Nat) : Bool :=
  let first := firstWeekday year
  let weeks := if first == 3 || first == 2 && isLeap year then 53 else 52
  1 ≤ year && 1 ≤ week && week ≤ weeks && 1 ≤ day && day ≤ 7 &&
    !(year == 9999 && week == 52 && 5 < day)

/-- Reads a number of exactly `count` digits. -/
def readFixed : Nat → Nat → List Char → Option (Nat × List Char)
  | 0, n, cs => some (n, cs)
  | count + 1, n, c :: cs =>
    if c.isDigit then readFixed count (10 * n + (c.toNat - 0x30)) cs else none
  | _ + 1, _, [] => none

/-- The rest behind a character, if a text begins with it. -/
def dropMark (mark : Char) : List Char → Option (List Char)
  | c :: cs => if c == mark then some cs else none
  | [] => none

/-- Whether a text begins with a date. Of a week, a day is read if anything stands behind it; a
week alone means its Monday. -/
def beginsWithDate (cs : List Char) : Bool :=
  let date : Option Bool := do
    let (year, cs) ← readFixed 4 0 cs
    let hyphened := cs.head? == some '-'
    let behindHyphen (cs : List Char) : Option (List Char) :=
      if hyphened then dropMark '-' cs else some cs
    match ← behindHyphen cs with
    | 'W' :: cs =>
      let (week, cs) ← readFixed 2 0 cs
      if cs.isEmpty then some (hasWeekday year week 1)
      else
        let (day, _) ← readFixed 1 0 (← behindHyphen cs)
        some (hasWeekday year week day)
    | cs =>
      let (month, cs) ← readFixed 2 0 cs
      let (day, _) ← readFixed 2 0 (← behindHyphen cs)
      some (hasDay year month day)
  date == some true

/-- Whether a text is taken for a date: it has as many bytes as a date may have and begins with
one. -/
def isDate (s : String) : Bool := [7, 8, 10].contains s.utf8ByteSize && beginsWithDate s.toList

/-- How many characters of a text are its date. A date of two lengths is taken to be the one that
leaves an even number of digits behind, and a hyphen behind a week that digits follow to part the
date from the time. -/
def dateLength (cs : List Char) : Nat :=
  if cs.length == 7 then 7
  else match cs.drop 4 with
    | '-' :: 'W' :: _ :: _ :: rest =>
      match rest with
      | '-' :: _ :: c :: _ => if c.isDigit then 8 else 10
      | '-' :: _ => 10
      | _ => 8
    | '-' :: _ => 10
    | 'W' :: _ :: _ :: rest =>
      let digits := (rest.takeWhile Char.isDigit).length
      if digits < 2 then 7 + digits
      else if digits % 2 == 1 then 7 else 8
    | _ => 8

/-- A time that was read from a text, and whether it is all of the text. -/
structure Clock where
  hours : Nat
  minutes : Nat := 0
  seconds : Nat := 0
  isWhole : Bool := true

/-- Whether a text begins with the digits of a fraction, of which six count, and whether it holds
nothing else. -/
def readFraction (cs : List Char) : Option Bool :=
  if (cs.take 6).all Char.isDigit then some (cs.all Char.isDigit) else none

/-- Reads what follows `numbers`, the hours and minutes of a time so far: further numbers of two
digits with colons in front of them or without, and a fraction. A single character may be left
over. -/
def readClock (colons : Bool) (numbers : List Nat) : Nat → List Char → Option Clock
  | 0, _ => none
  | count + 1, cs => do
    let (n, cs) ← readFixed 2 0 cs
    let numbers := numbers ++ [n]
    let clock (isWhole : Bool) : Clock :=
      ⟨numbers.getD 0 0, numbers.getD 1 0, numbers.getD 2 0, isWhole⟩
    match cs with
    | [] => some (clock true)
    | [c] => if c.toNat < 0x80 then some (clock false) else none
    | c :: rest =>
      let colons := if numbers.length == 1 then c == ':' else colons
      if c == '.' || c == ',' then (readFraction rest).map clock
      else if colons && c != ':' then none
      else
        let rest := if colons then rest else cs
        if count == 0 then (readFraction rest).map clock
        else readClock colons numbers count rest

/-- Whether a text is a time of day with or without a time zone, which is given as an offset of less
than a day. What is left over of the time of day in front of an offset does not matter. -/
def isTimeText (cs : List Char) : Bool :=
  let isZoneMark (c : Char) : Bool := c == '+' || c == '-' || c == 'Z'
  let zone := cs.dropWhile fun c => !isZoneMark c
  match readClock false [] 3 (cs.takeWhile fun c => !isZoneMark c) with
  | none => false
  | some time =>
    time.hours < 24 && time.minutes < 60 && time.seconds < 60 &&
      match zone with
      | [] => time.isWhole
      | 'Z' :: rest => rest.isEmpty
      | _ :: offset =>
        match readClock false [] 3 offset with
        | some offset =>
          offset.isWhole && (offset.hours * 60 + offset.minutes) * 60 + offset.seconds < 86400
        | none => false

/-- Whether a text tells a moment: a date, which a time of day may follow. -/
def isMoment (s : String) : Bool :=
  let cs := s.toList
  let length := dateLength cs
  beginsWithDate (cs.take length) &&
    match cs.drop length with
    | [] => true
    | _ :: time => isTimeText time

example : isMoment "2013-03-21T20:04:00Z" ∧ isMoment "20240229 2359" ∧ isMoment "2020-W53-5" := by
  decide +kernel

/-- Whether a number of seconds from the beginning of 1970 tells a moment. -/
def isMomentSeconds (n : Int) : Bool := -62135596800 ≤ n && n ≤ 253402300799

/-- Whether a number of days from the beginning of 1970 tells a date. -/
def isDateDays (n : Int) : Bool := -719162 ≤ n && n ≤ 2932896

end UpgradeSafety.Cbor
