/-!
# Lines

A text is cut at every line break of any script. A break ends its line, so a text that ends in a
break has no empty last line.
-/

namespace UpgradeSafety.Text

/-- The characters that end a line on their own. -/
def isLineBreak (c : Char) : Bool :=
  let n := c.toNat
  (0x0a ≤ n && n ≤ 0x0d) || (0x1c ≤ n && n ≤ 0x1e) || n == 0x85 || n == 0x2028 || n == 0x2029

/-- Lines with their breaks; a carriage return and a line feed are one break. `current` holds the
characters of the unfinished line, last first. -/
def splitLinesFrom (current : List Char) : List Char → List (List Char × List Char)
  | [] => if current.isEmpty then [] else [(current.reverse, [])]
  | '\r' :: '\n' :: cs => (current.reverse, ['\r', '\n']) :: splitLinesFrom [] cs
  | c :: cs =>
    if isLineBreak c then (current.reverse, [c]) :: splitLinesFrom [] cs
    else splitLinesFrom (c :: current) cs

/-- The lines of a text, each with the break that ends it. -/
def splitLines (s : String) : List (String × String) :=
  (splitLinesFrom [] s.toList).map fun (l, b) => (String.ofList l, String.ofList b)

/-- Every carriage return, with the line feed behind it if there is one, as a line feed. -/
def unifyBreaks : List Char → List Char
  | '\r' :: '\n' :: cs => '\n' :: unifyBreaks cs
  | '\r' :: cs => '\n' :: unifyBreaks cs
  | c :: cs => c :: unifyBreaks cs
  | [] => []

/-- The lines of a text without their breaks. -/
def lines (s : String) : List String := (splitLines s).map (·.1)

end UpgradeSafety.Text
