import UpgradeSafety.Json.Access
import UpgradeSafety.Text.WordChar

/-!
# Annotations in documentation

The documentation of a node is a text in which a line that begins with `@` starts a *tag*: a title,
optionally followed by a colon and a name, and arguments. Further lines belong to the tag before
them. The tags with the title `custom` are read by name.
-/

namespace UpgradeSafety.Syntax

/-- The documentation of a node: its text, or the text of its documentation node. -/
def documentation (node : Json) : Except Failure Json := do
  let doc ← node.get "documentation"
  match doc with
  | .obj _ => return (← doc.getOr "text" (.str "")).orElse (.str "")
  | _ => return doc.orElse (.str "")

/-- The first line of a tag. -/
structure TagLine where
  title : String
  name : Option String
  arguments : List String
  deriving DecidableEq, Repr

/-- A small Latin letter. -/
def isSmall (c : Char) : Bool := 'a' ≤ c && c ≤ 'z'

/-- The name behind a tag's title, with the rest: a colon, a small letter, and further small letters
and hyphens. -/
def tagName : List Char → Option String × List Char
  | ':' :: c :: cs =>
    if isSmall c then
      let more (c : Char) : Bool := isSmall c || c == '-'
      (some (String.ofList (c :: cs.takeWhile more)), cs.dropWhile more)
    else (none, ':' :: c :: cs)
  | cs => (none, cs)

/-- Reads a line that starts a tag; none for other lines. -/
def TagLine.read? (line : List Char) : Option TagLine :=
  match line.dropWhile Text.isBlank with
  | '@' :: cs =>
    let title := cs.takeWhile Text.isWordChar
    if title.isEmpty then none
    else
      let (name, rest) := tagName (cs.dropWhile Text.isWordChar)
      some ⟨String.ofList title, name, (Text.wordsOf rest).map String.ofList⟩
  | _ => none

/-- Whether a tag line is the custom tag of a name. -/
def TagLine.isCustom (name : String) (t : TagLine) : Bool :=
  t.title == "custom" && t.name == some name

/-- The arguments of all custom tags of a name. `inside` tells whether the lines before belong to
such a tag. -/
def argumentsFrom (name : String) (inside : Bool) : List String → List String
  | [] => []
  | line :: rest =>
    match TagLine.read? line.toList with
    | some t =>
      (if t.isCustom name then t.arguments else []) ++ argumentsFrom name (t.isCustom name) rest
    | none => (if inside then Text.words line else []) ++ argumentsFrom name inside rest

/-- The arguments of all custom tags of a name in a documentation text. -/
def tagArguments (doc name : String) : List String := argumentsFrom name false (Text.lines doc)

/-- Whether a documentation text has a custom tag of a name. -/
def hasTag (doc name : String) : Bool :=
  (Text.lines doc).any fun line => ((TagLine.read? line.toList).map (·.isCustom name)).getD false

/-- The documentation of a node, which has to be a text. -/
def documentationText (node : Json) : Except Failure String := do
  match ← documentation node with
  | .str doc => return doc
  | _ => throw (.fault .notAnObject)

/-- The arguments of a node's custom tags of a name. -/
def nodeArguments (node : Json) (name : String) : Except Failure (List String) := do
  return tagArguments (← documentationText node) name

end UpgradeSafety.Syntax
