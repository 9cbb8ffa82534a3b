import UpgradeSafety.Text.WordChar

/-!
# Escaped type identifiers

The compiler writes a type id with its punctuation escaped: `_$_` for a comma, `$_` for an opening
and `_$` for a closing parenthesis. An escape is undone only where the run of underscores and
dollars behind it is again made of whole escapes; so a run that begins with the underscores of a
name keeps them.
-/

namespace UpgradeSafety.TypeId

/-- The characters that escapes are made of. -/
def isEscapeChar (c : Char) : Bool := c == '_' || c == '$'

/-- Whether a run of underscores and dollars is made of whole escapes. -/
def madeOfEscapes : List Char → Bool
  | [] => true
  | '$' :: '_' :: rest => madeOfEscapes rest
  | '_' :: '$' :: '_' :: rest => madeOfEscapes ('_' :: rest) || madeOfEscapes rest
  | '_' :: '$' :: rest => madeOfEscapes rest
  | _ => false

/-- Whether only whole escapes stand before the next other character. -/
def escapesFollow (cs : List Char) : Bool := madeOfEscapes (cs.takeWhile isEscapeChar)

/-- Undoes the escapes of an identifier, character by character. -/
def unescape : List Char → List Char
  | [] => []
  | '$' :: '_' :: rest =>
    if escapesFollow rest then '(' :: unescape rest else '$' :: unescape ('_' :: rest)
  | '_' :: '$' :: '_' :: rest =>
    if escapesFollow rest then ',' :: unescape rest
    else if escapesFollow ('_' :: rest) then ')' :: unescape ('_' :: rest)
    else '_' :: unescape ('$' :: '_' :: rest)
  | '_' :: '$' :: rest =>
    if escapesFollow rest then ')' :: unescape rest else '_' :: unescape ('$' :: rest)
  | c :: rest => c :: unescape rest
termination_by cs => cs.length

/-- The type id that an identifier writes. -/
def decodeIdentifier (s : String) : String := String.ofList (unescape s.toList)

/-- A word ends where no word character follows. -/
def wordEnds : List Char → Bool
  | [] => true
  | c :: _ => !Text.isWordChar c

/-- Takes the mark of a pointer off every `_storage` at the end of a word. -/
def dropPointerMarks : List Char → List Char
  | [] => []
  | '_' :: 's' :: 't' :: 'o' :: 'r' :: 'a' :: 'g' :: 'e' :: '_' :: 'p' :: 't' :: 'r' :: rest =>
    if wordEnds rest then "_storage".toList ++ dropPointerMarks rest
    else "_storage_ptr".toList ++ dropPointerMarks rest
  | c :: rest => c :: dropPointerMarks rest

/-- The type id that an identifier writes, with storage pointers as plain storage. -/
def normalizeIdentifier (s : String) : String :=
  String.ofList (dropPointerMarks (unescape s.toList))

end UpgradeSafety.TypeId
