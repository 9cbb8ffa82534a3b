import UpgradeSafety.Json.Access
import UpgradeSafety.Json.Equality
import UpgradeSafety.Text.Hex

/-!
# Places in source files

A node carries its place as `offset:length:file`, counted in bytes of the source in UTF-8. Messages
name the file and the line.
-/

namespace UpgradeSafety.Syntax

/-- Names the place of a node. -/
abbrev Locate := Json → Except Failure String

/-- The place of every node when the sources are not at hand. -/
def locateNowhere : Locate := fun _ => .ok "file.sol:1"

/-- A place in a source file. -/
structure Span where
  offset : Int := 0
  length : Int := 0
  file : Int := 0
  deriving DecidableEq, Repr

/-- A number in the text of a place. -/
def readNumber (s : String) : Except Failure Int :=
  match Numeral.readInteger .ten s with
  | .ok n => .ok n
  | .error e => .error (.badValue (.integer .ten s e))

/-- Reads the text of a place. A text with fewer than three parts is the start of the first file. -/
def Span.read (src : String) : Except Failure Span :=
  match (src.toList.splitOn ':').map String.ofList with
  | offset :: length :: file :: _ => do
    return ⟨← readNumber offset, ← readNumber length, ← readNumber file⟩
  | _ => .ok {}

/-- What is needed to name places: the names of the source files by their ids, and the sources. -/
structure Sources where
  /-- Ids with names; of equal ids the last counts. -/
  names : List (Json × String)
  inputs : Json

/-- The sources of a compilation. -/
def Sources.ofCompilation (input output : Json) : Except Failure Sources := do
  let inputs ← input.getOr "sources" (.obj [])
  let outputs ← (← output.getOr "sources" (.obj [])).entries
  let names ← outputs.mapM fun (name, source) => do
    let id ← source.get "id"
    if id.hashable then pure (id, name) else throw (.fault .wrongSort)
  return ⟨names, inputs⟩

/-- The name and the content of a source file. -/
def Sources.content (s : Sources) (file : Int) : Except Failure (String × String) :=
  match s.names.reverse.find? fun (id, _) => id.same (.int file) with
  | none => .error (.refused (.sourceUnavailable file))
  | some (_, name) => do
    let content ← (← s.inputs.getOr name (.obj [])).get "content"
    match content with
    | .null => throw (.refused (.contentUnavailable name))
    | .str text => return (name, text)
    | _ => throw (.fault .notAnObject)

/-- The number of the line that holds an offset; a negative offset counts from the end. -/
def lineAt (content : String) (offset : Int) : Nat :=
  let bytes := Text.utf8Bytes content
  let stop := if 0 ≤ offset then offset.toNat else ((bytes.length : Int) + offset).toNat
  (bytes.take stop).count 0x0a + 1

/-- Names the place of a node by file and line. -/
def Sources.locate (s : Sources) : Locate := fun node => do
  match ← node.getOr "src" (.str "") with
  | .str src =>
    let span ← Span.read src
    let (name, content) ← s.content span.file
    return name ++ ":" ++ toString (lineAt content span.offset)
  | _ => throw (.fault .notAnObject)

end UpgradeSafety.Syntax
