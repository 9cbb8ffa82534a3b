import UpgradeSafety.Layout.Basic

/-!
# Layouts as JSON

The persisted form of a layout. Slots and sizes are written as decimal texts, because the root of a
namespace does not fit into a JSON number; absent values and syntax tree ids are left out. On
reading, a slot, an offset or a size may be a number or a written integer.
-/

namespace UpgradeSafety

open Schema

/-! ## Writing -/

/-- A field that is left out when it has no value. -/
def fieldIf {α : Type} (name : String) (f : α → Json) : Option α → Fields
  | some a => [(name, f a)]
  | none => []

/-- A number as a decimal text. -/
def decimalText (n : Int) : Json := .str (toString n)

/-- The persisted form of an item. -/
def Item.toJson (item : Item) : Json :=
  .obj <|
    [("label", .str item.label), ("type", .str item.type)] ++
    (if item.contract = .null then [] else [("contract", item.contract)]) ++
    [("src", .str item.src)] ++
    fieldIf "slot" decimalText item.slot ++ fieldIf "offset" Json.int item.offset ++
    fieldIf "renamedFrom" Json.str item.renamedFrom ++
    fieldIf "retypedFrom" Json.str item.retypedFrom

/-- The persisted form of members. -/
def Members.toJson : Members → Json
  | items is => .arr (is.map Item.toJson)
  | names ns => .arr (ns.map Json.str)
  | unnamed vs => .arr vs

/-- The persisted form of a type entry. -/
def TypeEntry.toJson (entry : TypeEntry) : Json :=
  .obj <|
    ("label", Json.str entry.label) ::
    (fieldIf "encoding" Json.str entry.encoding ++
      fieldIf "numberOfBytes" decimalText entry.numberOfBytes ++
      fieldIf "members" Members.toJson entry.members ++ fieldIf "base" Json.str entry.base ++
      fieldIf "key" Json.str entry.key ++ fieldIf "value" Json.str entry.value)

/-- A table as an object. -/
def tableJson {α : Type} (f : α → Json) (entries : List (String × α)) : Json :=
  .obj (entries.map fun (k, a) => (k, f a))

/-- The persisted form of a layout. -/
def Layout.toJson (layout : Layout) : Json :=
  .obj <|
    fieldIf "layoutVersion" Json.str layout.layoutVersion ++
    fieldIf "solcVersion" Json.str layout.solcVersion ++
    [("storage", .arr (layout.storage.map Item.toJson)),
      ("types", tableJson TypeEntry.toJson layout.types),
      ("namespaces", tableJson (fun is => .arr (is.map Item.toJson)) layout.namespaces),
      ("flat", .bool layout.flat)]

/-! ## Numbers that cannot be written

A slot may be read from hexadecimal digits and have more decimal digits than are written. -/

/-- Whether a number that may be absent can be written. -/
def isWritable? (n : Option Int) : Bool := n.all Numeral.isWritable

/-- Whether an item can be written. -/
def Item.isWritable (item : Item) : Bool := isWritable? item.slot

/-- Whether members can be written. -/
def Members.isWritable : Members → Bool
  | items is => is.all Item.isWritable
  | names _ | unnamed _ => true

/-- Whether a type entry can be written. -/
def TypeEntry.isWritable (entry : TypeEntry) : Bool :=
  isWritable? entry.numberOfBytes && entry.members.all Members.isWritable

/-- Whether a layout can be written. -/
def Layout.isWritable (layout : Layout) : Bool :=
  layout.storage.all Item.isWritable && layout.types.all (fun (_, e) => e.isWritable) &&
    layout.namespaces.all fun (_, is) => is.all Item.isWritable

/-- A written form, if it exists. -/
def written (isWritable : Bool) (v : Json) : Except Failure Json :=
  if isWritable then .ok v else .error (.fault .unserialisable)

/-- The persisted form of an item, if it exists. -/
def Item.encode (item : Item) : Except Failure Json := written item.isWritable item.toJson

/-- The persisted form of members, each of which is an item or a text. -/
def Members.encode : Members → Except Failure Json
  | .unnamed _ => .error (.fault .notAnObject)
  | members => .ok members.toJson

/-- The persisted form of a layout, if it exists. -/
def Layout.encode (layout : Layout) : Except Failure Json := written layout.isWritable layout.toJson

/-! ## Reading -/

/-- An offset inside a slot of thirty-two bytes. -/
def readOffset (v : Json) : Checked Int :=
  (writtenWhole .asMarked v).andThen fun n =>
    if 0 ≤ n ∧ n < 32 then .valid n
    else if Numeral.isWritable n then
      .fail (.rule ("Value error, offset " ++ toString n ++ " is outside a 32-byte slot"))
    else .fail (.rule ("Value error, " ++ digitsComplaint ""))

/-- Reads the fields of an item. -/
def Item.ofFields (fields : Fields) : Checked Item :=
  Item.mk <$> required fields (.plain "label") text <*> required fields (.plain "type") text
    <*> (Json.str <$> defaulted fields (.plain "contract") text "")
    <*> defaulted fields (.plain "src") text ""
    <*> optional fields (.plain "slot") (writtenWhole .asMarked)
    <*> optional fields (.plain "offset") readOffset
    <*> optional fields ⟨"astId", "ast_id"⟩ whole
    <*> optional fields ⟨"renamedFrom", "renamed_from"⟩ text
    <*> optional fields ⟨"retypedFrom", "retyped_from"⟩ text

/-- Reads an item. -/
def Item.ofJson : Json → Checked Item := record Item.ofFields

/-- Reads the members of a type: a list of items or a list of names. When it is neither, the
problems of both readings are listed. -/
def Members.ofJson (v : Json) : Checked Members :=
  match list Item.ofJson v, list text v with
  | .valid is, _ => .valid (.items is)
  | .invalid _, .valid ns => .valid (.names ns)
  | .invalid ps, .invalid qs =>
    .invalid (ps.map (·.under (.field "list[StorageItem]")) ++
      qs.map (·.under (.field "list[str]")))

/-- Reads a type entry. -/
def TypeEntry.ofJson : Json → Checked TypeEntry :=
  record fun fields =>
    TypeEntry.mk <$> required fields (.plain "label") text
      <*> optional fields (.plain "encoding") text
      <*> optional fields ⟨"numberOfBytes", "number_of_bytes"⟩ (writtenWhole .ten)
      <*> optional fields (.plain "members") Members.ofJson
      <*> optional fields (.plain "base") text <*> optional fields (.plain "key") text
      <*> optional fields (.plain "value") text

/-- Reads a layout. A layout without a format version has the current one. -/
def Layout.ofJson : Json → Checked Layout :=
  record fun fields =>
    Layout.mk <$> defaulted fields ⟨"layoutVersion", "layout_version"⟩ (nullable text)
        (some currentVersion)
      <*> optional fields ⟨"solcVersion", "solc_version"⟩ text
      <*> defaulted fields (.plain "storage") (list Item.ofJson) []
      <*> defaulted fields (.plain "types") (table TypeEntry.ofJson) []
      <*> defaulted fields (.plain "namespaces") (table (list Item.ofJson)) []
      <*> defaulted fields (.plain "flat") flag false

/-- Reads a persisted layout, or refuses it with all of its problems. -/
def Layout.load (v : Json) : Except Failure Layout :=
  match Layout.ofJson v with
  | .valid layout => .ok layout
  | .invalid problems => .error (.refused (.malformedLayout problems))

end UpgradeSafety
