import UpgradeSafety.Compare.Change

/-!
# The wording of changes

Every change is explained in a title line and items below it. Items are marked with `-` for what is
wrong and with `>` for what to do. Changes of the members of a struct are listed below the variable
whose type holds the struct; changes of its members' types are listed once, after it.

A text with a number of too many digits cannot be written. Such a number may be a slot or the size
of a type. An offset lies inside of a slot; the length of an array was read from an identifier when
the array was compared, and the size that a gap should have was written then. These have few enough
digits.
-/

namespace UpgradeSafety.Report

open Compare

/-! ## Texts of several lines -/

/-- Indents the lines of a text from number `start` on; empty lines stay empty. -/
def indentFrom (start amount : Nat) (s : String) : String :=
  let pad := String.ofList (List.replicate amount ' ')
  "\n".intercalate <| (s.splitOn "\n").zipIdx.map fun (line, i) =>
    if i < start || line.isEmpty then line else pad ++ line

/-- One item a line, with the further lines of an item indented; empty items are left out. -/
def bulleted (bullet : String) (items : List String) : String :=
  "\n".intercalate <| (items.filter (!·.isEmpty)).map fun item =>
    bullet ++ " " ++ indentFrom 1 2 item

/-- A list of what is wrong. -/
def faults (items : List String) : String := bulleted "-" items

/-- A list of what to do. -/
def advice (items : List String) : String := bulleted ">" items

/-- A name in a message. -/
def ticked (s : String) : String := "`" ++ s ++ "`"

/-- A text without a word in front. -/
def dropFront (word s : String) : String :=
  if word.toList.isPrefixOf s.toList then String.ofList (s.toList.drop word.length) else s

/-- A number as it is written. -/
def decimal (n : Int) : Except Failure String :=
  if Numeral.isWritable n then .ok (toString n) else .error (.badValue .digitsToWrite)

/-! ## Type changes -/

/-- From which type to which. -/
def transition (o u : TypeNode) : String :=
  if o.label = u.label then "to " ++ u.label else "from " ++ o.label ++ " to " ++ u.label

/-- The text of a type's length. -/
def lengthText (t : TypeNode) : String := (t.length?.map (·.text)).getD "None"

/-- The text of a type's size. -/
def sizeText (t : TypeNode) : Except Failure String :=
  match t.numberOfBytes with
  | some n => decimal n
  | none => return "None"

/-- Why two types do not fit. -/
def explainMismatch (reason : Mismatch) (o u : TypeNode) : Except Failure String :=
  match reason with
  | .obvious => return "Bad upgrade " ++ transition o u
  | .enumResize => return "Bad upgrade " ++ transition o u ++ "\nDifferent representation sizes"
  | .typeResize => do
    return "Bad upgrade " ++ transition o u ++ "\nSize changed from " ++ (← sizeText o) ++ " to " ++
      (← sizeText u) ++ " bytes"
  | .arrayShrink =>
    return "Bad array resize from " ++ lengthText o ++ " to " ++ lengthText u ++
      "\nSize cannot decrease"
  | .arrayGrow =>
    return "Bad array resize from " ++ lengthText o ++ " to " ++ lengthText u ++
      "\nSize cannot increase here"
  | .arrayDynamic =>
    return if o.length? = some .dynamic then "Bad upgrade from dynamic to fixed size array"
      else "Bad upgrade from fixed to dynamic size array"
  | .missingMembers =>
    return "Insufficient data to compare " ++ dropFront "t_" u.head ++
      "s\nManually assess compatibility, then use option `unsafe_allow_custom_types`"
  | .unknown => return "Unknown type " ++ u.label

/-- Why a type does not fit, container by container. -/
def explainType : TypeChange → Except Failure String
  | .mismatch reason o u => explainMismatch reason o u
  | .inside _ _ u inner => do return "In " ++ u.label ++ "\n" ++ faults [← explainType inner]
  | .structMembers o u _ _ | .enumNames o u _ => return "Bad upgrade " ++ transition o u

/-- What happened to the names of an enum. -/
def explainName : NameEdit → String
  | .substitute a b _ => "Replaced " ++ ticked a ++ " with " ++ ticked b
  | .delete a => "Deleted " ++ ticked a
  | .insert b => "Inserted " ++ ticked b
  | .append b | .equal _ b => "Added " ++ ticked b

/-! ## Changes -/

/-- The name of a variable in a message. -/
def name (v : Variable) : String := ticked v.item.label

/-- The lines of a move. -/
def explainMove (move : Move) : Except Failure (List String) := do
  let offset := match move.offset with
    | some (a, b) => ["Offset changed from " ++ toString a ++ " to " ++ toString b]
    | none => []
  match move.slot with
  | some (a, b) =>
    return ("Slot changed from " ++ (← decimal a) ++ " to " ++ (← decimal b)) :: offset
  | none => return offset

/-- What makes a resized gap fit. -/
def gapAdvice (fitting : Option Int) : List String :=
  "Size decrease must match with corresponding variable inserts" ::
    (match fitting with
      | some n => ["Set __gap array to size " ++ toString n]
      | none => [])

/-- Where a change happened: among the variables of a layout, or among the members of a struct,
and then whether members may be appended there. -/
inductive Place where
  | layout
  | struct (allowAppend : Bool)

/-- What to do about an inserted variable. -/
def insertAdvice : Place → String
  | .layout => "New variables should be placed after all existing inherited variables"
  | .struct true => "New struct members should be placed after existing ones"
  | .struct false => "New struct members are not allowed here. Define a new struct"

/-- The explanation of a change. `note` tells a gap that fits, and `details` are the items listed
below the reason for a type change. -/
def explainWith (place : Place) (note : Bool) (details : TypeChange → Except Failure (List String)) :
    Change → Except Failure String
  | .retype _ u t => do
    return "Upgraded " ++ name u ++ " to an incompatible type\n" ++
      faults ((← explainType t) :: (← details t))
  | .rename o u => return "Renamed " ++ name o ++ " to " ++ name u
  | .replace o u _ => return "Replaced " ++ name o ++ " with " ++ name u ++ " of incompatible type"
  | .move o u move => do
    return "Layout changed for " ++ name u ++ " (" ++ o.type.label ++ " -> " ++ u.type.label ++ ")\n" ++
      faults (← explainMove move)
  | .resizeGap o u fitting =>
    let sizes := "from " ++ lengthText o.type ++ " to " ++ lengthText u.type
    return if note then "Storage gap " ++ name u ++ " resized " ++ sizes
      else "Bad storage gap resize " ++ sizes ++ "\n" ++ advice (gapAdvice fitting)
  | .fillGap o last =>
    return if note then "Storage gap " ++ name o ++ " fully consumed by new variables"
      else if last.isNone then
        "Deleted " ++ name o ++ "\n" ++ advice ["Keep the variable even if unused"]
      else
        "Bad storage gap replacement of " ++ name o ++ "\n" ++
          advice ["Variables replacing the gap must end exactly where the gap ended"]
  | .insert u => return "Inserted " ++ name u ++ "\n" ++ advice [insertAdvice place]
  | .append u =>
    return match place with
      | .layout => "Added " ++ name u
      | .struct _ => "Added " ++ name u ++ "\n" ++ advice [insertAdvice (.struct false)]
  | .delete o => return "Deleted " ++ name o ++ "\n" ++ advice ["Keep the variable even if unused"]
  | .deleteNamespace id _ =>
    return "Deleted namespace " ++ ticked id ++ "\n" ++
      advice ["Keep the struct with the same storage location annotation"]

/-- The explanation of a change of a struct's members. -/
def explainMember (allowAppend : Bool) (c : Change) : Except Failure String :=
  explainWith (.struct allowAppend) false (fun _ => return []) c

/-- The members or names that changed in a type. -/
def memberDetails : TypeChange → Except Failure (List String)
  | .structMembers _ u changes allowAppend => do
    return ["In " ++ u.label ++ "\n" ++ faults (← changes.mapM (explainMember allowAppend))]
  | .enumNames _ u edits => return ["In " ++ u.label ++ "\n" ++ faults (edits.map explainName)]
  | _ => return []

/-- The type changes directly inside a type change. -/
def innerChanges : TypeChange → List TypeChange
  | .inside _ _ _ inner => [inner]
  | .structMembers _ _ changes _ =>
    changes.filterMap fun
      | .retype _ _ t => some t
      | _ => none
  | _ => []

mutual

/-- How deep type changes are nested inside a type change. -/
def typeDepth : TypeChange → Nat
  | .inside _ _ _ inner => typeDepth inner + 1
  | .structMembers _ _ changes _ => changesDepth changes + 1
  | _ => 1

/-- How deep type changes are nested inside changes. -/
def changesDepth : List Change → Nat
  | [] => 0
  | .retype _ _ t :: rest => max (typeDepth t) (changesDepth rest)
  | _ :: rest => changesDepth rest

end

/-- The type changes of some levels of nesting, level by level. -/
def levels : Nat → List TypeChange → List TypeChange
  | 0, _ => []
  | depth + 1, level => level ++ levels depth (level.flatMap innerChanges)

/-- A list without the repetitions of earlier elements. -/
def distinct (items : List String) : List String :=
  items.foldl (fun seen item => if seen.contains item then seen else seen ++ [item]) []

/-- The details of a type change: the members of all types inside it, the outer ones first. -/
def typeDetails (t : TypeChange) : Except Failure (List String) := do
  return distinct (← (levels (typeDepth t) [t]).mapM memberDetails).flatten

/-- The explanation of a change of a layout's variables. -/
def explainChange (note : Bool) (c : Change) : Except Failure String :=
  explainWith .layout note typeDetails c

end UpgradeSafety.Report
