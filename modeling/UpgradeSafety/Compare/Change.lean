import UpgradeSafety.Alignment
import UpgradeSafety.Layout.Resolution

/-!
# Changes between two versions

What a comparison reports. A *change* concerns a pair of aligned variables, or a variable that has
no partner. A *type change* says why the type of a variable no longer fits; it leads through mapping
values and array elements to the place where the types differ, and lists the changes of members.

An *operation* is a change with its standing: an error, or a note for the reader.
-/

namespace UpgradeSafety.Compare

/-- Why two types do not fit, where the types themselves differ. -/
inductive Mismatch where
  | obvious
  | enumResize
  | typeResize
  | arrayShrink
  | arrayGrow
  | arrayDynamic
  | missingMembers
  | unknown
  deriving DecidableEq, Repr

/-- The types that hold other types without naming them. -/
inductive Container where
  | mappingValue
  | arrayValue
  deriving DecidableEq, Repr

/-- Differences of two positions, each present when the two values differ. -/
structure Move where
  slot : Option (Int × Int) := none
  offset : Option (Int × Int) := none
  deriving DecidableEq, Repr

/-- A step of the alignment of two lists of enum names. -/
abbrev NameEdit := Alignment.Edit String String Unit

mutual

/-- Why the updated type does not fit the former one. -/
inductive TypeChange where
  | mismatch (reason : Mismatch) (former updated : TypeNode)
  | inside (container : Container) (former updated : TypeNode) (inner : TypeChange)
  | structMembers (former updated : TypeNode) (changes : List Change) (allowAppend : Bool)
  | enumNames (former updated : TypeNode) (edits : List NameEdit)

/-- A change of a list of variables. -/
inductive Change where
  | rename (former updated : Variable)
  | replace (former updated : Variable) (type : TypeChange)
  | retype (former updated : Variable) (type : TypeChange)
  | move (former updated : Variable) (move : Move)
  /-- A gap that was resized; the size is the one that would fit. -/
  | resizeGap (former updated : Variable) (fitting : Option Int)
  /-- A gap that was removed, with the last of the variables in its place. -/
  | fillGap (former : Variable) (last : Option Variable)
  | insert (updated : Variable)
  | append (updated : Variable)
  | delete (former : Variable)
  /-- A namespace that is gone, with its first variable. -/
  | deleteNamespace (id : String) (first : Option Variable)

end

namespace TypeChange

/-- The former type. -/
def former : TypeChange → TypeNode
  | mismatch _ o _ | inside _ o _ _ | structMembers o _ _ _ | enumNames o _ _ => o

/-- The updated type. -/
def updated : TypeChange → TypeNode
  | mismatch _ _ u | inside _ _ u _ | structMembers _ u _ _ | enumNames _ u _ => u

/-- The place where the types differ, behind all containers. -/
def core : TypeChange → TypeChange
  | inside _ _ _ inner => inner.core
  | t => t

end TypeChange

namespace Change

/-- The former variable. -/
def former? : Change → Option Variable
  | rename o _ | replace o _ _ | retype o _ _ | move o _ _ | resizeGap o _ _ | fillGap o _
  | delete o => some o
  | deleteNamespace _ first => first
  | insert _ | append _ => none

/-- The updated variable. -/
def updated? : Change → Option Variable
  | rename _ u | replace _ u _ | retype _ u _ | move _ u _ | resizeGap _ u _ | insert u
  | append u => some u
  | fillGap _ last => last
  | delete _ | deleteNamespace .. => none

/-- The variable under which a change is reported: the updated one where there is one, and the gap
itself for a gap that was removed. -/
def subject? (c : Change) : Option Variable :=
  match c with
  | fillGap o _ => some o
  | c => c.updated?.or c.former?

end Change

/-- A change with its standing. A note does not make an upgrade unsafe. -/
structure Operation where
  change : Change
  note : Bool := false
  /-- The namespace of the variables; none for the ordinary storage. -/
  namespaceId : Option String := none

end UpgradeSafety.Compare
