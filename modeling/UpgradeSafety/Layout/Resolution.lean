import UpgradeSafety.Layout.Basic

/-!
# Resolved types

Resolving a type id joins its parts with its entry in the types table, and does the same for every
id that it mentions: its arguments, its return types and the types of its members. The result is a
graph with one node for each id. Types may refer to themselves through members, arrays and
mappings: a node is entered into the graph before the ids it mentions are resolved, so each id is
resolved once.

A reference is *required* when its id must be in the types table. The arguments of functions,
structs, enums, contracts and value types are names, not types, and return types are never listed.
-/

namespace UpgradeSafety

/-- A type id joined with its entry. Other types are mentioned by their ids. -/
structure TypeNode where
  id : String
  head : String
  tail : Option String := none
  label : String
  numberOfBytes : Option Int := none
  args : Option (List String) := none
  rets : Option (List String) := none
  members : Option Members := none
  deriving DecidableEq, Repr

namespace TypeNode

/-- The kind of a type. -/
def kind (t : TypeNode) : TypeId.Kind := TypeId.kindOfHead t.head

/-- The length of an array type. -/
def length? (t : TypeNode) : Option TypeId.Length := TypeId.lengthOf? t.head t.tail

/-- The length of an array type of fixed length. -/
def fixedLength? (t : TypeNode) : Option Nat := t.length?.bind TypeId.Length.fixed?

/-- Signedness and size of an integer type. -/
def integer? (t : TypeNode) : Option (Bool × Nat) := TypeId.integerOf? t.head

/-- How many digits the length of an array type has, when they are more than are read. -/
def lengthExcess? (t : TypeNode) : Option Nat := TypeId.lengthExcess? t.head t.tail

/-- How many digits the size of an integer type has, when they are more than are read. -/
def integerExcess? (t : TypeNode) : Option Nat := TypeId.integerExcess? t.head

/-- A type of which nothing but the id is known. -/
def bare (id : String) : TypeNode := { id, head := id, label := id }

/-- The parts of an id joined with an entry. -/
def ofEntry (t : TypeId) (entry : Option TypeEntry) : TypeNode where
  id := t.text
  head := t.head
  tail := t.tail
  label := (entry.map (·.label)).getD t.text
  numberOfBytes := entry.bind (·.numberOfBytes)
  args := t.args.map fun args => args.map (·.text)
  rets := t.rets.map fun rets => rets.map (·.text)
  members := entry.bind (·.members)

end TypeNode

/-- Resolved types by id, in the order in which they were first met. -/
abbrev TypeGraph := List (String × TypeNode)

/-- The node of an id; a bare one for an id outside the graph. -/
def TypeGraph.node (g : TypeGraph) (id : String) : TypeNode := (g.lookup id).getD (.bare id)

namespace Resolution

/-- Whether the arguments of a type of this kind are types that the table lists. -/
def listsArguments : TypeId.Kind → Bool
  | .function | .struct | .enum | .contract | .valueType => false
  | _ => true

/-- Resolves a type id and everything it mentions. The fuel bounds the depth of references, which
pass through unresolved ids only. -/
def resolve (types : TypeTable) :
    Nat → TypeGraph → TypeId → Bool → Except Refusal TypeGraph
  | 0, _, t, _ => .error (.unresolvableType t.text)
  | fuel + 1, g, t, required =>
    match g.lookup t.text with
    | some _ => .ok g
    | none =>
      let entry := types.lookup t.text
      if entry.isNone && required then .error (.unresolvableType t.text)
      else do
        let g := g ++ [(t.text, TypeNode.ofEntry t entry)]
        let argsRequired := required && listsArguments (TypeId.kindOfHead t.head)
        let g ← (t.args.getD []).foldlM (fun g a => resolve types fuel g a argsRequired) g
        let g ← (t.rets.getD []).foldlM (fun g r => resolve types fuel g r false) g
        match entry.bind (·.members) with
        | some (.items members) =>
          members.foldlM (fun g m => do resolve types fuel g (← TypeId.read m.type) true) g
        | _ => .ok g

/-- A bound on the number of ids that items and the members of a table mention: no id has more
parts than characters, itself not counted. -/
def mentions (types : TypeTable) (items : List Item) : Nat :=
  let idsOf (is : List Item) : Nat := is.foldl (fun n i => n + i.type.length + 1) 0
  let membersOf (entry : TypeEntry) : Nat :=
    match entry.members with
    | some (.items is) => idsOf is
    | _ => 0
  types.foldl (fun n (_, entry) => n + membersOf entry) (idsOf items) + 1

/-- Resolves the types of items, given what is already resolved; `bound` bounds the depth. -/
def resolveItems (types : TypeTable) (bound : Nat) (g : TypeGraph) (items : List Item) :
    Except Refusal TypeGraph :=
  items.foldlM (fun g i => do resolve types bound g (← TypeId.read i.type) true) g

end Resolution

/-- An item with its resolved type. -/
structure Variable where
  item : Item
  type : TypeNode
  deriving DecidableEq, Repr

/-- An item with its type from a graph. -/
def TypeGraph.variable (g : TypeGraph) (item : Item) : Variable := ⟨item, g.node item.type⟩

/-- A list of variables together with the graph of their types. -/
structure Resolved where
  graph : TypeGraph
  items : List Item
  deriving DecidableEq, Repr

/-- The variables of a resolved list. -/
def Resolved.vars (r : Resolved) : List Variable := r.items.map r.graph.variable

namespace Layout

/-- The variables of a layout's storage with their types. -/
def resolveStorage (layout : Layout) : Except Refusal Resolved := do
  let bound := Resolution.mentions layout.types layout.storage
  let graph ← Resolution.resolveItems layout.types bound [] layout.storage
  return ⟨graph, layout.storage⟩

/-- The namespaces of a layout with their types. All namespaces share one graph. -/
def resolveNamespaces (layout : Layout) : Except Refusal (List (String × Resolved)) := do
  let items := layout.namespaces.flatMap (·.2)
  let graph ← Resolution.resolveItems layout.types (Resolution.mentions layout.types items) [] items
  return layout.namespaces.map fun (id, items) => (id, ⟨graph, items⟩)

end Layout

namespace Variable

/-- The number of bytes of a variable: its type's size, or a slot for each element of an array of
fixed length, or one slot. -/
def size (v : Variable) : Int :=
  match v.type.numberOfBytes with
  | some n => n
  | none =>
    match v.type.fixedLength? with
    | some n => 32 * n
    | none => 32

/-- The first byte of a variable whose slot is known. -/
def position? (v : Variable) : Option Int := v.item.slot.map fun s => s * 32 + v.item.offset.getD 0

/-- The byte behind the last one of a variable whose slot is known. -/
def end? (v : Variable) : Option Int := v.position?.map (· + v.size)

/-- How many digits stand in the way of finding the size of a variable. -/
def sizeExcess? (v : Variable) : Option Nat :=
  if v.type.numberOfBytes.isNone then v.type.lengthExcess? else none

/-- Whether a variable has the name and the kind of a gap. -/
def looksLikeGap (v : Variable) : Bool :=
  (v.item.label == "__gap" || v.item.label == "_gap") && v.type.kind == .array

/-- A gap is an array of fixed length that reserves slots for future variables. -/
def isGap (v : Variable) : Bool := v.looksLikeGap && v.type.fixedLength?.isSome

/-- How many digits stand in the way of telling whether a variable is a gap. -/
def gapExcess? (v : Variable) : Option Nat :=
  if v.looksLikeGap then v.type.lengthExcess? else none

/-- Whether a variable starts inside the bytes of a gap. -/
def startsIn (v gap : Variable) : Bool :=
  match gap.position?, gap.end?, v.position? with
  | some first, some last, some start => first ≤ start && start < last
  | _, _, _ => false

end Variable

end UpgradeSafety
