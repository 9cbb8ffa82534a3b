import Std.Data.HashMap
import UpgradeSafety.Compare.EnumSize
import UpgradeSafety.Compare.Lists

/-!
# Comparing types and layouts

Types are compared along their structure: structs member by member, enums name by name, mappings by
their values and arrays by their elements. The result for a pair of types is remembered; a pair that
is met again while it is being compared belongs to a type that contains itself.

Appending is allowed where nothing stands behind a value: at the end of a layout, in the last member
of a struct there, and inside a mapping, whose values are spread over the storage.
-/

namespace UpgradeSafety.Compare

/-- What a comparison is to overlook. -/
structure Leniency where
  /-- Structs and enums without member information are taken as unchanged. -/
  customTypes : Bool := false
  /-- New names are errors. -/
  strictRenames : Bool := false
  deriving DecidableEq, Repr

/-- A pair of types under comparison, by their ids, and whether appending is allowed. -/
abbrev PairKey := String × String × Bool

/-- What a comparison remembers. -/
structure Memory where
  /-- The pairs already compared. -/
  known : Std.HashMap PairKey (Option TypeChange) := {}
  /-- Whether a type without member information was taken as unchanged. -/
  uncheckedCustomTypes : Bool := false

/-- A comparison: it remembers, and may be stopped by an obstacle, keeping what it remembers. -/
abbrev Comparison := ExceptT Obstacle (StateM Memory)

/-- Remembers that a type without member information was taken as unchanged. -/
def noteUnchecked : Comparison Unit :=
  modify fun memory => { memory with uncheckedCustomTypes := true }

/-- How the types inside two types are compared. -/
abbrev CompareTypes (m : Type → Type) := TypeNode → TypeNode → Bool → m (Option TypeChange)

section

variable {m : Type → Type} [Monad m] [MonadExceptOf Obstacle m]

/-- Two types of which one has no member information; `overlook` is done when that is taken as
unchanged. -/
def unknownMembers (leniency : Leniency) (overlook : m Unit) (o u : TypeNode) :
    m (Option TypeChange) :=
  if leniency.customTypes then do
    overlook
    return none
  else return some (.mismatch .missingMembers o u)

/-- The error changes among operations. -/
def errorChanges (ops : List Operation) : List Change := (ops.filter (!·.note)).map (·.change)

/-- Compares two structs by their members. -/
def structChange (leniency : Leniency) (overlook : m Unit) (og ug : TypeGraph)
    (inner : CompareTypes m) (o u : TypeNode) (allowAppend : Bool) : m (Option TypeChange) :=
  match o.members, u.members with
  | some om, some um =>
    match om.items?, um.items? with
    | some os, some us => do
      let ops ← listChanges leniency.strictRenames inner (os.map og.variable) (us.map ug.variable)
        allowAppend
      match errorChanges ops with
      | [] => return none
      | errors => return some (.structMembers o u errors allowAppend)
    | _, _ => throw Obstacle.wrongMembers
  | _, _ => unknownMembers leniency overlook o u

/-- Whether a step keeps a name or adds one behind all others. -/
def harmless : NameEdit → Bool
  | .equal .. | .append _ => true
  | _ => false

/-- Compares two enums by their names. -/
def enumChange (leniency : Leniency) (overlook : m Unit) (o u : TypeNode) :
    m (Option TypeChange) :=
  match o.members, u.members with
  | some om, some um =>
    match om.names?, um.names? with
    | some os, some us =>
      if enumSize os.length ≠ enumSize us.length then return some (.mismatch .enumResize o u)
      else
        let difference (a b : String) : Option Unit := if a = b then none else some ()
        match Alignment.align? (.standard Unit) os us difference with
        | none => throw Obstacle.unaligned
        | some edits =>
          match edits.filter (!harmless ·) with
          | [] => return none
          | bad => return some (.enumNames o u bad)
    | _, _ => throw Obstacle.wrongMembers
  | _, _ => unknownMembers leniency overlook o u

/-- Compares the elements of two array types. -/
def elementChange (og ug : TypeGraph) (inner : CompareTypes m) (o u : TypeNode)
    (oArgs uArgs : List String) : m (Option TypeChange) :=
  match oArgs, uArgs with
  | a :: _, b :: _ => do
    let found ← inner (og.node a) (ug.node b) false
    return found.map (.inside .arrayValue o u)
  | _, _ => throw Obstacle.missingArgument

/-- Compares two array types by length and element. -/
def arrayChange (og ug : TypeGraph) (inner : CompareTypes m) (o u : TypeNode)
    (oArgs uArgs : List String) (allowAppend : Bool) : m (Option TypeChange) := do
  liftObstacle (demand o.lengthExcess?)
  liftObstacle (demand u.lengthExcess?)
  match o.length?, u.length? with
  | none, _ | _, none => return some (.mismatch .unknown o u)
  | some .dynamic, some .dynamic => elementChange og ug inner o u oArgs uArgs
  | some (.fixed m), some (.fixed n) =>
    if n < m then return some (.mismatch .arrayShrink o u)
    else if m < n && !allowAppend then return some (.mismatch .arrayGrow o u)
    else elementChange og ug inner o u oArgs uArgs
  | _, _ => return some (.mismatch .arrayDynamic o u)

/-- Compares two mapping types by their values. Keys are hashed and cannot move anything. -/
def mappingChange (og ug : TypeGraph) (inner : CompareTypes m) (o u : TypeNode)
    (oArgs uArgs : List String) : m (Option TypeChange) :=
  match oArgs.getLast?, uArgs.getLast? with
  | some a, some b => do
    let found ← inner (og.node a) (ug.node b) true
    return found.map (.inside .mappingValue o u)
  | _, _ => throw Obstacle.missingArgument

/-- Compares two value types by their sizes. -/
def valueTypeChange (o u : TypeNode) : Option TypeChange :=
  match o.numberOfBytes, u.numberOfBytes with
  | some a, some b => if a = b then none else some (.mismatch .typeResize o u)
  | _, _ => some (.mismatch .unknown o u)

/-- Compares two types; `inner` compares the types inside them. Types without arguments are told
apart by their heads alone. -/
def typeChangeWith (leniency : Leniency) (overlook : m Unit) (og ug : TypeGraph)
    (inner : CompareTypes m) (o u : TypeNode) (allowAppend : Bool) : m (Option TypeChange) :=
  if o.head ≠ u.head then return some (.mismatch .obvious o u)
  else
    match o.args, u.args with
    | some oArgs, some uArgs =>
      match o.kind with
      | .contract => return none
      | .valueType => return valueTypeChange o u
      | .struct => structChange leniency overlook og ug inner o u allowAppend
      | .enum => enumChange leniency overlook o u
      | .mapping => mappingChange og ug inner o u oArgs uArgs
      | .array => arrayChange og ug inner o u oArgs uArgs allowAppend
      | _ => return if o.id = u.id then none else some (.mismatch .obvious o u)
    | some (_ :: _), none | none, some (_ :: _) => return some (.mismatch .obvious o u)
    | _, _ => return none

end

/-- Compares two types, remembering the result. `openPairs` holds the pairs that are being compared;
no more than `fuel` pairs can be. -/
def typeChange (leniency : Leniency) (og ug : TypeGraph) :
    Nat → List PairKey → CompareTypes Comparison
  | 0, _, _, u, _ => throw (.recursion u.label)
  | fuel + 1, openPairs, o, u, allowAppend => do
    let key : PairKey := (o.id, u.id, allowAppend)
    match (← get).known[key]? with
    | some found => return found
    | none =>
      if openPairs.contains key then throw (.recursion u.label)
      else
        let found ← typeChangeWith leniency noteUnchecked og ug
          (typeChange leniency og ug fuel (key :: openPairs)) o u allowAppend
        modify fun memory => { memory with known := memory.known.insert key found }
        return found

/-- The greatest number of pairs of types that can be open at once. -/
def pairBound (og ug : TypeGraph) : Nat := 2 * ((og.length + 1) * (ug.length + 1)) + 1

/-- Compares two resolved lists of variables at the end of which appending is allowed. -/
def sectionChanges (leniency : Leniency) (former updated : Resolved) :
    Comparison (List Operation) :=
  listChanges leniency.strictRenames
    (typeChange leniency former.graph updated.graph (pairBound former.graph updated.graph) [])
    former.vars updated.vars true

/-- Compares the namespaces of the former layout with those of the same id. -/
def namespaceChanges (leniency : Leniency) (updated : List (String × Resolved)) :
    List (String × Resolved) → Comparison (List Operation)
  | [] => return []
  | (id, former) :: rest => do
    let here ← match updated.lookup id with
      | none => pure [⟨.deleteNamespace id former.vars.head?, false, some id⟩]
      | some found => do
        let ops ← sectionChanges leniency former found
        pure (ops.map fun op => { op with namespaceId := some id })
    let later ← namespaceChanges leniency updated rest
    return here ++ later

/-- Compares storage and namespaces of two resolved layouts. -/
def sectionsChanges (leniency : Leniency) (former updated : Resolved)
    (formerNamespaces updatedNamespaces : List (String × Resolved)) :
    Comparison (List Operation) := do
  let storage ← sectionChanges leniency former updated
  let namespaces ← namespaceChanges leniency updatedNamespaces formerNamespaces
  return storage ++ namespaces

/-- The failure that an obstacle causes. -/
def Obstacle.failure : Obstacle → Failure
  | recursion label => .refused (.recursiveType label)
  | wrongMembers => .fault .wrongMembers
  | missingArgument => .fault .outOfRange
  | emptyElement => .fault .divisionByZero
  | unaligned => .interrupted "Could not walk matrix"
  | unreadable digits => .unreadable digits
  | unwritable => .badValue .digitsToWrite

/-- The outcome of a comparison. -/
structure Outcome where
  operations : List Operation
  uncheckedCustomTypes : Bool

/-- Compares two layouts. -/
def layouts (leniency : Leniency) (former updated : Layout) : Except Failure Outcome := do
  let resolved {α : Type} (x : Except Refusal α) : Except Failure α := x.mapError .refused
  let os ← resolved former.resolveStorage
  let us ← resolved updated.resolveStorage
  let on ← resolved former.resolveNamespaces
  let un ← resolved updated.resolveNamespaces
  match (sectionsChanges leniency os us on un).run.run {} with
  | (.ok ops, memory) => return ⟨ops, memory.uncheckedCustomTypes⟩
  | (.error e, _) => throw e.failure

end UpgradeSafety.Compare
