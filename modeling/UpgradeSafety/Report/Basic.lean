import UpgradeSafety.Report.Wording

/-!
# Reports

A report holds the operations of a comparison. It is good when no operation is an error. It lists
its operations as *findings*, one for each place that changed, and explains them in a text. Whether
it is good can always be told; a finding or a text cannot when a number in it cannot be written.
-/

namespace UpgradeSafety

open Compare

/-- The name under which a change is reported. -/
def Compare.Change.kindName : Change → String
  | .rename .. => "rename"
  | .replace .. => "replace"
  | .retype .. => "typechange"
  | .move .. => "layoutchange"
  | .resizeGap .. => "shrinkgap"
  | .fillGap .. => "finishgap"
  | .insert _ => "insert"
  | .append _ => "append"
  | .delete _ => "delete"
  | .deleteNamespace .. => "delete-namespace"

/-- One place that changed. -/
structure Finding where
  kind : String
  path : List String
  message : String
  deriving DecidableEq, Repr

namespace Report

/-- A variable with the contract that declares it. -/
def segment (v : Variable) : String :=
  if v.item.contract.truthy then v.item.contract.display ++ "." ++ v.item.label else v.item.label

/-- The label of the variable under which a change is reported. -/
def subjectLabel (c : Change) : String := (c.subject?.map (·.item.label)).getD ""

/-- The finding of a change as a whole. -/
def ownFinding (c : Change) (path : List String) (message : Except Failure String) :
    Except Failure (List Finding) := do
  return [⟨c.kindName, path, ← message⟩]

/-- The findings inside a change or, if there are none, that of the change as a whole. -/
def innermost (inside own : Except Failure (List Finding)) : Except Failure (List Finding) := do
  match ← inside with
  | [] => own
  | found => return found

mutual

/-- The findings of a change of a struct's members, below the path of the struct's variable. -/
def memberFindings (above : List String) (struct : String) (c : Change) :
    Except Failure (List Finding) :=
  let path := above ++ [struct ++ "." ++ subjectLabel c]
  let own := ownFinding c path (explainMember true c)
  match c with
  | .replace _ _ t | .retype _ _ t => innermost (insideFindings path t) own
  | _ => own

/-- The findings of the struct members at the core of a type change. -/
def insideFindings (path : List String) : TypeChange → Except Failure (List Finding)
  | .inside _ _ _ inner => insideFindings path inner
  | .structMembers _ u changes _ =>
    allMemberFindings path (dropFront "struct " u.label) changes
  | _ => return []

/-- The findings of changes, one after the other. -/
def allMemberFindings (above : List String) (struct : String) :
    List Change → Except Failure (List Finding)
  | [] => return []
  | c :: rest => do
    return (← memberFindings above struct c) ++ (← allMemberFindings above struct rest)

end

/-- The findings of an operation. A type change of struct members is reported member by member. -/
def findings (op : Operation) : Except Failure (List Finding) :=
  match op.change with
  | .deleteNamespace id _ => ownFinding op.change [id] (return "Deleted namespace " ++ ticked id)
  | c =>
    let path :=
      (match op.namespaceId with
        | some id => if id.isEmpty then [] else [id]
        | none => []) ++ [(c.subject?.map segment).getD ""]
    let own := ownFinding c path (explainChange op.note c)
    match c with
    | .replace _ _ t | .retype _ _ t => innermost (insideFindings path t) own
    | _ => own

/-- The findings of operations, one after the other. -/
def allFindings (ops : List Operation) : Except Failure (List Finding) := do
  return (← ops.mapM findings).flatten

/-- The source of the variable under which an operation is reported. -/
def source (op : Operation) : String :=
  match op.change.subject? with
  | some v => if v.item.src.isEmpty then v.item.contract.display else v.item.src
  | none => op.namespaceId.getD ""

/-- Bold text on a terminal. -/
def bold (s : String) : String := "\x1b[1m" ++ s ++ "\x1b[0m"

/-- The explanation of operations, with their sources. -/
def explainAll (color : Bool) (ops : List Operation) : Except Failure String := do
  let texts ← ops.mapM fun op => do
    return (if color then bold (source op) else source op) ++ ": " ++
      indentFrom 1 2 (← explainChange op.note op.change)
  return "\n\n".intercalate texts

end Report

/-- The outcome of a comparison for its reader. -/
structure Report where
  operations : List Operation

namespace Report

/-- The operations that make the upgrade unsafe. -/
def errorOperations (r : Report) : List Operation := r.operations.filter (!·.note)

/-- The operations that are only noted. -/
def noteOperations (r : Report) : List Operation := r.operations.filter (·.note)

/-- Whether the upgrade is safe. -/
def ok (r : Report) : Bool := r.errorOperations.isEmpty

/-- The findings that make the upgrade unsafe. -/
def errors (r : Report) : Except Failure (List Finding) := allFindings r.errorOperations

/-- The findings that are only noted. -/
def notes (r : Report) : Except Failure (List Finding) := allFindings r.noteOperations

/-- The explanation of the errors. -/
def explain (r : Report) (color : Bool) : Except Failure String := explainAll color r.errorOperations

/-- The explanation of the notes. -/
def explainNotes (r : Report) (color : Bool) : Except Failure String :=
  explainAll color r.noteOperations

end Report

/-- A finding as JSON. -/
def Finding.toJson (f : Finding) : Json :=
  .obj [("kind", .str f.kind), ("path", .arr (f.path.map .str)), ("message", .str f.message)]

/-- A report as JSON. -/
def Report.toJson (r : Report) : Except Failure Json := do
  return .obj [("ok", .bool r.ok), ("errors", .arr ((← r.errors).map Finding.toJson)),
    ("notes", .arr ((← r.notes).map Finding.toJson))]

end UpgradeSafety
