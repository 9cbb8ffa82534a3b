import UpgradeSafety.Compare.Variables

/-!
# Comparing two lists of variables

Two lists are aligned by the cheapest edit script. Variables that start inside a gap next to them
cost nothing, nor does the removal of a gap or a pair that only moved. The steps of the script are
then judged one by one: a resized gap has to end where it ended, a removed gap has to be filled up
to its end, and whatever else is inserted, removed or changed is an error.
-/

namespace UpgradeSafety.Compare

/-- What stops a comparison. -/
inductive Obstacle where
  /-- A type that contains itself, with the label of the updated type. -/
  | recursion (label : String)
  /-- A struct with names for members, or an enum with variables. -/
  | wrongMembers
  /-- A container type without arguments. -/
  | missingArgument
  /-- A gap whose elements take no byte. -/
  | emptyElement
  /-- An alignment that could not be read off its table. -/
  | unaligned
  /-- A number in a type id with too many digits. -/
  | unreadable (digits : Nat)
  /-- A number that has to be shown and has too many digits. -/
  | unwritable
  deriving DecidableEq, Repr

/-- Pairs that only moved and resized gaps cost nothing. -/
def pairPrice : Option Change → Int
  | none | some (.move ..) | some (.resizeGap ..) => 0
  | some _ => 3

/-- The prices for two lists of variables. -/
def tariff (former updated : Array Variable) : Alignment.Tariff Change where
  pair := pairPrice
  insert i j :=
    let inside (k : Nat) (u : Variable) : Bool :=
      match former[k]? with
      | some o => o.isGap && u.startsIn o
      | none => false
    match updated[j - 1]? with
    | some u => if (0 < i && inside (i - 1) u) || inside i u then 0 else 2
    | none => 2
  delete i :=
    match former[i - 1]? with
    | some o => if o.isGap then 0 else 2
    | none => 2

/-- A step of the alignment of two lists of variables. -/
abbrev VariableEdit := Alignment.Edit Variable Variable Change

/-- Judges a resized gap: it may only be smaller by the variables that took its first bytes. When it
ends elsewhere, the size that would end right is found from the size of an element. -/
def judgeResizedGap (o u : Variable) : Except Obstacle Operation :=
  match o.end?, u.end?, u.position? with
  | some oEnd, some uEnd, some uStart =>
    if oEnd = uEnd then .ok ⟨.resizeGap o u none, true, none⟩
    else if uStart < oEnd then
      let element := match u.type.fixedLength? with
        | some (n + 1) => u.size.fdiv (n + 1 : Nat)
        | _ => 32
      if element = 0 then .error .emptyElement
      else
        let fitting := (oEnd - uStart).fdiv element
        if Numeral.isWritable fitting then .ok ⟨.resizeGap o u (some fitting), false, none⟩
        else .error .unwritable
    else .ok ⟨.resizeGap o u none, false, none⟩
  | _, _, _ => .ok ⟨.resizeGap o u none, false, none⟩

/-- The variable that a step adds. -/
def added? : VariableEdit → Option Variable
  | .insert u | .append u => some u
  | _ => none

/-- The variables that the steps at the front of a script add. -/
def leadingAdded : List VariableEdit → List Variable
  | [] => []
  | e :: rest =>
    match added? e with
    | some u => u :: leadingAdded rest
    | none => []

/-- Judges a removed gap by the variables added directly around it: together they have to start
inside the gap or behind its start and end exactly where it ended. -/
def judgeRemovedGap (gap : Variable) (added : List Variable) : Operation :=
  let fits : Bool :=
    match gap.position?, gap.end?, added.mapM Variable.position?, added.mapM Variable.end? with
    | some start, some last, some (s :: starts), some (e :: ends) =>
      start ≤ starts.foldl min s && ends.foldl max e == last
    | _, _, _, _ => false
  ⟨.fillGap gap added.getLast?, fits, none⟩

/-- Fails for a number with too many digits. -/
def demand : Option Nat → Except Obstacle Unit
  | some digits => .error (.unreadable digits)
  | none => .ok ()

/-- Fails when a variable whose end has to be found has no size that can be read. -/
def demandEnd (v : Variable) : Except Obstacle Unit :=
  if v.item.slot.isSome then demand v.sizeExcess? else .ok ()

/-- Fails when it cannot be told which variables are gaps. The updated ones are asked only where
they may stand against a gap. -/
def demandGaps (former updated : List Variable) : Except Obstacle Unit := do
  former.forM fun v => demand v.gapExcess?
  if former.any Variable.isGap then updated.forM fun v => demand v.gapExcess?

/-- Judges a changed pair. Without strict renames a new name is only noted. -/
def judgePair (strictRenames : Bool) : Change → Except Obstacle Operation
  | .resizeGap o u _ => judgeResizedGap o u
  | .rename o u => .ok ⟨.rename o u, !strictRenames, none⟩
  | c => .ok ⟨c, false, none⟩

/-- Judges one step of a script: `before` holds the steps before it, last first, and `rest` those
behind it. -/
def judgeStep (strictRenames allowAppend : Bool) (gaps : List Variable)
    (before : List VariableEdit) (step : VariableEdit) (rest : List VariableEdit) :
    Except Obstacle (List Operation) :=
  match step with
  | .equal .. => .ok []
  | .substitute _ _ change => (judgePair strictRenames change).map ([·])
  | .append u => .ok (if allowAppend then [] else [⟨.append u, false, none⟩])
  | .insert u =>
    .ok (if gaps.any fun g => u.startsIn g then [] else [⟨.insert u, false, none⟩])
  | .delete o =>
    if o.isGap then do
      let added := (leadingAdded before).reverse ++ leadingAdded rest
      added.forM demandEnd
      .ok [judgeRemovedGap o added]
    else .ok [⟨.delete o, false, none⟩]

/-- Judges the steps of a script in order: `before` holds the steps already judged, last first. -/
def judgeSteps (strictRenames allowAppend : Bool) (gaps : List Variable)
    (before : List VariableEdit) : List VariableEdit → Except Obstacle (List Operation)
  | [] => .ok []
  | step :: rest => do
    let here ← judgeStep strictRenames allowAppend gaps before step rest
    let later ← judgeSteps strictRenames allowAppend gaps (step :: before) rest
    .ok (here ++ later)

/-- The operations of a script. -/
def judge (strictRenames allowAppend : Bool) (former : List Variable)
    (script : List VariableEdit) : Except Obstacle (List Operation) :=
  judgeSteps strictRenames allowAppend (former.filter Variable.isGap) [] script

/-- The differences of all pairs of two lists, row by row. Appending inside the type of a variable
is allowed only in the last former variable. -/
def differences {m : Type → Type} [Monad m]
    (typeChange : TypeNode → TypeNode → Bool → m (Option TypeChange))
    (former updated : List Variable) (allowAppend : Bool) : m (List (List (Option Change))) :=
  former.zipIdx.mapM fun (o, i) =>
    updated.mapM fun u =>
      variableChange (typeChange o.type u.type (allowAppend && i + 1 == former.length))
        former i o u

/-- The operations for two lists whose differences are known. -/
def operations (strictRenames allowAppend : Bool) (former updated : List Variable)
    (differences : List (List (Option Change))) : Except Obstacle (List Operation) :=
  match Alignment.edits? (tariff former.toArray updated.toArray) former updated differences with
  | none => .error .unaligned
  | some script => judge strictRenames allowAppend former script

/-- A result inside a comparison. -/
def liftObstacle {m : Type → Type} [Monad m] [MonadExceptOf Obstacle m] {α : Type} :
    Except Obstacle α → m α
  | .ok a => pure a
  | .error e => throw e

/-- Compares two types; where they differ, the sizes of integer types have to be readable. -/
def checkedChange {m : Type → Type} [Monad m] [MonadExceptOf Obstacle m]
    (typeChange : TypeNode → TypeNode → Bool → m (Option TypeChange)) (o u : TypeNode)
    (allowAppend : Bool) : m (Option TypeChange) := do
  let found ← typeChange o u allowAppend
  if found.isSome then
    liftObstacle (demand o.integerExcess?)
    liftObstacle (demand u.integerExcess?)
  return found

/-- Compares two lists of variables; `typeChange` compares two types. -/
def listChanges {m : Type → Type} [Monad m] [MonadExceptOf Obstacle m] (strictRenames : Bool)
    (typeChange : TypeNode → TypeNode → Bool → m (Option TypeChange))
    (former updated : List Variable) (allowAppend : Bool) : m (List Operation) := do
  liftObstacle (demandGaps former updated)
  let known ← differences (checkedChange typeChange) former updated allowAppend
  liftObstacle (operations strictRenames allowAppend former updated known)

end UpgradeSafety.Compare
