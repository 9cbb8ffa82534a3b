import UpgradeSafety.Layout.Resolution

/-!
# Placement

Variables whose places are known must not cross the end of their slot, and no two of them may share
a byte. After sorting by the first byte it is enough to compare neighbours.
-/

namespace UpgradeSafety.Placement

/-- A variable with its slot and offset. -/
structure Placed where
  subject : Variable
  slot : Int
  offset : Int

/-- A variable whose slot and offset are both known. -/
def placed? (v : Variable) : Option Placed :=
  match v.item.slot, v.item.offset with
  | some slot, some offset => some ⟨v, slot, offset⟩
  | _, _ => none

namespace Placed

/-- The first byte. -/
def start (p : Placed) : Int := p.slot * 32 + p.offset

/-- The byte behind the last one. -/
def stop (p : Placed) : Int := p.start + p.subject.size

/-- Whether a variable goes beyond its slot. A variable of more than a slot takes whole slots. -/
def crosses (p : Placed) : Bool := 32 < p.offset + min p.subject.size 32

/-- The refusal of a variable that goes beyond its slot. -/
def crossing (p : Placed) : Refusal :=
  .slotCrossed p.subject.item.label p.subject.size p.offset p.slot

/-- The refusal of two variables that share bytes. -/
def overlapping (p q : Placed) : Refusal :=
  .overlap p.subject.item.label q.subject.item.label p.slot p.offset q.slot q.offset

end Placed

/-- Compares every variable with the next one. -/
def checkNeighbours : List Placed → Except Refusal Unit
  | p :: q :: rest =>
    if q.start < p.stop then .error (p.overlapping q) else checkNeighbours (q :: rest)
  | _ => .ok ()

/-- Checks the places of variables whose sizes are known. -/
def check (vars : List Variable) : Except Refusal Unit :=
  let placed := vars.filterMap placed?
  match placed.find? Placed.crosses with
  | some p => .error p.crossing
  | none => checkNeighbours (placed.mergeSort fun p q => p.start ≤ q.start)

/-- How many digits stand in the way of finding the size of a variable, none of those before it
crossing its slot. -/
def excess? : List Placed → Option Nat
  | [] => none
  | p :: rest =>
    match p.subject.sizeExcess? with
    | some digits => some digits
    | none => if p.crosses then none else excess? rest

/-- Checks the places of variables. A size has to be readable, and a refusal can only be told when
the numbers in it can be written. -/
def verify (vars : List Variable) : Except Failure Unit :=
  match excess? (vars.filterMap placed?) with
  | some digits => .error (.unreadable digits)
  | none => (check vars).mapError Refusal.told

end UpgradeSafety.Placement
