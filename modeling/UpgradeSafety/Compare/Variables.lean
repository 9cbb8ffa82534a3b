import UpgradeSafety.Compare.Change

/-!
# Comparing a pair of variables

The name, the type and the position of an aligned pair are compared on their own; the gravest
difference is reported. The type is compared by a procedure that is given, since it leads back to
lists of variables.
-/

namespace UpgradeSafety.Compare

/-- Whether a name changed without notice. A variable may declare the name that it had before; that
name alone then has to be right. -/
def namesDiffer (o u : Item) : Bool :=
  u.renamedFrom != some o.label && (u.label != o.label || u.renamedFrom.isSome)

/-- Whether the updated variable declares the type of its partner as the type that it had before. -/
def declaresType (o u : Variable) : Bool :=
  match u.item.retypedFrom with
  | some declared => Text.strip declared == o.type.label
  | none => false

/-- The difference of two known positions. -/
def move? (o u : Item) : Option Move :=
  match o.slot, u.slot with
  | some a, some b =>
    let slot := if a ≠ b then some (a, b) else none
    let (p, q) := (o.offset.getD 0, u.offset.getD 0)
    let offset := if p ≠ q then some (p, q) else none
    if slot.isNone && offset.isNone then none else some ⟨slot, offset⟩
  | _, _ => none

/-- Whether an unsigned integer may become wider in place: it keeps its position, stays inside its
slot, and no other variable of the former list stands behind it in the slot. `index` is the place
of the former variable in `siblings`. -/
def widens (siblings : List Variable) (index : Nat) (o u : Variable) : Bool :=
  match o.type.integer?, u.type.integer?, o.item.slot with
  | some (oSigned, oBits), some (uSigned, uBits), some slot =>
    let offset := o.item.offset.getD 0
    !oSigned && !uSigned && oBits < uBits && u.item.slot == some slot &&
      u.item.offset.getD 0 == offset && offset + uBits / 8 ≤ 32 &&
      !siblings.zipIdx.any fun (s, k) =>
        k != index && s.item.slot == some slot && offset < s.item.offset.getD 0
  | _, _, _ => false

/-- The first argument of two gap types, when both have one and it is the same. -/
def sameGapElement (o u : TypeNode) : Bool :=
  match o.args, u.args with
  | some (a :: _), some (b :: _) => a == b
  | _, _ => false

/-- The gravest difference of two variables, given that of their types. -/
def gravestChange (siblings : List Variable) (index : Nat) (o u : Variable)
    (type : Option TypeChange) : Option Change :=
  let type := if type.isSome && widens siblings index o u then none else type
  match type, namesDiffer o.item u.item with
  | some t, true => some (.replace o u t)
  | none, true => some (.rename o u)
  | some t, false => some (.retype o u t)
  | none, false => (move? o.item u.item).map (.move o u)

/-- Compares a pair of variables; `typeChange` compares their types. -/
def variableChange {m : Type → Type} [Monad m] (typeChange : m (Option TypeChange))
    (siblings : List Variable) (index : Nat) (o u : Variable) : m (Option Change) :=
  if o.isGap && u.isGap && sameGapElement o.type u.type then
    if o.position? == u.position? && o.type.length? == u.type.length? then pure none
    else pure (some (.resizeGap o u none))
  else if declaresType o u then pure (gravestChange siblings index o u none)
  else do return gravestChange siblings index o u (← typeChange)

end UpgradeSafety.Compare
