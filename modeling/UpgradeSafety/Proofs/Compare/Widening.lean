import UpgradeSafety.Compare.Variables
import UpgradeSafety.Proofs.Layout.Placement

/-!
# Integers that become wider

An unsigned integer may become wider where it stands. The comparison looks only at the variables
that start behind it in its slot; in a list that is laid out this is enough (`widens_keeps_apart`).
Variables before it end before it, those that start in an earlier slot, too, and those of later
slots start behind the slot, which the wider integer does not leave.

What the check says of the two items is collected first (`Widens`): both are unsigned integers at
one known position, the updated one is wider and ends in its slot, and no other variable of the
list starts behind them in that slot. A list that is laid out has variables that stay in their
slots and share no byte. So the bytes that the wider integer takes beyond the former one belong to
nobody: a variable that has one of them would have to start before the integer, and share its first
byte, or behind it in the slot, where the check finds it.
-/

namespace UpgradeSafety.Compare

variable {siblings vars : List Variable} {i : Nat} {o u : Variable}

/-- What an integer that may become wider satisfies. -/
structure Widens (siblings : List Variable) (i : Nat) (o u : Variable) (slot : Int)
    (oBits uBits : Nat) : Prop where
  former : o.type.integer? = some (false, oBits)
  updated : u.type.integer? = some (false, uBits)
  wider : oBits < uBits
  formerSlot : o.item.slot = some slot
  updatedSlot : u.item.slot = some slot
  sameOffset : u.item.offset.getD 0 = o.item.offset.getD 0
  inSlot : o.item.offset.getD 0 + (uBits / 8 : Nat) ≤ 32
  lastInSlot : ∀ j v, siblings[j]? = some v → j ≠ i → v.item.slot = some slot →
    v.item.offset.getD 0 ≤ o.item.offset.getD 0

theorem exists_widens_of_widens (h : widens siblings i o u = true) :
    ∃ slot oBits uBits, Widens siblings i o u slot oBits uBits := by
  unfold widens at h
  split at h
  · rename_i oSigned oBits uSigned uBits slot ho hu hslot
    simp only [Bool.and_eq_true, Bool.not_eq_true', beq_iff_eq, decide_eq_true_eq] at h
    obtain ⟨⟨⟨⟨⟨⟨rfl, rfl⟩, hwider⟩, hslot'⟩, hoffset⟩, hin⟩, hlast⟩ := h
    refine ⟨slot, oBits, uBits, ho, hu, hwider, hslot, hslot', hoffset, hin, fun j v hv hne hvs => ?_⟩
    have hbehind := List.any_eq_false.mp hlast (v, j) (List.mem_zipIdx_iff_getElem?.mpr hv)
    simp only [Bool.and_eq_true, bne_iff_ne, beq_iff_eq, decide_eq_true_eq, not_and] at hbehind
    exact Int.le_of_not_gt (hbehind ⟨hne, hvs⟩)
  · cases h

namespace Widens

variable {slot : Int} {oBits uBits : Nat} (h : Widens siblings i o u slot oBits uBits)
include h

theorem start_eq : o.start = slot * 32 + o.item.offset.getD 0 := by
  rw [Variable.start, h.formerSlot]
  rfl

/-- It ends in the same slot. -/
theorem stop_le : o.start + (uBits / 8 : Nat) ≤ slot * 32 + 32 := by
  have hin := h.inSlot
  rw [h.start_eq]
  omega

end Widens

/-- An integer of a list that is laid out may become wider only inside its slot and without taking a byte
of another variable: the bytes of the wider integer lie in one slot, those of the former one are among
them when it takes as many as its size says, and none belongs to another variable of the list. -/
theorem widens_keeps_apart (hvars : LaidOut vars) (ho : vars[i]? = some o)
    (h : widens vars i o u = true) :
    ∃ bits first, u.type.integer? = some (false, bits) ∧ o.position? = some first ∧
      (∃ slot : Int, slot * 32 ≤ first ∧ first + (bits / 8 : Nat) ≤ slot * 32 + 32) ∧
      (∀ signed oBits, o.type.integer? = some (signed, oBits) → o.size = (oBits / 8 : Nat) →
        ∀ byte, o.Holds byte → first ≤ byte ∧ byte < first + (bits / 8 : Nat)) ∧
      ∀ j v, vars[j]? = some v → j ≠ i →
        ∀ byte, first ≤ byte → byte < first + (bits / 8 : Nat) → ¬ v.Holds byte := by
  obtain ⟨slot, oBits, bits, hwidens⟩ := exists_widens_of_widens h
  have hmem := List.mem_of_getElem? ho
  have hplaced := hvars.placed o hmem
  have hbounds := hplaced.start_bounds
  have hstop := hwidens.stop_le
  rw [hwidens.formerSlot, Option.getD_some] at hbounds
  refine ⟨bits, o.start, hwidens.updated, hplaced.position?_eq, ⟨slot, hbounds.1, hstop⟩, ?_, ?_⟩
  · intro signed oBits' hinteger hsize byte hbyte
    rw [hwidens.former] at hinteger
    cases hinteger
    have hwider := Nat.div_le_div_right (c := 8) (Nat.le_of_lt hwidens.wider)
    have hbyte := hplaced.holds_iff.mp hbyte
    rw [Variable.stop, hsize] at hbyte
    omega
  · intro j v hv hne byte hfirst hlast hholds
    have hvPlaced := hvars.placed v (List.mem_of_getElem? hv)
    have hvBounds := hvPlaced.start_bounds
    obtain ⟨hvStart, hvStop⟩ := hvPlaced.holds_iff.mp hholds
    have hsize := hvars.sized o hmem
    rcases hvars.apart hv ho hne with hbefore | hbehind
    · omega
    · -- a variable behind the integer starts in its slot, which is excluded, or in a later one
      obtain ⟨vSlot, hvSlot⟩ := hvPlaced.slot
      rw [hvSlot, Option.getD_some] at hvBounds
      rw [Variable.stop] at hbehind
      rcases Int.lt_or_le slot vSlot with hlater | hle
      · omega
      · obtain rfl : vSlot = slot := by omega
        have hoffset := hwidens.lastInSlot j v hv hne hvSlot
        have hvStartEq : v.start = vSlot * 32 + v.item.offset.getD 0 := by
          rw [Variable.start, hvSlot]
          rfl
        have hstart := hwidens.start_eq
        omega

/-- An unsigned integer behind four other bytes of a slot. -/
def packedInteger (bits : Nat) : Variable where
  item := { label := "limit", type := s!"t_uint{bits}", slot := some 0, offset := some 4 }
  type :=
    { id := s!"t_uint{bits}"
      head := s!"t_uint{bits}"
      label := s!"uint{bits}"
      numberOfBytes := some (bits / 8 : Nat) }

/-- A variable of four bytes before an integer, and a word behind it. -/
def packedVars (bits : Nat) : List Variable :=
  [⟨{ label := "tag", type := "t_bytes4", slot := some 0, offset := some 0 },
      { id := "t_bytes4", head := "t_bytes4", label := "bytes4", numberOfBytes := some 4 }⟩,
    packedInteger bits,
    ⟨{ label := "owner", type := "t_uint256", slot := some 1, offset := some 0 },
      { id := "t_uint256", head := "t_uint256", label := "uint256", numberOfBytes := some 32 }⟩]

/-- An integer of eight bytes between two variables may take sixteen, and these are free. -/
theorem widens_keeps_apart_packed :
    LaidOut (packedVars 64) ∧
      widens (packedVars 64) 1 (packedInteger 64) (packedInteger 128) = true ∧
      ∀ j v, (packedVars 64)[j]? = some v → j ≠ 1 →
        ∀ byte, 4 ≤ byte → byte < 20 → ¬ v.Holds byte := by
  have hvars : LaidOut (packedVars 64) := .of_ordered (by decide +kernel) (by decide +kernel)
    (by decide +kernel) (by decide +kernel)
  have hwidens : widens (packedVars 64) 1 (packedInteger 64) (packedInteger 128) = true := by
    decide +kernel
  refine ⟨hvars, hwidens, ?_⟩
  obtain ⟨bits, first, hbits, hfirst, -, -, hfree⟩ := widens_keeps_apart hvars rfl hwidens
  obtain rfl : bits = 128 := by
    rw [show (packedInteger 128).type.integer? = some (false, 128) by decide +kernel] at hbits
    cases hbits
    rfl
  obtain rfl : first = 4 := by
    rw [show (packedInteger 64).position? = some 4 by decide +kernel] at hfirst
    cases hfirst
    rfl
  exact hfree

end UpgradeSafety.Compare
