import Mathlib.Data.List.Chain
import UpgradeSafety.Layout.Placement
import UpgradeSafety.Proofs.Runs
import UpgradeSafety.Proofs.TypeId.Reading

/-!
# Places that were checked

Which bytes a variable takes, and what the check of places says about them. A list is *laid out*
when every variable has a slot and an offset in it, takes at least a byte, and the check passes
(`LaidOut`). Only neighbours are compared after sorting; still any two variables of the list are
apart (`LaidOut.apart`), wherever they start and however many slots they take. And a variable of at
most a slot stays in the slot in which it starts (`LaidOut.stop_le`).

Comparing neighbours is enough because of the order: once each variable ends before its neighbour
starts, ends and starts increase along the list, so that every variable ends before all later ones
start (`pairwise_of_sorted`). In the other direction, where two neighbours overlap they share the
first byte of the second one.

* `verify_iff`: where every size is positive, what the check accepts.
* `verify_perm`: the order in which variables are listed does not matter to the check.
-/

namespace UpgradeSafety

namespace Variable

/-- The first byte of a variable with a slot. -/
def start (v : Variable) : Int := v.item.slot.getD 0 * 32 + v.item.offset.getD 0

/-- The byte behind the last one. -/
def stop (v : Variable) : Int := v.start + v.size

/-- Whether a variable takes a byte. -/
def Holds (v : Variable) (byte : Int) : Prop :=
  ∃ first, v.position? = some first ∧ first ≤ byte ∧ byte < first + v.size

/-- A variable is placed when it has a slot and an offset in the slot. -/
structure IsPlaced (v : Variable) : Prop where
  slot : ∃ slot, v.item.slot = some slot
  offset : ∃ offset, v.item.offset = some offset ∧ 0 ≤ offset ∧ offset < 32

theorem isPlaced_iff {v : Variable} : v.IsPlaced ↔ v.item.slot.isSome = true ∧
    (v.item.offset.any fun offset => decide (0 ≤ offset ∧ offset < 32)) = true := by
  rw [Option.isSome_iff_exists, Option.any_eq_true_iff_get]
  constructor
  · rintro ⟨hslot, offset, hoffset, hin⟩
    exact ⟨hslot, by simp [hoffset], by simpa [hoffset] using hin⟩
  · rintro ⟨hslot, hsome, hin⟩
    exact ⟨hslot, _, Option.some_get hsome |>.symm, of_decide_eq_true hin⟩

instance (v : Variable) : Decidable v.IsPlaced := decidable_of_iff' _ isPlaced_iff

namespace IsPlaced

variable {v : Variable} (h : v.IsPlaced)
include h

theorem position?_eq : v.position? = some v.start := by
  obtain ⟨slot, hslot⟩ := h.slot
  rw [position?, start, hslot]
  rfl

theorem end?_eq : v.end? = some v.stop := by
  rw [end?, h.position?_eq]
  rfl

theorem holds_iff {byte : Int} : v.Holds byte ↔ v.start ≤ byte ∧ byte < v.stop := by
  simp [Holds, h.position?_eq, stop]

theorem placed?_eq :
    Placement.placed? v = some ⟨v, v.item.slot.getD 0, v.item.offset.getD 0⟩ := by
  obtain ⟨slot, hslot⟩ := h.slot
  obtain ⟨offset, hoffset, -⟩ := h.offset
  rw [Placement.placed?, hslot, hoffset]
  rfl

/-- A placed variable starts in its slot. -/
theorem start_bounds :
    v.item.slot.getD 0 * 32 ≤ v.start ∧ v.start < v.item.slot.getD 0 * 32 + 32 := by
  obtain ⟨offset, hoffset, h0, h32⟩ := h.offset
  rw [start, hoffset, Option.getD_some]
  omega

end IsPlaced

end Variable

namespace Placement

/-- One variable ends before the other one starts. -/
def Apart (p q : Placed) : Prop := p.stop ≤ q.start ∨ q.stop ≤ p.start

theorem Apart.symm {p q : Placed} (h : Apart p q) : Apart q p := Or.symm h

/-- The check of neighbours accepts a list in which every variable ends before the next one starts. -/
theorem isChain_of_checkNeighbours {l : List Placed} (h : checkNeighbours l = .ok ()) :
    l.IsChain fun p q => p.stop ≤ q.start := by
  fun_induction checkNeighbours l with
  | case1 => cases h
  | case2 p q rest hle ih => exact .cons_cons (Int.not_lt.mp hle) (ih h)
  | case3 l hshort =>
    match l, hshort with
    | [], _ => exact .nil
    | [p], _ => exact .singleton p
    | p :: q :: rest, hshort => exact absurd rfl (hshort p q rest)

/-- Variables of which no neighbours overlap are sorted by their first bytes. -/
theorem sorted_of_checkNeighbours {l : List Placed} (hsize : ∀ p ∈ l, 0 ≤ p.subject.size)
    (h : checkNeighbours l = .ok ()) : l.Pairwise fun p q => p.start ≤ q.start := by
  have : Trans (fun p q : Placed => p.start ≤ q.start) (fun p q : Placed => p.start ≤ q.start)
      fun p q : Placed => p.start ≤ q.start := ⟨Int.le_trans⟩
  refine List.isChain_iff_pairwise.mp ((isChain_of_checkNeighbours h).imp_of_mem_imp ?_)
  intro p q hp _ hpq
  have hp := hsize p hp
  rw [Placed.stop] at hpq
  omega

variable {vars : List Variable}

/-- The parts of a check that passes. -/
theorem check_of_verify (h : verify vars = .ok ()) :
    (∀ p ∈ vars.filterMap placed?, p.crosses = false) ∧
      checkNeighbours ((vars.filterMap placed?).mergeSort fun p q => p.start ≤ q.start) = .ok () := by
  rw [verify] at h
  split at h
  · cases h
  · cases hcheck : check vars with
    | error e =>
      rw [hcheck] at h
      cases h
    | ok _ =>
      rw [check] at hcheck
      split at hcheck
      · cases hcheck
      · rename_i hnone
        exact ⟨fun p hp => Bool.eq_false_iff.mpr (List.find?_eq_none.mp hnone p hp), hcheck⟩

theorem subject_of_placed? {v : Variable} {p : Placed} (h : placed? v = some p) : p.subject = v := by
  rw [placed?] at h
  split at h
  · cases h
    rfl
  · cases h

/-! ## What the check decides -/

/-- Whether a variable with a slot and an offset takes a byte. -/
def Takes (v : Variable) (byte : Int) : Prop :=
  ∃ p, placed? v = some p ∧ p.start ≤ byte ∧ byte < p.stop

/-- Every variable with a slot and an offset stays in the slot, or takes whole slots, and no two of
them take the same byte. -/
structure Sound (vars : List Variable) : Prop where
  fits : ∀ v ∈ vars, ∀ slot offset, v.item.slot = some slot → v.item.offset = some offset →
    offset + min v.size 32 ≤ 32
  disjoint : vars.Pairwise fun v w => ∀ byte, ¬ (Takes v byte ∧ Takes w byte)

theorem placed?_eq_some_iff {v : Variable} {p : Placed} : placed? v = some p ↔
    v.item.slot = some p.slot ∧ v.item.offset = some p.offset ∧ p.subject = v := by
  rw [placed?]
  constructor
  · intro h
    split at h
    · rename_i hslot hoffset
      cases h
      exact ⟨hslot, hoffset, rfl⟩
    · cases h
  · rintro ⟨hslot, hoffset, rfl⟩
    rw [hslot, hoffset]

/-- Sorted variables no two neighbours of which overlap end before the later ones start, whatever
their sizes are. -/
theorem pairwise_of_sorted {l : List Placed} (hsorted : l.Pairwise fun p q => p.start ≤ q.start)
    (h : checkNeighbours l = .ok ()) : l.Pairwise fun p q => p.stop ≤ q.start := by
  refine List.pairwise_iff_getElem.mpr fun i j hi hj hij => ?_
  have hnext := List.isChain_iff_getElem.mp (isChain_of_checkNeighbours h) i (by omega)
  rcases Nat.lt_or_eq_of_le (Nat.succ_le_of_lt hij) with hlater | rfl
  · exact Int.le_trans hnext (List.pairwise_iff_getElem.mp hsorted (i + 1) j (by omega) hj hlater)
  · exact hnext

/-- Where two neighbours overlap, they share the byte at which the second starts. -/
theorem checkNeighbours_of_pairwise {l : List Placed}
    (hsorted : l.Pairwise fun p q => p.start ≤ q.start) (hsize : ∀ p ∈ l, 0 < p.subject.size)
    (h : l.Pairwise fun p q => ∀ byte, ¬ ((p.start ≤ byte ∧ byte < p.stop) ∧
      (q.start ≤ byte ∧ byte < q.stop))) : checkNeighbours l = .ok () := by
  induction l with
  | nil => rfl
  | cons p l ih =>
    cases l with
    | nil => rfl
    | cons q rest =>
      have hle := (List.pairwise_cons.mp hsorted).1 q List.mem_cons_self
      have happart := (List.pairwise_cons.mp h).1 q List.mem_cons_self q.start
      have hq := hsize q (List.mem_cons_of_mem p List.mem_cons_self)
      have hstop : ¬ q.start < p.stop := by
        intro hlt
        refine happart ⟨⟨hle, hlt⟩, Int.le_refl _, ?_⟩
        rw [Placed.stop]
        omega
      rw [checkNeighbours, if_neg hstop]
      exact ih (List.pairwise_cons.mp hsorted).2 (fun r hr => hsize r (List.mem_cons_of_mem p hr))
        (List.pairwise_cons.mp h).2

theorem excess?_eq_none_iff {l : List Placed} (h : ∀ p ∈ l, p.crosses = false) :
    excess? l = none ↔ ∀ p ∈ l, p.subject.sizeExcess? = none := by
  induction l with
  | nil => simp [excess?]
  | cons p l ih =>
    rw [List.forall_mem_cons] at h
    rw [List.forall_mem_cons, excess?, h.1, ← ih h.2]
    cases p.subject.sizeExcess? with
    | none => simp
    | some digits => simp

/-- Variables sorted by their first bytes. -/
theorem sorted_by_start (l : List Placed) :
    (l.mergeSort fun p q => p.start ≤ q.start).Pairwise fun p q => p.start ≤ q.start := by
  have htrans (p q r : Placed) (hpq : decide (p.start ≤ q.start) = true)
      (hqr : decide (q.start ≤ r.start) = true) : decide (p.start ≤ r.start) = true := by
    rw [decide_eq_true_eq] at *
    omega
  have htotal (p q : Placed) : (decide (p.start ≤ q.start) || decide (q.start ≤ p.start)) = true := by
    rw [Bool.or_eq_true, decide_eq_true_eq, decide_eq_true_eq]
    omega
  exact (List.pairwise_mergeSort htrans htotal l).imp of_decide_eq_true

/-- Where the check passes, the variables of a list with known places are apart. -/
theorem pairwise_apart_of_verify (h : verify vars = .ok ()) :
    vars.Pairwise fun v w => ∀ p, placed? v = some p → ∀ q, placed? w = some q → Apart p q := by
  have hperm := List.mergeSort_perm (vars.filterMap placed?) fun p q => decide (p.start ≤ q.start)
  have hsorted := pairwise_of_sorted (sorted_by_start _) (check_of_verify h).2
  have happart : (vars.filterMap placed?).Pairwise Apart :=
    (hperm.pairwise_iff fun h => Apart.symm h).mp (hsorted.imp Or.inl)
  exact List.pairwise_filterMap.mp happart

theorem sound_of_verify (h : verify vars = .ok ()) : Sound vars := by
  refine ⟨?_, ?_⟩
  · intro v hv slot offset hslot hoffset
    have hplaced : placed? v = some ⟨v, slot, offset⟩ :=
      placed?_eq_some_iff.mpr ⟨hslot, hoffset, rfl⟩
    have hfits := (check_of_verify h).1 _ (List.mem_filterMap.mpr ⟨v, hv, hplaced⟩)
    rw [Placed.crosses, decide_eq_false_iff_not] at hfits
    exact Int.not_lt.mp hfits
  · refine (pairwise_apart_of_verify h).imp fun {v w} hvw byte => ?_
    rintro ⟨⟨p, hp, hfirst, hlast⟩, q, hq, hfirst', hlast'⟩
    rcases hvw p hp q hq with hle | hle <;> omega

/-- Where every size is positive, the check passes just for the variables whose sizes can be read and
that stay in their slots and share no byte. -/
theorem verify_iff (hsize : ∀ v ∈ vars, 0 < v.size) : verify vars = .ok () ↔
    (∀ v ∈ vars, (placed? v).isSome → v.sizeExcess? = none) ∧ Sound vars := by
  have hreadable (hcrosses : ∀ p ∈ vars.filterMap placed?, p.crosses = false) :
      excess? (vars.filterMap placed?) = none ↔
        ∀ v ∈ vars, (placed? v).isSome → v.sizeExcess? = none := by
    rw [excess?_eq_none_iff hcrosses]
    constructor
    · intro h v hv hplaced
      obtain ⟨p, hp⟩ := Option.isSome_iff_exists.mp hplaced
      exact subject_of_placed? hp ▸ h p (List.mem_filterMap.mpr ⟨v, hv, hp⟩)
    · intro h p hp
      obtain ⟨v, hv, hvp⟩ := List.mem_filterMap.mp hp
      exact subject_of_placed? hvp ▸ h v hv (hvp ▸ rfl)
  constructor
  · intro h
    refine ⟨(hreadable (check_of_verify h).1).mp ?_, sound_of_verify h⟩
    rw [verify] at h
    split at h
    · cases h
    · assumption
  · rintro ⟨hlegible, hsound⟩
    have hcrosses : ∀ p ∈ vars.filterMap placed?, p.crosses = false := by
      intro p hp
      obtain ⟨v, hv, hvp⟩ := List.mem_filterMap.mp hp
      obtain ⟨hslot, hoffset, rfl⟩ := placed?_eq_some_iff.mp hvp
      rw [Placed.crosses, decide_eq_false_iff_not, Int.not_lt]
      exact hsound.fits _ hv _ _ hslot hoffset
    have hnone : (vars.filterMap placed?).find? Placed.crosses = none :=
      List.find?_eq_none.mpr fun p hp => Bool.eq_false_iff.mp (hcrosses p hp)
    have hperm := List.mergeSort_perm (vars.filterMap placed?) fun p q => decide (p.start ≤ q.start)
    have happart : (vars.filterMap placed?).Pairwise fun p q => ∀ byte,
        ¬ ((p.start ≤ byte ∧ byte < p.stop) ∧ (q.start ≤ byte ∧ byte < q.stop)) := by
      refine List.pairwise_filterMap.mpr (hsound.disjoint.imp fun {v w} hvw p hp q hq byte => ?_)
      rintro ⟨hpbyte, hqbyte⟩
      exact hvw byte ⟨⟨p, hp, hpbyte⟩, q, hq, hqbyte⟩
    have hneighbours := checkNeighbours_of_pairwise (sorted_by_start (vars.filterMap placed?))
      (fun p hp => by
        obtain ⟨v, hv, hvp⟩ := List.mem_filterMap.mp (hperm.mem_iff.mp hp)
        exact subject_of_placed? hvp ▸ hsize v hv)
      ((hperm.pairwise_iff fun h byte hboth => h byte hboth.symm).mpr happart)
    rw [verify, (hreadable hcrosses).mpr hlegible]
    dsimp only
    rw [check, hnone]
    dsimp only
    rw [hneighbours]
    rfl

/-- The type id of an array of words whose length is written with so many digits. -/
def longArrayId (digits : Nat) : String :=
  String.ofList ("t_array(t_uint256)".toList ++ List.replicate digits '1' ++ "_storage".toList)

/-- Such an array at the start of a slot. -/
def longArray (digits : Nat) : Variable where
  item := { label := "words", type := longArrayId digits, slot := some 0, offset := some 0 }
  type := {
    id := longArrayId digits
    head := "t_array"
    tail := some (String.ofList (List.replicate digits '1' ++ "_storage".toList))
    label := longArrayId digits
    args := some ["t_uint256"] }

theorem sizeExcess?_longArray {digits : Nat} (h : Numeral.maxDecimalDigits < digits) :
    (longArray digits).sizeExcess? = some digits :=
  TypeId.lengthExcess?_storage h

theorem le_digitsNumber (ds : List Char) (n : Nat) :
    n ≤ ds.foldl (fun n d => n * 10 + (Text.decimalDigit? d).getD 0) n := by
  induction ds generalizing n with
  | nil => exact Nat.le_refl n
  | cons d ds ih =>
    have hstep := ih (n * 10 + (Text.decimalDigit? d).getD 0)
    rw [List.foldl_cons]
    omega

theorem size_longArray {digits : Nat} (h : digits ≠ 0) : 0 < (longArray digits).size := by
  obtain ⟨k, rfl⟩ := Nat.exists_eq_succ_of_ne_zero h
  have hnumber : 1 ≤ TypeId.digitsNumber (List.replicate (k + 1) '1') :=
    le_digitsNumber (List.replicate k '1') 1
  have hlength : TypeId.lengthOfTail? (List.replicate (k + 1) '1' ++ "_storage".toList) =
      some (.fixed (TypeId.digitsNumber (List.replicate (k + 1) '1'))) := by
    rw [TypeId.lengthOfTail?, TypeId.takeWhile_storage]
    rfl
  have hfixed : (longArray (k + 1)).type.fixedLength? =
      some (TypeId.digitsNumber (List.replicate (k + 1) '1')) := by
    change (TypeId.lengthOf? "t_array" (some (String.ofList (List.replicate (k + 1) '1' ++
      "_storage".toList)))).bind TypeId.Length.fixed? = _
    rw [TypeId.lengthOf?, if_pos rfl, Option.bind_some, String.toList_ofList, hlength]
    rfl
  rw [Variable.size, hfixed]
  change (0 : Int) < 32 * _
  omega

theorem sound_longArray (digits : Nat) : Sound [longArray digits] := by
  refine ⟨?_, List.pairwise_singleton _ _⟩
  intro v hv slot offset _ hoffset
  obtain rfl := List.mem_singleton.mp hv
  cases hoffset
  omega

theorem verify_longArray {digits : Nat} (h : Numeral.maxDecimalDigits < digits) :
    verify [longArray digits] = .error (.unreadable digits) := by
  have hplaced : [longArray digits].filterMap placed? = [⟨longArray digits, 0, 0⟩] := rfl
  rw [verify, hplaced, excess?, sizeExcess?_longArray h]

/-- A variable whose size cannot be read is not accepted, though it stays in its slot and shares no
byte. -/
theorem verify_unreadable : 0 < (longArray 4301).size ∧ Sound [longArray 4301] ∧
    verify [longArray 4301] = .error (.unreadable 4301) :=
  ⟨size_longArray (by decide), sound_longArray 4301, verify_longArray (by decide)⟩

theorem Sound.perm {vars' : List Variable} (hperm : vars.Perm vars') (h : Sound vars) :
    Sound vars' where
  fits v hv := h.fits v (hperm.mem_iff.mpr hv)
  disjoint := (hperm.pairwise_iff fun h byte hboth => h byte hboth.symm).mp h.disjoint

/-- The order in which variables are listed does not matter to the check. -/
theorem verify_perm {vars' : List Variable} (hperm : vars.Perm vars')
    (hsize : ∀ v ∈ vars, 0 < v.size) : verify vars = .ok () ↔ verify vars' = .ok () := by
  rw [verify_iff hsize, verify_iff fun v hv => hsize v (hperm.mem_iff.mpr hv)]
  constructor
  · rintro ⟨hlegible, hsound⟩
    exact ⟨fun v hv => hlegible v (hperm.mem_iff.mpr hv), hsound.perm hperm⟩
  · rintro ⟨hlegible, hsound⟩
    exact ⟨fun v hv => hlegible v (hperm.mem_iff.mp hv), hsound.perm hperm.symm⟩

end Placement

/-- A list of variables with places, each of at least a byte, that passes the check. -/
structure LaidOut (vars : List Variable) : Prop where
  placed : ∀ v ∈ vars, v.IsPlaced
  sized : ∀ v ∈ vars, 0 < v.size
  verified : Placement.verify vars = .ok ()

namespace LaidOut

/-- Variables that are listed in the order of their places need not be sorted. -/
theorem of_ordered {vars : List Variable} (hplaced : ∀ v ∈ vars, v.IsPlaced ∧ 0 < v.size)
    (hreadable : Placement.excess? (vars.filterMap Placement.placed?) = none)
    (hcrosses : ∀ p ∈ vars.filterMap Placement.placed?, p.crosses = false)
    (hordered : (Placement.checkNeighbours (vars.filterMap Placement.placed?)).isOk = true) :
    LaidOut vars where
  placed v hv := (hplaced v hv).1
  sized v hv := (hplaced v hv).2
  verified := by
    have hsized : ∀ p ∈ vars.filterMap Placement.placed?, 0 ≤ p.subject.size := by
      intro p hp
      obtain ⟨v, hv, hvp⟩ := List.mem_filterMap.mp hp
      rw [Placement.subject_of_placed? hvp]
      exact Int.le_of_lt (hplaced v hv).2
    have hok : Placement.checkNeighbours (vars.filterMap Placement.placed?) = .ok () := by
      cases h : Placement.checkNeighbours (vars.filterMap Placement.placed?) with
      | ok _ => rfl
      | error e =>
        rw [h] at hordered
        cases hordered
    have hsorted : (vars.filterMap Placement.placed?).Pairwise fun p q =>
        decide (p.start ≤ q.start) = true :=
      (Placement.sorted_of_checkNeighbours hsized hok).imp decide_eq_true
    have hnone : (vars.filterMap Placement.placed?).find? Placement.Placed.crosses = none :=
      List.find?_eq_none.mpr fun p hp => Bool.eq_false_iff.mp (hcrosses p hp)
    rw [Placement.verify, hreadable]
    dsimp only
    rw [Placement.check, hnone]
    dsimp only
    rw [List.mergeSort_of_pairwise hsorted, hok]
    rfl

variable {vars : List Variable} {v w : Variable} (h : LaidOut vars)
include h

/-- Of two variables one ends before the other one starts. -/
theorem apart {i j : Nat} (hv : vars[i]? = some v) (hw : vars[j]? = some w) (hne : i ≠ j) :
    v.stop ≤ w.start ∨ w.stop ≤ v.start := by
  have hpairs := Placement.pairwise_apart_of_verify h.verified
  have hlt {i j : Nat} {v w : Variable} (hv : vars[i]? = some v) (hw : vars[j]? = some w)
      (hij : i < j) : v.stop ≤ w.start ∨ w.stop ≤ v.start := by
    obtain ⟨hi, rfl⟩ := List.getElem?_eq_some_iff.mp hv
    obtain ⟨hj, rfl⟩ := List.getElem?_eq_some_iff.mp hw
    exact List.pairwise_iff_getElem.mp hpairs i j hi hj hij
      _ (h.placed _ (List.getElem_mem hi)).placed?_eq
      _ (h.placed _ (List.getElem_mem hj)).placed?_eq
  rcases Nat.lt_or_gt_of_ne hne with hij | hji
  · exact hlt hv hw hij
  · exact (hlt hw hv hji).symm

/-- A variable of at most a slot ends in the slot in which it starts. -/
theorem stop_le (hv : v ∈ vars) (hsize : v.size ≤ 32) : v.stop ≤ v.item.slot.getD 0 * 32 + 32 := by
  have hcrosses := (Placement.check_of_verify h.verified).1 _
    (List.mem_filterMap.mpr ⟨v, hv, (h.placed v hv).placed?_eq⟩)
  rw [Placement.Placed.crosses, decide_eq_false_iff_not] at hcrosses
  rw [Variable.stop, Variable.start]
  change ¬ 32 < v.item.offset.getD 0 + min v.size 32 at hcrosses
  omega

end LaidOut

end UpgradeSafety
