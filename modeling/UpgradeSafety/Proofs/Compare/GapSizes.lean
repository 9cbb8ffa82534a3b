import UpgradeSafety.Proofs.Compare.TakenGap
import UpgradeSafety.Proofs.Json.Reading
import UpgradeSafety.Proofs.Numeral.Decimal

/-!
# The size that a resized gap is told to have

A gap is an array, and the compiler stores the elements of an array in whole slots, as many in a
slot as fit (`SizedGap`). When a resized gap ends at the wrong byte, the size that would end right
is the room that is left, divided by the size of an element; and that one is found from the gap, as
its number of bytes divided by its length. Where several elements share a slot and the last slot is
not full, this is more than the size of an element, and the size that is told may be too small.

* `replaced_gap`: following the advice fixes the upgrade just when as many elements as are told
  take all slots that are left, and otherwise the gap is an error again.
-/

namespace UpgradeSafety.Compare

/-- How many elements of `s` bytes a slot holds. -/
def perSlot (s : Nat) : Nat := 32 / s

/-- How many slots an array of `n` elements of `s` bytes takes. -/
def slotsFor (s n : Nat) : Nat := (n + perSlot s - 1) / perSlot s

/-- A gap of `n` elements of `s` bytes at the start of a slot, with the size of the compiler's. -/
structure SizedGap (s n : Nat) (slot : Int) (v : Variable) : Prop where
  isGap : v.isGap = true
  slot : v.item.slot = some slot
  offset : v.item.offset.getD 0 = 0
  length : v.type.fixedLength? = some n
  size : v.size = 32 * (slotsFor s n : Int)

variable {s a m n : Nat} {i j : Int} {o u w v : Variable}

namespace SizedGap

theorem position?_eq (h : SizedGap s n j v) : v.position? = some (32 * j) := by
  rw [Variable.position?, h.slot, Option.map_some, h.offset, Int.add_zero, Int.mul_comm]

theorem end?_eq (h : SizedGap s n j v) : v.end? = some (32 * (j + slotsFor s n)) := by
  rw [Variable.end?, h.position?_eq, Option.map_some, h.size, Int.mul_add]

/-- The size of an element, as the advice takes it. -/
theorem elementSize_eq (h : SizedGap s n j v) :
    elementSize v = ((if n = 0 then 32 else 32 * slotsFor s n / n : Nat) : Int) := by
  unfold elementSize
  rw [h.length]
  cases n with
  | zero => rfl
  | succ n =>
    rw [if_neg (Nat.succ_ne_zero n), h.size]
    dsimp only
    rw [Int.fdiv_eq_ediv_of_nonneg _ (by omega)]
    rfl

end SizedGap

/-- An array takes so many slots when it needs all of them and has room in them. -/
theorem slotsFor_eq_iff (hs : 1 ≤ s ∧ s ≤ 32) {k : Nat} :
    slotsFor s n = k ↔ perSlot s * k < n + perSlot s ∧ n ≤ perSlot s * k := by
  have hpos : 0 < perSlot s := Nat.div_pos hs.2 hs.1
  rw [slotsFor, Nat.div_eq_iff hpos, Nat.mul_comm k]
  omega

/-- The advice for a gap that was resized, by the slots that are left for it. -/
theorem fitting_eq (ho : SizedGap s a i o) (hu : SizedGap s m j u)
    (h : judgeResizedGap o u = .ok ⟨.resizeGap o u (some n), false, none⟩) :
    ∃ k : Nat, 0 < k ∧ i + slotsFor s a = j + k ∧
      n = 32 * k / (if m = 0 then 32 else 32 * slotsFor s m / m) := by
  rw [judgeResizedGap_eq ho.end?_eq hu.end?_eq hu.position?_eq] at h
  split at h
  · cases h
  · split at h
    · rename_i hlt
      obtain ⟨k, hk⟩ := Int.eq_ofNat_of_zero_le (show 0 ≤ i + slotsFor s a - j by omega)
      have hroom : 32 * (i + slotsFor s a) - 32 * j = ((32 * k : Nat) : Int) := by omega
      refine ⟨k, by omega, by omega, ?_⟩
      split at h
      · cases h
      · split at h
        · simp only [Except.ok.injEq, Operation.mk.injEq, Change.resizeGap.injEq,
            Option.some.injEq, true_and, and_true] at h
          rw [hroom, hu.elementSize_eq, Int.fdiv_eq_ediv_of_nonneg _ (Int.natCast_nonneg _)] at h
          exact_mod_cast h.symm
        · cases h
    · cases h

/-- Where elements take whole slots, or fill the slots of the gap, the advice is right. -/
theorem slotsFor_fitting (hs : 1 ≤ s ∧ s ≤ 32) {k : Nat}
    (hfull : 16 < s ∨ m ≠ 0 ∧ s * m = 32 * slotsFor s m) :
    slotsFor s (32 * k / (if m = 0 then 32 else 32 * slotsFor s m / m)) = k := by
  obtain ⟨hs1, hs32⟩ := hs
  rcases hfull with hs16 | ⟨hm, hfull⟩
  · have hper : perSlot s = 1 := by
      rw [perSlot]
      exact Nat.div_eq_of_lt_le (by omega) (by omega)
    have hslots (n : Nat) : slotsFor s n = n := by simp [slotsFor, hper]
    rw [hslots, hslots]
    by_cases hm : m = 0
    · rw [if_pos hm]
      omega
    · rw [if_neg hm, Nat.mul_div_cancel _ (Nat.pos_of_ne_zero hm)]
      omega
  · rw [if_neg hm, ← hfull, Nat.mul_div_cancel _ (Nat.pos_of_ne_zero hm)]
    -- only a size that divides a slot fills one
    have hpos : 0 < slotsFor s m := by
      by_contra hzero
      rw [Nat.eq_zero_of_not_pos hzero, Nat.mul_zero] at hfull
      exact hm ((Nat.mul_eq_zero.mp hfull).resolve_left (by omega))
    have hdivides : s * perSlot s = 32 := by
      refine Nat.le_antisymm (Nat.mul_div_le 32 s) (Nat.le_of_mul_le_mul_right ?_ hpos)
      calc
        32 * slotsFor s m = s * m := hfull.symm
        _ ≤ s * (perSlot s * slotsFor s m) :=
          Nat.mul_le_mul_left s ((slotsFor_eq_iff ⟨hs1, hs32⟩).mp rfl).2
        _ = s * perSlot s * slotsFor s m := (Nat.mul_assoc ..).symm
    rw [slotsFor_eq_iff ⟨hs1, hs32⟩, ← hdivides, Nat.mul_assoc, Nat.mul_div_cancel_left _ hs1]
    have hper : 0 < perSlot s := Nat.div_pos hs32 hs1
    omega

/-- What is made of a gap at the end of the room of a former one, or elsewhere. -/
theorem variableChange_sizedGap (ho : SizedGap s a i o) (hw : SizedGap s n j w)
    (helement : sameGapElement o.type w.type = true)
    (typeChange : Except Obstacle (Option TypeChange)) (siblings : List Variable) (index : Nat) :
    (w.end? = o.end? →
      variableChange typeChange siblings index o w = .ok none ∨
        variableChange typeChange siblings index o w = .ok (some (.resizeGap o w none)) ∧
        judgeResizedGap o w = .ok ⟨.resizeGap o w none, true, none⟩) ∧
    (w.end? ≠ o.end? →
      variableChange typeChange siblings index o w = .ok (some (.resizeGap o w none)) ∧
      ∀ op, judgeResizedGap o w = .ok op → op.note = false) := by
  have hchange : variableChange typeChange siblings index o w =
      if o.position? == w.position? && o.type.length? == w.type.length? then .ok none
      else .ok (some (.resizeGap o w none)) := by
    rw [variableChange, ho.isGap, hw.isGap, helement]
    rfl
  rw [hchange]
  constructor
  · intro hends
    split
    · exact Or.inl rfl
    · refine Or.inr ⟨rfl, ?_⟩
      rw [judgeResizedGap_eq ho.end?_eq hw.end?_eq hw.position?_eq, if_pos]
      rw [ho.end?_eq, hw.end?_eq] at hends
      exact (Option.some.inj hends).symm
  · intro hends
    constructor
    · rw [if_neg]
      intro hsame
      rw [Bool.and_eq_true, beq_iff_eq, beq_iff_eq, ho.position?_eq, hw.position?_eq] at hsame
      have hlength : some a = some n := by
        rw [← ho.length, ← hw.length, TypeNode.fixedLength?, TypeNode.fixedLength?, hsame.2]
      cases hlength
      rw [ho.end?_eq, hw.end?_eq] at hends
      have := Option.some.inj hsame.1
      exact hends (congrArg some (by omega))
    · intro op hop
      obtain ⟨_, note, rfl, hnote⟩ := judgeResizedGap_eq_ok hop
      by_contra hne
      obtain ⟨stop, hstop, hstop'⟩ := hnote (Bool.not_eq_false _ ▸ hne)
      exact hends (hstop'.trans hstop.symm)

/-- Two gaps of elements of `s` bytes at the starts of slots, the second of which is told to have the
length `n`. There are `k` slots from its start to the end of the first, and a gap of `n` elements in its
place ends there just when it takes all of these slots. Then the pair is unchanged or a note, and
otherwise it is an error again. The advice is right where every element takes a slot of its own and
where the elements of the second gap fill its slots. -/
theorem replaced_gap (hs : 1 ≤ s ∧ s ≤ 32) (ho : SizedGap s a i o) (hu : SizedGap s m j u)
    (h : judgeResizedGap o u = .ok ⟨.resizeGap o u (some n), false, none⟩)
    (hw : SizedGap s n j w) (helement : sameGapElement o.type w.type = true) :
    ∃ k : Nat, 0 < k ∧ o.end? = some (32 * (j + k)) ∧
      n = 32 * k / (if m = 0 then 32 else 32 * slotsFor s m / m) ∧
      (w.end? = o.end? ↔ perSlot s * k < n + perSlot s ∧ n ≤ perSlot s * k) ∧
      (16 < s ∨ m ≠ 0 ∧ s * m = 32 * slotsFor s m → w.end? = o.end?) ∧
      ∀ (typeChange : Except Obstacle (Option TypeChange)) siblings index,
        (w.end? = o.end? →
          variableChange typeChange siblings index o w = .ok none ∨
            variableChange typeChange siblings index o w = .ok (some (.resizeGap o w none)) ∧
            judgeResizedGap o w = .ok ⟨.resizeGap o w none, true, none⟩) ∧
        (w.end? ≠ o.end? →
          variableChange typeChange siblings index o w = .ok (some (.resizeGap o w none)) ∧
          ∀ op, judgeResizedGap o w = .ok op → op.note = false) := by
  obtain ⟨k, hk, hend, hn⟩ := fitting_eq ho hu h
  have hends : w.end? = o.end? ↔ slotsFor s n = k := by
    rw [hw.end?_eq, ho.end?_eq, hend, Option.some.injEq]
    omega
  refine ⟨k, hk, by rw [ho.end?_eq, hend], hn, hends.trans (slotsFor_eq_iff hs), ?_,
    variableChange_sizedGap ho hw helement⟩
  intro hfull
  rw [hends, hn]
  exact slotsFor_fitting hs hfull

/-! ## Gaps as the compiler lays them out -/

theorem decimalDigit?_of_isDigit {c : Char} (h : c.isDigit = true) :
    Text.decimalDigit? c = some (c.toNat - 0x30) := by
  have hrange := Numeral.isDigit_iff.mp h
  rw [Text.decimalDigit?, if_pos (by omega), if_pos h]

theorem digitsNumber_eq_ofDigitChars {ds : List Char} (h : ∀ c ∈ ds, c.isDigit = true) :
    TypeId.digitsNumber ds = Nat.ofDigitChars 10 ds 0 := by
  unfold TypeId.digitsNumber Nat.ofDigitChars
  refine List.foldl_ext _ _ _ fun n c hc => ?_
  rw [decimalDigit?_of_isDigit (h c hc), Nat.mul_comm]
  rfl

/-- The length of a stored array is that in its type id. -/
theorem lengthOfTail?_storage (n : Nat) :
    TypeId.lengthOfTail? s!"{n}_storage".toList = some (.fixed n) := by
  have hdigits : ∀ c ∈ Nat.toDigits 10 n, c.isDigit = true := fun c => Numeral.isDigit_of_mem_decimal
  have htake : s!"{n}_storage".toList.takeWhile Text.isDecimalDigit = Nat.toDigits 10 n := by
    have htail : s!"{n}_storage".toList = Nat.toDigits 10 n ++ "_storage".toList := by
      simp [toString, Nat.repr]
    have hrest : "_storage".toList.takeWhile Text.isDecimalDigit = [] := by decide +kernel
    rw [htail, List.takeWhile_append_of_pos fun c hc => ?_, hrest, List.append_nil]
    rw [Text.isDecimalDigit, decimalDigit?_of_isDigit (hdigits c hc)]
    rfl
  unfold TypeId.lengthOfTail?
  rw [htake]
  split
  · rename_i hnil
    exact absurd hnil Nat.toDigits_ne_nil
  · rw [digitsNumber_eq_ofDigitChars hdigits, Nat.ofDigitChars_toDigits (by decide) (by decide)]

/-- A gap of unsigned integers of so many bits at the start of a slot. -/
def gapOf (bits length : Nat) (slot : Int) : Variable where
  item := {
    label := "__gap"
    type := s!"t_array(t_uint{bits}){length}_storage"
    slot := some slot
    offset := some 0 }
  type := {
    id := s!"t_array(t_uint{bits}){length}_storage"
    head := "t_array"
    tail := some s!"{length}_storage"
    label := s!"uint{bits}[{length}]"
    numberOfBytes := some (32 * (slotsFor (bits / 8) length : Int))
    args := some [s!"t_uint{bits}"] }

theorem sameGapElement_gapOf (bits : Nat) :
    sameGapElement (gapOf bits a i).type (gapOf bits n j).type = true := beq_self_eq_true _

theorem sizedGap_gapOf (bits n : Nat) (slot : Int) : SizedGap (bits / 8) n slot (gapOf bits n slot) := by
  have hfixed : (gapOf bits n slot).type.fixedLength? = some n := by
    change (TypeId.lengthOf? "t_array" (some s!"{n}_storage")).bind TypeId.Length.fixed? = some n
    rw [TypeId.lengthOf?, if_pos rfl, Option.bind_some, lengthOfTail?_storage]
    rfl
  have hlooks : (gapOf bits n slot).looksLikeGap = true := by
    change (true && TypeId.kindOfHead "t_array" == .array) = true
    decide +kernel
  refine ⟨?_, rfl, rfl, hfixed, rfl⟩
  rw [Variable.isGap, hlooks, hfixed]
  rfl

theorem judgeResizedGap_sizedGap (ho : SizedGap s a i o) (hu : SizedGap s m j u)
    (hbehind : j < i + slotsFor s a) (hends : i + slotsFor s a ≠ j + slotsFor s m)
    (hfitting : (32 * (i + slotsFor s a) - 32 * j).fdiv (elementSize u) = n)
    (hsize : elementSize u ≠ 0) (hn : n < 100) :
    judgeResizedGap o u = .ok ⟨.resizeGap o u (some n), false, none⟩ := by
  rw [judgeResizedGap_eq ho.end?_eq hu.end?_eq hu.position?_eq, if_neg (by omega), if_pos (by omega),
    if_neg hsize, hfitting, if_pos (Json.isWritable_of_lt (k := 2) (by decide) (by omega))]

/-- Elements of a slot each, of half a slot and of a byte, where those of the updated gap fill its slots. -/
theorem replaced_gap_filled :
    (judgeResizedGap (gapOf 256 5 0) (gapOf 256 2 1) =
        .ok ⟨.resizeGap (gapOf 256 5 0) (gapOf 256 2 1) (some 4), false, none⟩ ∧
      (gapOf 256 4 1).end? = (gapOf 256 5 0).end?) ∧
    (judgeResizedGap (gapOf 128 5 0) (gapOf 128 2 1) =
        .ok ⟨.resizeGap (gapOf 128 5 0) (gapOf 128 2 1) (some 4), false, none⟩ ∧
      (gapOf 128 4 1).end? = (gapOf 128 5 0).end?) ∧
    judgeResizedGap (gapOf 8 40 0) (gapOf 8 32 0) =
        .ok ⟨.resizeGap (gapOf 8 40 0) (gapOf 8 32 0) (some 64), false, none⟩ ∧
      (gapOf 8 64 0).end? = (gapOf 8 40 0).end? := by
  have hwords := judgeResizedGap_sizedGap (n := 4) (sizedGap_gapOf 256 5 0) (sizedGap_gapOf 256 2 1)
    (by decide) (by decide) (by decide +kernel) (by decide +kernel) (by decide)
  have hhalves := judgeResizedGap_sizedGap (n := 4) (sizedGap_gapOf 128 5 0) (sizedGap_gapOf 128 2 1)
    (by decide) (by decide) (by decide +kernel) (by decide +kernel) (by decide)
  have hbytes := judgeResizedGap_sizedGap (n := 64) (sizedGap_gapOf 8 40 0) (sizedGap_gapOf 8 32 0)
    (by decide) (by decide) (by decide +kernel) (by decide +kernel) (by decide)
  refine ⟨⟨hwords, ?_⟩, ⟨hhalves, ?_⟩, hbytes, ?_⟩
  · obtain ⟨k, -, -, -, -, hright, -⟩ := replaced_gap (by decide) (sizedGap_gapOf 256 5 0)
      (sizedGap_gapOf 256 2 1) hwords (sizedGap_gapOf 256 4 1) (sameGapElement_gapOf 256)
    exact hright (Or.inl (by decide))
  · obtain ⟨k, -, -, -, -, hright, -⟩ := replaced_gap (by decide) (sizedGap_gapOf 128 5 0)
      (sizedGap_gapOf 128 2 1) hhalves (sizedGap_gapOf 128 4 1) (sameGapElement_gapOf 128)
    exact hright (Or.inr (by decide))
  · obtain ⟨k, -, -, -, -, hright, -⟩ := replaced_gap (by decide) (sizedGap_gapOf 8 40 0)
      (sizedGap_gapOf 8 32 0) hbytes (sizedGap_gapOf 8 64 0) (sameGapElement_gapOf 8)
    exact hright (Or.inr (by decide))

/-- Sixty-four bytes take two slots. In the place of their gap there is one of five bytes, a slot, which
is told to have the length ten. A gap of ten bytes takes a slot as well, and is told to have the length
twenty-one. -/
theorem replaced_gap_bytes :
    ∃ o u w : Variable, SizedGap 1 64 0 o ∧ SizedGap 1 5 0 u ∧ SizedGap 1 10 0 w ∧
      sameGapElement o.type w.type = true ∧
      judgeResizedGap o u = .ok ⟨.resizeGap o u (some 10), false, none⟩ ∧
      judgeResizedGap o w = .ok ⟨.resizeGap o w (some 21), false, none⟩ := by
  refine ⟨gapOf 8 64 0, gapOf 8 5 0, gapOf 8 10 0, sizedGap_gapOf 8 64 0, sizedGap_gapOf 8 5 0,
    sizedGap_gapOf 8 10 0, sameGapElement_gapOf 8, ?_, ?_⟩
  · exact judgeResizedGap_sizedGap (sizedGap_gapOf 8 64 0) (sizedGap_gapOf 8 5 0) (by decide)
      (by decide) (by decide +kernel) (by decide +kernel) (by decide)
  · exact judgeResizedGap_sizedGap (sizedGap_gapOf 8 64 0) (sizedGap_gapOf 8 10 0) (by decide)
      (by decide) (by decide +kernel) (by decide +kernel) (by decide)

end UpgradeSafety.Compare
