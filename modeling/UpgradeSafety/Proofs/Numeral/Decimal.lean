import Mathlib
import UpgradeSafety.Numeral.Integer

/-!
# Decimal texts of integers

An integer is written with its sign and its decimal digits. The reader of written integers gives it
back (`readInteger_toString`), in base ten as well as when the base is left open: no number but
zero begins with a zero, so the digits are never taken for a base mark or for superfluous zeros.

The reader accepts much more than is ever written: blanks around the number, digits of other
scripts, underscores between digits, and marks for other bases. So most lemmas say of one stage
that it passes the text of an integer on unchanged: no character of it stands for another one and
none is blank (`plain_toString`), the sign is taken off (`readSign_toString`), there is no base
mark (`baseMark_decimal`), and the digits are read to their end (`readDigits_decimal`). An integer
whose digits are more than are read is refused, hence the bound on the number.
-/

namespace UpgradeSafety.Numeral

open Text

/-! ## Digits -/

theorem isDigit_iff {c : Char} : c.isDigit = true ↔ 0x30 ≤ c.toNat ∧ c.toNat ≤ 0x39 := by
  simp only [Char.isDigit, Bool.and_eq_true, decide_eq_true_eq, ge_iff_le, UInt32.le_iff_toNat_le]
  exact Iff.rfl

theorem isDigit_of_mem_decimal {n : Nat} {c : Char} (h : c ∈ Nat.toDigits 10 n) :
    c.isDigit = true :=
  Nat.isDigit_of_mem_toDigits (by decide) (by decide) h

/-- Only zero is written with a zero in front. -/
theorem eq_zero_of_decimal {n : Nat} {cs : List Char} (h : Nat.toDigits 10 n = '0' :: cs) :
    n = 0 ∧ cs = [] := by
  induction n using Nat.strongRecOn generalizing cs with
  | ind n ih =>
    by_cases hn : n < 10
    · rw [Nat.toDigits_of_lt_base hn] at h
      obtain ⟨hzero, hcs⟩ := List.cons.inj h
      exact ⟨Nat.digitChar_eq_zero.mp hzero, hcs.symm⟩
    · rw [Nat.toDigits_of_base_le (by decide) (by omega)] at h
      obtain ⟨d, ds, hds⟩ := List.exists_cons_of_ne_nil (Nat.toDigits_ne_nil (b := 10) (n := n / 10))
      rw [hds] at h
      obtain ⟨rfl, -⟩ := List.cons.inj h
      have := (ih (n / 10) (by omega) hds).1
      omega

theorem takeWhile_digits {ds rest : List Char} (hds : ∀ c ∈ ds, c.isDigit = true)
    (hrest : ∀ c ∈ rest.head?, c.isDigit = false) :
    (ds ++ rest).takeWhile Char.isDigit = ds ∧ (ds ++ rest).dropWhile Char.isDigit = rest := by
  induction ds with
  | nil =>
    cases rest with
    | nil => exact ⟨rfl, rfl⟩
    | cons c cs => simp [hrest c rfl]
  | cons d ds ih =>
    have hd := hds d List.mem_cons_self
    have := ih fun c hc => hds c (List.mem_cons_of_mem d hc)
    simp [hd, this]

/-- The decimal text of an integer. -/
theorem toList_toString (n : Int) :
    (toString n).toList = (if n < 0 then ['-'] else []) ++ Nat.toDigits 10 n.natAbs := by
  rw [show toString n = n.repr from rfl]
  cases n with
  | ofNat m => simp [Int.repr]
  | negSucc m => simp [Int.repr, Int.negSucc_lt_zero]

theorem length_toDigits_of_lt {n k : Nat} (hk : 0 < k) (h : n < Nat.pow 10 k) :
    (Nat.toDigits 10 n).length ≤ k :=
  (Nat.length_toDigits_le_iff (by decide) hk).mpr h

theorem length_decimal_le {n : Int} (h : isWritable n = true) :
    (Nat.toDigits 10 n.natAbs).length ≤ maxDecimalDigits :=
  length_toDigits_of_lt (by decide) (of_decide_eq_true h)

/-! ## Reading -/

theorem plainChar_of_ascii {c : Char} (h : c.toNat < 0x7f) : plainChar c = c := by
  simp [plainChar, h]

theorem isAsciiBlank_of_isDigit {c : Char} (h : c.isDigit = true) : isAsciiBlank c = false := by
  obtain ⟨hlow, hhigh⟩ := isDigit_iff.mp h
  have hspace : c ≠ ' ' := fun hc => by simp [hc] at hlow
  simp only [isAsciiBlank, Bool.or_eq_false_iff, beq_eq_false_iff_ne, Bool.and_eq_false_iff,
    decide_eq_false_iff_not]
  exact ⟨hspace, .inr (by omega)⟩

/-- Decimal digits are read to their end. -/
theorem readDigits_decimal {ds : List Char} (hds : ∀ c ∈ ds, c.isDigit = true) (value count : Nat)
    (hne : ds ≠ []) (after : Bool) :
    readDigits 10 value count after ds =
      some (Nat.ofDigitChars 10 ds value, count + ds.length, []) := by
  induction ds generalizing value count after with
  | nil => exact absurd rfl hne
  | cons d ds ih =>
    have hd := hds d List.mem_cons_self
    have hrange := isDigit_iff.mp hd
    have hunderscore : d ≠ '_' := fun h => by simp [h] at hd
    have hvalue : digitValue? d = some (d.toNat - 0x30) := by simp [digitValue?, hd]
    rw [readDigits.eq_def]
    split
    · rename_i hnil
      cases hnil
    · rename_i h
      exact absurd (List.cons.inj h).1 hunderscore
    · rename_i c cs _ h
      obtain ⟨rfl, rfl⟩ := List.cons.inj h
      simp only [hvalue]
      rw [if_pos (by omega), Nat.ofDigitChars_cons]
      cases ds with
      | nil => simp [readDigits, Nat.mul_comm]
      | cons e es =>
        rw [ih (fun c hc => hds c (List.mem_cons_of_mem d hc)) _ _ (by simp) true]
        simp [Nat.mul_comm, Nat.add_comm, Nat.add_left_comm]

/-- The text of an integer has no characters that stand for others, and no blanks in front. -/
theorem plain_toString (n : Int) :
    ((toString n).toList.map plainChar).dropWhile isAsciiBlank = (toString n).toList := by
  have hmap : (toString n).toList.map plainChar = (toString n).toList := by
    refine (List.map_congr_left fun c hc => plainChar_of_ascii ?_).trans (List.map_id' _)
    rw [toList_toString, List.mem_append] at hc
    rcases hc with hc | hc
    · split at hc
      · rw [List.mem_singleton.mp hc]
        decide
      · cases hc
    · have := isDigit_iff.mp (isDigit_of_mem_decimal hc)
      omega
  rw [hmap, toList_toString]
  split
  · rfl
  · obtain ⟨d, ds, hds⟩ := List.exists_cons_of_ne_nil (Nat.toDigits_ne_nil (b := 10) (n := n.natAbs))
    have hd : d.isDigit = true := isDigit_of_mem_decimal (hds ▸ List.mem_cons_self)
    simp [hds, isAsciiBlank_of_isDigit hd]

theorem readSign_toString (n : Int) :
    readSign (toString n).toList = (decide (n < 0), Nat.toDigits 10 n.natAbs) := by
  rw [toList_toString]
  split
  · rename_i hneg
    simp [readSign, hneg]
  · rename_i hneg
    obtain ⟨d, ds, hds⟩ := List.exists_cons_of_ne_nil (Nat.toDigits_ne_nil (b := 10) (n := n.natAbs))
    have hd : d.isDigit = true := isDigit_of_mem_decimal (hds ▸ List.mem_cons_self)
    have hminus : d ≠ '-' := fun hc => by simp [hc] at hd
    have hplus : d ≠ '+' := fun hc => by simp [hc] at hd
    simp [hds, readSign, hneg, hminus, hplus]

/-- Decimal digits have no base mark, and demand a zero only of zero itself. -/
theorem baseMark_decimal {base : Base} (hbase : base = .asMarked ∨ base = .ten) (n : Nat) :
    ∃ zeroOnly, baseMark base (Nat.toDigits 10 n) = (10, Nat.toDigits 10 n, zeroOnly) ∧
      (zeroOnly = true → n = 0) := by
  rcases hbase with rfl | rfl
  · obtain ⟨d, ds, hds⟩ := List.exists_cons_of_ne_nil (Nat.toDigits_ne_nil (b := 10) (n := n))
    rw [hds]
    by_cases hzero : d = '0'
    · subst hzero
      obtain ⟨hn, rfl⟩ := eq_zero_of_decimal hds
      exact ⟨true, rfl, fun _ => hn⟩
    · exact ⟨false, by simp [baseMark, hzero], nofun⟩
  · exact ⟨false, rfl, nofun⟩

/-- A written integer is read back. -/
theorem readInteger_toString {base : Base} (hbase : base = .asMarked ∨ base = .ten) {n : Int}
    (h : isWritable n = true) : readInteger base (toString n) = .ok n := by
  obtain ⟨zeroOnly, hmark, hzero⟩ := baseMark_decimal hbase n.natAbs
  have hread := readDigits_decimal (fun c hc => isDigit_of_mem_decimal hc) 0 0
    (Nat.toDigits_ne_nil (b := 10) (n := n.natAbs)) false
  have hlength : ¬ maxDecimalDigits < (Nat.toDigits 10 n.natAbs).length :=
    Nat.not_lt.mpr (length_decimal_le h)
  have hallowed : (zeroOnly && n.natAbs != 0) = false := by
    cases zeroOnly with
    | false => rfl
    | true => simp [hzero rfl]
  have hvalue : (if n < 0 then -(n.natAbs : Int) else n.natAbs) = n := by
    split <;> omega
  unfold readInteger
  simp only [plain_toString, readSign_toString, hmark, hread, Nat.zero_add, BEq.rfl, Bool.true_and,
    decide_eq_true_eq, hlength, if_false, Nat.ofDigitChars_ten_toDigits, hallowed, List.all_nil,
    if_true, hvalue, Bool.false_eq_true]

end UpgradeSafety.Numeral
