import Mathlib
import UpgradeSafety.Json.Parser
import UpgradeSafety.Json.Printer
import UpgradeSafety.Proofs.Runs

/-!
# Written strings

A written string is read back, whatever stands behind it (`readString_writeString`). Each character
is written in one piece, and the reader takes one step for each piece: the character itself, an
escape of one letter, the escape of one UTF-16 unit, or the escapes of two for a character beyond
the basic plane.

So there is one lemma for a single character (`readString_writeChar`), with a case for each of the
four pieces, and the string is an induction over its characters. The reader has a number of steps
that are left; as a piece is never empty, a string takes no more steps than it has characters, and
the closing quote one more.

For the escapes the hexadecimal digits of a unit are read back as its number, and the two halves of
a character beyond the basic plane are put together again. A character is no surrogate itself, so
that the escape of a single unit is never taken for the first half of a pair.
-/

namespace UpgradeSafety.Json

open Text

/-! ## Hexadecimal digits -/

theorem hexValue?_hexDigit {n : Nat} (h : n < 16) : hexValue? (hexDigit n) = some n := by
  have : ∀ k : Fin 16, hexValue? (hexDigit k) = some k.val := by decide
  exact this ⟨n, h⟩

theorem readHex4_hexDigits {n : Nat} (h : n < 0x10000) {rest : List Char} (hrest : rest ≠ []) :
    readHex4 (hexDigits 4 n ++ rest) = some (n, rest) := by
  obtain ⟨c, cs, rfl⟩ := List.exists_cons_of_ne_nil hrest
  have hvalue : ∀ k, hexValue? (hexDigit (k % 16)) = some (k % 16) :=
    fun k => hexValue?_hexDigit (Nat.mod_lt k (by decide))
  simp only [hexDigits, List.nil_append, List.cons_append, readHex4, hvalue]
  simp only [Option.bind_eq_bind, Option.bind_some, Option.some.injEq, Prod.mk.injEq, and_true]
  omega

theorem readLowHalf_escapeUnit {low : Nat} (h : 0xdc00 ≤ low) (h' : low < 0xe000)
    {rest : List Char} (hrest : rest ≠ []) :
    readLowHalf (escapeUnit low ++ rest) = .ok (some (low, rest)) := by
  have hlength : ¬ (hexDigits 4 low ++ rest).length < 5 := by
    have := List.length_pos_iff.mpr hrest
    simp [hexDigits]
    omega
  simp only [escapeUnit, List.cons_append, readLowHalf, if_neg hlength,
    readHex4_hexDigits (by omega : low < 0x10000) hrest, h, h', decide_true, Bool.and_self, if_true]

/-! ## Characters -/

theorem toNat_lt_or_of_char (c : Char) :
    c.toNat < 0xd800 ∨ 0xdfff < c.toNat ∧ c.toNat < 0x110000 := c.valid

variable (start : List Char) (fuel : Nat) (read : List Char)

theorem readString_of_unit {c : Char} (h : c.toNat < 0x10000) {rest : List Char}
    (hrest : rest ≠ []) :
    readString start (fuel + 1) read (escapeUnit c.toNat ++ rest) =
      readString start fuel (c :: read) rest := by
  have hvalid := toNat_lt_or_of_char c
  have hhigh : (decide (0xd800 ≤ c.toNat) && decide (c.toNat < 0xdc00)) = false := by
    simp only [Bool.and_eq_false_iff, decide_eq_false_iff_not]
    omega
  have hlow : (decide (0xdc00 ≤ c.toNat) && decide (c.toNat < 0xe000)) = false := by
    simp only [Bool.and_eq_false_iff, decide_eq_false_iff_not]
    omega
  simp [escapeUnit, readString, readHex4_hexDigits h hrest, hhigh, hlow]

theorem readString_of_pair {c : Char} (h : 0x10000 ≤ c.toNat) {rest : List Char}
    (hrest : rest ≠ []) :
    readString start (fuel + 1) read
        (escapeUnit (0xd800 + (c.toNat - 0x10000) / 0x400) ++
          (escapeUnit (0xdc00 + (c.toNat - 0x10000) % 0x400) ++ rest)) =
      readString start fuel (c :: read) rest := by
  have hvalid := toNat_lt_or_of_char c
  have hrest' : escapeUnit (0xdc00 + (c.toNat - 0x10000) % 0x400) ++ rest ≠ [] := by
    simp [escapeUnit]
  have hlow : 0xdc00 ≤ 0xdc00 + (c.toNat - 0x10000) % 0x400 := by omega
  have hlow := readLowHalf_escapeUnit hlow (by omega) hrest
  have hhigh : 0xd800 + (c.toNat - 0x10000) / 0x400 < 0x10000 := by omega
  have hhigh := readHex4_hexDigits hhigh hrest'
  have hrange : (decide (0xd800 ≤ 0xd800 + (c.toNat - 0x10000) / 0x400) &&
      decide (0xd800 + (c.toNat - 0x10000) / 0x400 < 0xdc00)) = true := by
    simp only [Bool.and_eq_true, decide_eq_true_eq]
    omega
  have hcode : 0x10000 + (0xd800 + (c.toNat - 0x10000) / 0x400 - 0xd800) * 0x400 +
      (0xdc00 + (c.toNat - 0x10000) % 0x400 - 0xdc00) = c.toNat := by
    omega
  conv_lhs => rw [escapeUnit, List.cons_append, List.cons_append, readString]
  simp only [hhigh, hrange, if_true, hlow, hcode, Char.ofNat_toNat]

/-- One written character is read in one step. -/
theorem readString_writeChar (c : Char) {rest : List Char} (hrest : rest ≠ []) :
    readString start (fuel + 1) read (writeChar c ++ rest) =
      readString start fuel (c :: read) rest := by
  unfold writeChar
  split <;> try rfl
  rename_i _ hquote hbackslash _ _ _ _ _
  dsimp only
  split
  · rename_i hplain
    rw [Bool.and_eq_true, decide_eq_true_eq, decide_eq_true_eq] at hplain
    have hcontrol : ¬ c.toNat ≤ 0x1f := by omega
    rw [List.singleton_append, readString.eq_7 _ _ _ _ _ hquote (fun h => absurd h hbackslash)
      (fun _ h => absurd h hbackslash) (fun _ _ h => absurd h hbackslash), if_neg hcontrol]
  · split
    · exact readString_of_unit start fuel read ‹_› hrest
    · rw [List.append_assoc]
      exact readString_of_pair start fuel read (by omega) hrest

/-! ## Strings -/

theorem writeChar_ne_nil (c : Char) : writeChar c ≠ [] := by
  unfold writeChar
  split <;> try exact List.cons_ne_nil _ _
  dsimp only
  split
  · exact List.cons_ne_nil _ _
  · split <;> simp [escapeUnit]

/-- The characters of a written string are read up to the closing quote. -/
theorem readString_flatMap (cs rest : List Char) (hfuel : cs.length < fuel) :
    readString start fuel read (cs.flatMap writeChar ++ '"' :: rest) =
      .ok (String.ofList (read.reverse ++ cs), rest) := by
  induction cs generalizing fuel read with
  | nil =>
    obtain ⟨k, rfl⟩ := Nat.exists_eq_add_of_lt hfuel
    simp [readString]
  | cons c cs ih =>
    obtain ⟨k, rfl⟩ : ∃ k, fuel = k + 1 := ⟨fuel - 1, by simp at hfuel; omega⟩
    rw [List.flatMap_cons, List.append_assoc, readString_writeChar _ _ _ _ (by simp),
      ih _ _ (by simpa using hfuel)]
    simp

/-- A written string behind its opening quote. -/
theorem toList_writeString (s : String) (rest : List Char) :
    (writeString s).toList ++ rest = '"' :: (s.toList.flatMap writeChar ++ '"' :: rest) := by
  simp [writeString]

/-- A written string is read back. -/
theorem readString_writeString (s : String) (rest : List Char) :
    readString start ((s.toList.flatMap writeChar ++ '"' :: rest).length + 1) []
        (s.toList.flatMap writeChar ++ '"' :: rest) = .ok (s, rest) := by
  rw [readString_flatMap]
  · simp
  · have := length_le_flatMap writeChar_ne_nil s.toList
    simp only [List.length_append, List.length_cons]
    omega

end UpgradeSafety.Json
