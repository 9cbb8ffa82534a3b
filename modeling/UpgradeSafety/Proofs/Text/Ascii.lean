import Mathlib
import UpgradeSafety.Proofs.Runs
import UpgradeSafety.Text.Lines
import UpgradeSafety.Text.Utf8

/-!
# ASCII texts

A text of ASCII characters has one byte for each of them in UTF-8, and reading these bytes gives
the text back (`decodeUtf8_utf8Bytes`). Without carriage returns its line breaks are what they are
on every system (`unifyBreaks_eq_self`).

Files hold bytes, and what is written into them is a text whose characters beyond ASCII are
escaped. So this is all that has to be known of the encoding to have written records back: the
decoder is the one for all of UTF-8, with its ranges for sequences of two to four bytes, but of
these only the first case is met, and a byte below 128 is the character of that number. That the
bytes of a text are those of its characters one after the other (`utf8Bytes_eq_flatMap`) is shown
from the representation of texts as arrays of bytes, by going through the loop that lists an array.
-/

namespace UpgradeSafety.Text

/-- An ASCII character that is no carriage return. -/
def IsPlain (c : Char) : Prop := c.toNat < 0x80 ∧ c ≠ '\r'

instance (c : Char) : Decidable (IsPlain c) := inferInstanceAs (Decidable (_ ∧ _))

theorem toList_loop_byteArray (bs : ByteArray) (i : Nat) (read : List UInt8) :
    ByteArray.toList.loop bs i read = read.reverse ++ bs.data.toList.drop i := by
  induction i, read using ByteArray.toList.loop.induct bs with
  | case1 i read hi ih =>
    have hlength : i < bs.data.toList.length := by rwa [Array.length_toList]
    have hget : bs.get! i = bs.data.toList[i] := by
      rw [ByteArray.get!, getElem!_pos bs.data i hi, Array.getElem_toList]
    rw [ByteArray.toList.loop, if_pos hi, ih, List.drop_eq_getElem_cons hlength, hget]
    simp
  | case2 i read hi =>
    have hlength : bs.data.toList.length ≤ i := by
      rw [Array.length_toList]
      exact Nat.le_of_not_lt hi
    rw [ByteArray.toList.loop, if_neg hi, List.drop_of_length_le hlength, List.append_nil]

theorem toList_byteArray (bs : ByteArray) : bs.toList = bs.data.toList := by
  rw [ByteArray.toList, toList_loop_byteArray]
  rfl

/-- The bytes of a text are those of its characters. -/
theorem utf8Bytes_eq_flatMap (s : String) :
    utf8Bytes s = s.toList.flatMap String.utf8EncodeChar := by
  rw [utf8Bytes, String.toUTF8_eq_toByteArray, ← String.utf8Encode_toList, toList_byteArray,
    List.utf8Encode, List.data_toByteArray]

theorem utf8EncodeChar_ascii {c : Char} (h : c.toNat < 0x80) :
    String.utf8EncodeChar c = [UInt8.ofNat c.toNat] := by
  rw [String.utf8EncodeChar]
  exact if_pos (by have : c.val.toNat = c.toNat := rfl; omega)

theorem readUtf8_ascii {cs : List Char} (h : ∀ c ∈ cs, c.toNat < 0x80) (fuel i : Nat)
    (hfuel : cs.length ≤ fuel) :
    readUtf8 fuel i (cs.flatMap String.utf8EncodeChar) = .ok cs := by
  induction cs generalizing fuel i with
  | nil => cases fuel <;> rfl
  | cons c cs ih =>
    obtain ⟨fuel, rfl⟩ : ∃ k, fuel = k + 1 := ⟨fuel - 1, by simp at hfuel; omega⟩
    have hc : c.toNat < 0x80 := h c List.mem_cons_self
    have hbyte : (UInt8.ofNat c.toNat).toNat = c.toNat := by
      rw [UInt8.toNat_ofNat']
      omega
    have hlength : sequenceLength? (UInt8.ofNat c.toNat) = some 1 := by
      rw [sequenceLength?, hbyte, if_pos hc]
    have hchar : charOfSequence (UInt8.ofNat c.toNat) [] = c := by
      simp only [charOfSequence, List.length_nil, List.foldl_nil, hbyte, Char.ofNat_toNat]
    have hrest := ih (fun d hd => h d (List.mem_cons_of_mem c hd)) fuel (i + 1)
      (by simpa using hfuel)
    rw [List.flatMap_cons, utf8EncodeChar_ascii hc, List.singleton_append, readUtf8]
    simp only [hlength, Nat.sub_self, continued, List.take_zero, if_true, List.drop_zero, hrest,
      hchar, bind, Except.bind]
    rfl

/-- The bytes of an ASCII text are read back. -/
theorem decodeUtf8_utf8Bytes {s : String} (h : ∀ c ∈ s.toList, c.toNat < 0x80) :
    decodeUtf8 (utf8Bytes s) = .ok s := by
  have hlength := length_le_flatMap (fun c => String.utf8EncodeChar_ne_nil (c := c)) s.toList
  rw [decodeUtf8, utf8Bytes_eq_flatMap, readUtf8_ascii h _ _ hlength, Except.map,
    String.ofList_toList]

theorem unifyBreaks_eq_self {cs : List Char} (h : '\r' ∉ cs) : unifyBreaks cs = cs := by
  induction cs with
  | nil => rfl
  | cons c cs ih =>
    rw [List.mem_cons, not_or] at h
    have hc : c ≠ '\r' := fun hc => h.1 hc.symm
    rw [unifyBreaks.eq_3 _ _ (fun _ h _ => hc h) hc, ih h.2]

end UpgradeSafety.Text
