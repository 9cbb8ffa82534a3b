import UpgradeSafety.Bytecode
import UpgradeSafety.Proofs.Numeral.Decimal

/-!
# Bytecode and its metadata

Digits write bytes, two for each (`WritesBytes`), and numbers (`hexNumber`), in upper and in lower
case. They are neither blanks nor signs nor marks of a base, so the readers take nothing but their
values.

Metadata is one map, written with the digits of its bytes and four digits of their number
(`Metadata.Writes`). The last four digits of a body tell where its metadata begins, if it has any,
so a body is split in one way only, and the text in front of the metadata may be of any kind.

* `bare_metadata`: bytecode is cut just when metadata stands at its end, and in front of it; so the
  hash without metadata is that of the text in front.
-/

namespace UpgradeSafety.Text

open Numeral

variable {c : Char} {n : Nat} {digits : List Char} {bytes : List UInt8}

/-- A character is a hexadecimal digit. -/
def IsHexDigit (c : Char) : Prop := ∃ n, hexNibble? c = some n

instance : DecidablePred IsHexDigit := fun c =>
  decidable_of_iff ((hexNibble? c).isSome = true) Option.isSome_iff_exists

theorem inRange_iff {low high : Char} :
    (low ≤ c && c ≤ high) = true ↔ low.toNat ≤ c.toNat ∧ c.toNat ≤ high.toNat := by
  rw [Bool.and_eq_true, decide_eq_true_eq, decide_eq_true_eq]
  exact Iff.rfl

/-- The digits and their codes. -/
theorem hexNibble?_eq_some_iff : hexNibble? c = some n ↔
    (0x30 ≤ c.toNat ∧ c.toNat ≤ 0x39 ∧ n = c.toNat - 0x30) ∨
    (0x61 ≤ c.toNat ∧ c.toNat ≤ 0x66 ∧ n = c.toNat - 0x61 + 10) ∨
    (0x41 ≤ c.toNat ∧ c.toNat ≤ 0x46 ∧ n = c.toNat - 0x41 + 10) := by
  unfold hexNibble?
  simp only [isDigit_iff, inRange_iff, Char.reduceToNat]
  split
  · rw [Option.some.injEq]
    omega
  · split
    · rw [Option.some.injEq]
      omega
    · split
      · rw [Option.some.injEq]
        omega
      · refine iff_of_false (by simp) ?_
        omega

theorem hexNibble?_lt (h : hexNibble? c = some n) : n < 16 := by
  have := hexNibble?_eq_some_iff.mp h
  omega

theorem digitValue?_of_hexNibble? (h : hexNibble? c = some n) : digitValue? c = some n := by
  have hrange := hexNibble?_eq_some_iff.mp h
  unfold digitValue?
  simp only [isDigit_iff, inRange_iff, Char.reduceToNat]
  split
  · rw [Option.some.injEq]
    omega
  · split
    · rw [Option.some.injEq]
      omega
    · rw [if_pos (by omega), Option.some.injEq]
      omega

/-- Digits are ASCII, and stand for themselves. -/
theorem IsHexDigit.plain (h : IsHexDigit c) : plainChar c = c := by
  obtain ⟨n, h⟩ := h
  refine plainChar_of_ascii ?_
  have := hexNibble?_eq_some_iff.mp h
  omega

theorem IsHexDigit.not_blank (h : IsHexDigit c) : isAsciiBlank c = false := by
  obtain ⟨n, h⟩ := h
  have hrange := hexNibble?_eq_some_iff.mp h
  have hspace : c ≠ ' ' := by
    rintro rfl
    cases h
  simp only [isAsciiBlank, Bool.or_eq_false_iff, beq_eq_false_iff_ne, Bool.and_eq_false_iff,
    decide_eq_false_iff_not]
  exact ⟨hspace, .inr (by omega)⟩

/-- A character that is no digit is not met among digits. -/
theorem IsHexDigit.ne {d : Char} (h : IsHexDigit c) (hd : ¬ IsHexDigit d) : c ≠ d :=
  fun heq => hd (heq ▸ h)

/-! ## Bytes -/

/-- Digits write bytes, two digits each, the high one first. -/
inductive WritesBytes : List Char → List UInt8 → Prop where
  | nil : WritesBytes [] []
  | cons {high low : Char} {h l : Nat} {b : UInt8} {digits : List Char} {bytes : List UInt8}
      (hhigh : hexNibble? high = some h) (hlow : hexNibble? low = some l) (hbyte : b.toNat = 16 * h + l)
      (hrest : WritesBytes digits bytes) : WritesBytes (high :: low :: digits) (b :: bytes)

theorem WritesBytes.length (h : WritesBytes digits bytes) : digits.length = 2 * bytes.length := by
  induction h with
  | nil => rfl
  | cons _ _ _ _ ih => simp [ih, Nat.mul_add]

theorem WritesBytes.isHexDigit (h : WritesBytes digits bytes) : ∀ c ∈ digits, IsHexDigit c := by
  induction h with
  | nil => exact List.forall_mem_nil _
  | cons hhigh hlow _ _ ih =>
    exact List.forall_mem_cons.mpr ⟨⟨_, hhigh⟩, List.forall_mem_cons.mpr ⟨⟨_, hlow⟩, ih⟩⟩

/-- Bytes are read from their digits. -/
theorem WritesBytes.read (h : WritesBytes digits bytes) : readHexBytes digits = some bytes := by
  induction h with
  | nil => rfl
  | @cons _ _ h l b _ _ hhigh hlow hbyte _ ih =>
    have hb : UInt8.ofNat (16 * h + l) = b := by rw [← hbyte, UInt8.ofNat_toNat]
    rw [readHexBytes, IsHexDigit.not_blank ⟨h, hhigh⟩, hhigh, hlow, ih, if_neg Bool.false_ne_true, ← hb]
    rfl

/-- An even number of digits writes bytes. -/
theorem exists_writesBytes {k : Nat} (hdigits : ∀ c ∈ digits, IsHexDigit c)
    (hlength : digits.length = 2 * k) :
    ∃ bytes, WritesBytes digits bytes := by
  induction k generalizing digits with
  | zero =>
    rw [List.eq_nil_of_length_eq_zero hlength]
    exact ⟨[], .nil⟩
  | succ k ih =>
    match digits with
    | [] | [_] =>
      simp only [List.length_nil, List.length_cons] at hlength
      omega
    | high :: low :: digits =>
      simp only [List.forall_mem_cons] at hdigits
      obtain ⟨⟨h, hhigh⟩, ⟨l, hlow⟩, hdigits⟩ := hdigits
      obtain ⟨bytes, hbytes⟩ := ih hdigits (by simp only [List.length_cons] at hlength; omega)
      have hh := hexNibble?_lt hhigh
      have hl := hexNibble?_lt hlow
      refine ⟨UInt8.ofNat (16 * h + l) :: bytes, .cons hhigh hlow ?_ hbytes⟩
      rw [UInt8.toNat_ofNat']
      omega

/-! ## Numbers -/

/-- The number that digits write. -/
def hexNumber (digits : List Char) : Nat := digits.foldl (fun n c => n * 16 + (hexNibble? c).getD 0) 0

theorem readDigits_hex (hdigits : ∀ c ∈ digits, IsHexDigit c) (value count : Nat) (after : Bool)
    (hne : digits ≠ [] ∨ after = true) : readDigits 16 value count after digits =
      some (digits.foldl (fun n c => n * 16 + (hexNibble? c).getD 0) value, count + digits.length, []) := by
  induction digits generalizing value count after with
  | nil =>
    rw [hne.resolve_left fun h => h rfl]
    rfl
  | cons c digits ih =>
    rw [List.forall_mem_cons] at hdigits
    obtain ⟨hc, hdigits⟩ := hdigits
    obtain ⟨n, hn⟩ := id hc
    have hunderscore : c ≠ '_' := hc.ne (by decide)
    rw [readDigits, digitValue?_of_hexNibble? hn]
    · dsimp only
      rw [if_pos (hexNibble?_lt hn), ih hdigits _ _ _ (.inr rfl), List.foldl_cons, hn, Option.getD_some,
        List.length_cons, Nat.add_assoc, Nat.add_comm 1]
    · exact hunderscore

/-- A number is read from its digits. -/
theorem readInteger_hex (hdigits : ∀ c ∈ digits, IsHexDigit c) (hne : digits ≠ []) :
    readInteger .sixteen (String.ofList digits) = .ok (hexNumber digits) := by
  have hplain : digits.map plainChar = digits :=
    (List.map_congr_left fun c hc => (hdigits c hc).plain).trans (List.map_id' _)
  obtain ⟨c, rest, rfl⟩ := List.exists_cons_of_ne_nil hne
  have hc := hdigits c List.mem_cons_self
  have hminus : c ≠ '-' := hc.ne (by decide)
  have hplus : c ≠ '+' := hc.ne (by decide)
  have hsign : readSign (c :: rest) = (false, c :: rest) := by simp [readSign, hminus, hplus]
  have hmark : baseMark .sixteen (c :: rest) = (16, c :: rest, false) := by
    cases rest with
    | nil => simp [baseMark]
    | cons d rest =>
      have hd := hdigits d (by simp)
      have hx : d ≠ 'x' := hd.ne (by decide)
      have hX : d ≠ 'X' := hd.ne (by decide)
      simp [baseMark, hx, hX]
  have hdrop : (c :: rest).dropWhile isAsciiBlank = c :: rest :=
    List.dropWhile_cons_of_neg (by simp [hc.not_blank])
  have hread := readDigits_hex hdigits 0 0 false (.inl hne)
  unfold readInteger
  simp only [String.toList_ofList, hplain, hdrop, hsign, hmark, hread]
  rfl

end UpgradeSafety.Text

namespace UpgradeSafety.Bytecode

open Text

/-- Metadata that the compiler appends: bytes that are exactly one map, as a decoder tells it. -/
structure Metadata (isOneMap : List UInt8 → Bool) where
  bytes : List UInt8
  nonempty : bytes ≠ []
  isMap : isOneMap bytes = true

variable {isOneMap : List UInt8 → Bool} {m : Metadata isOneMap}
  {mark body front digits count w : List Char} {length : Int}

/-- Metadata as it stands behind bytecode: its bytes, and four digits that write how many these are. -/
inductive Metadata.Writes (m : Metadata isOneMap) : List Char → Prop where
  | intro {digits count : List Char} (hbytes : WritesBytes digits m.bytes) (hfour : count.length = 4)
      (hcount : ∀ d ∈ count, IsHexDigit d) (hnumber : hexNumber count = m.bytes.length) :
      m.Writes (digits ++ count)

/-- The mark that may stand in front of bytecode. -/
def IsMark (mark : List Char) : Prop := mark = [] ∨ mark = ['0', 'x']

theorem Metadata.Writes.isHexDigit (h : m.Writes w) : ∀ d ∈ w, IsHexDigit d := by
  obtain ⟨hbytes, -, hcount, -⟩ := h
  exact List.forall_mem_append.mpr ⟨hbytes.isHexDigit, hcount⟩

theorem Metadata.Writes.ne_nil (h : m.Writes w) : w ≠ [] := by
  obtain ⟨-, hfour, -, -⟩ := h
  intro hnil
  rw [List.append_eq_nil_iff] at hnil
  rw [hnil.2] at hfour
  cases hfour

/-! ## Where metadata begins -/

theorem metadataLength?_append (hfour : count.length = 4) (hcount : ∀ d ∈ count, IsHexDigit d) :
    metadataLength? (front ++ count) = some (hexNumber count : Int) := by
  have hlength : (front ++ count).length - 4 = front.length := by
    rw [List.length_append, hfour, Nat.add_sub_cancel]
  have hne : count ≠ [] := by
    rintro rfl
    cases hfour
  unfold metadataLength?
  rw [if_neg (by rw [List.length_append]; omega), hlength, List.drop_left, readInteger_hex hcount hne]
  rfl

/-- Digits whose last four write a length. -/
theorem exists_of_metadataLength? (hbody : ∀ d ∈ body, IsHexDigit d)
    (h : metadataLength? body = some length) : ∃ front count, body = front ++ count ∧
      count.length = 4 ∧ length = hexNumber count := by
  have hlong : ¬ body.length < 4 := by
    intro hshort
    rw [metadataLength?, if_pos hshort] at h
    cases h
  have hsplit := List.take_append_drop (body.length - 4) body
  have hfour : (body.drop (body.length - 4)).length = 4 := by
    rw [List.length_drop]
    omega
  refine ⟨_, _, hsplit.symm, hfour, ?_⟩
  rw [← hsplit, metadataLength?_append hfour fun d hd => hbody d (List.mem_of_mem_drop hd)] at h
  exact (Option.some.inj h).symm

/-- What stands in front of metadata, whatever it is. -/
theorem beforeMetadata?_append (h : m.Writes w) :
    beforeMetadata? isOneMap (front ++ w) = some front := by
  obtain ⟨hbytes, hfour, hcount, hnumber⟩ := h
  rename_i digits count
  have hlength := hbytes.length
  have hpositive := List.length_pos_iff.mpr m.nonempty
  have hbody : (front ++ (digits ++ count)).length = front.length + 2 * m.bytes.length + 4 := by
    simp only [List.length_append]
    omega
  have hstart : ((front ++ (digits ++ count)).length : Int) - 4 - (m.bytes.length : Int) * 2 =
      front.length := by
    omega
  have hfits : ¬ (decide ((m.bytes.length : Int) = 0) || decide ((front.length : Int) < 0)) = true := by
    rw [Bool.or_eq_true, decide_eq_true_eq, decide_eq_true_eq]
    omega
  have hslice : ((front ++ (digits ++ count)).take ((front ++ (digits ++ count)).length - 4)).drop
      front.length = digits := by
    have hall : (front ++ (digits ++ count)).length - 4 = (front ++ digits).length := by
      rw [hbody, List.length_append]
      omega
    rw [hall, ← List.append_assoc, List.take_left, List.drop_left]
  have hread : bytesOfHex? (String.ofList digits) = some m.bytes := by
    rw [bytesOfHex?, String.toList_ofList, hbytes.read]
  unfold beforeMetadata?
  rw [← List.append_assoc, metadataLength?_append hfour hcount, hnumber, List.append_assoc,
    Option.bind_eq_bind, Option.bind_some, hstart, if_neg hfits, Int.toNat_natCast, hslice]
  dsimp only
  rw [hread, Option.bind_eq_bind, Option.bind_some, if_pos m.isMap, List.take_left]

/-- Digits that are cut end in metadata. -/
theorem exists_of_beforeMetadata? (hbody : ∀ d ∈ body, IsHexDigit d)
    (h : beforeMetadata? isOneMap body = some front) :
    ∃ (m : Metadata isOneMap) (w : List Char), m.Writes w ∧ body = front ++ w := by
  unfold beforeMetadata? at h
  obtain ⟨length, hlength, h⟩ := Option.bind_eq_some_iff.mp h
  obtain ⟨base, count, rfl, hfour, rfl⟩ := exists_of_metadataLength? hbody hlength
  dsimp only at h
  split at h
  · cases h
  · rename_i hstart
    rw [List.forall_mem_append] at hbody
    obtain ⟨hbase, hcount⟩ := hbody
    have hbody : (base ++ count).length = base.length + 4 := by rw [List.length_append, hfour]
    have hcut : (((base ++ count).length : Int) - 4 - (hexNumber count : Int) * 2).toNat =
        base.length - 2 * hexNumber count := by
      omega
    simp only [Bool.or_eq_true, decide_eq_true_eq, not_or, hbody] at hstart
    have hslice : (base ++ count).take ((base ++ count).length - 4) = base := by
      rw [hbody, Nat.add_sub_cancel, List.take_left]
    rw [hcut, hslice] at h
    have hlength : (base.drop (base.length - 2 * hexNumber count)).length = 2 * hexNumber count := by
      rw [List.length_drop]
      omega
    obtain ⟨bytes, hbytes⟩ :=
      exists_writesBytes (fun d hd => hbase d (List.mem_of_mem_drop hd)) hlength
    obtain ⟨bytes', hread, h⟩ := Option.bind_eq_some_iff.mp h
    rw [bytesOfHex?, String.toList_ofList, hbytes.read] at hread
    cases hread
    split at h
    · rename_i hmap
      cases h
      have hnumber : hexNumber count = bytes.length := by
        have := hbytes.length
        omega
      have hne : bytes ≠ [] := by
        rintro rfl
        exact hstart.1 (by rw [hnumber]; rfl)
      refine ⟨⟨bytes, hne, hmap⟩, _, .intro hbytes hfour hcount hnumber, ?_⟩
      rw [List.take_append_of_le_length (Nat.sub_le _ _), ← List.append_assoc, List.take_append_drop]
    · cases h

/-! ## Marks -/

theorem splitMark_of_ne {cs : List Char} (h : ∀ body, cs ≠ '0' :: 'x' :: body) :
    splitMark (.ofList cs) = ([], cs) := by
  unfold splitMark
  rw [String.toList_ofList]
  split
  · exact absurd rfl (h _)
  · rfl

/-- Digits have no mark but the one in front of them. -/
theorem splitMark_mark (hmark : IsMark mark) (hbody : ∀ d ∈ body, IsHexDigit d) :
    splitMark (.ofList (mark ++ body)) = (mark, body) := by
  rcases hmark with rfl | rfl
  · refine splitMark_of_ne fun rest heq => ?_
    subst heq
    exact absurd (hbody 'x' (by simp)) (by decide)
  · unfold splitMark
    rw [String.toList_ofList]
    rfl

/-- Digits behind a text stay behind what follows the mark of the text. -/
theorem exists_splitMark (hw : ∀ d ∈ w, IsHexDigit d) (text : List Char) :
    ∃ mark c, splitMark (.ofList (text ++ w)) = (mark, c ++ w) ∧ mark ++ c = text := by
  have hx : 'x' ∉ w := fun hmem => absurd (hw 'x' hmem) (by decide)
  by_cases hmark : ∃ c, text = '0' :: 'x' :: c
  · obtain ⟨c, rfl⟩ := hmark
    refine ⟨['0', 'x'], c, ?_, rfl⟩
    unfold splitMark
    rw [String.toList_ofList]
    rfl
  · refine ⟨[], text, splitMark_of_ne fun rest heq => ?_, rfl⟩
    -- The second character is one of the text, or else a digit.
    match text with
    | [] =>
      rw [List.nil_append] at heq
      exact hx (by rw [heq]; simp)
    | [a] =>
      rw [List.singleton_append, List.cons.injEq] at heq
      exact hx (by rw [heq.2]; simp)
    | a :: b :: c =>
      simp only [List.cons_append, List.cons.injEq] at heq
      exact hmark ⟨c, by rw [heq.1, heq.2.1]⟩

/-! ## Bytecode without metadata -/

theorem bare_append (h : m.Writes w) (text : List Char) :
    bare (.ofList (text ++ w)) isOneMap = .ofList text := by
  obtain ⟨mark, c, hsplit, rfl⟩ := exists_splitMark h.isHexDigit text
  unfold bare
  rw [hsplit]
  dsimp only
  rw [beforeMetadata?_append h]

theorem version_append (h : m.Writes w) (text : List Char) (linked : Option String) :
    ∃ v, version (.ofList (text ++ w)) linked isOneMap = .ok v ∧ v.bare = hash (.ofList text) := by
  obtain ⟨mark, c, hsplit, -⟩ := exists_splitMark h.isHexDigit text
  have hbody : (c ++ w).isEmpty = false := by
    rw [List.isEmpty_eq_false_iff]
    exact fun hnil => h.ne_nil (List.append_eq_nil_iff.mp hnil).2
  unfold version
  rw [hsplit, hbody, if_neg Bool.false_ne_true]
  exact ⟨_, rfl, by rw [bare_append h]⟩

theorem bare_eq_self (hmark : IsMark mark) (hbody : ∀ d ∈ body, IsHexDigit d)
    (h : beforeMetadata? isOneMap body = none) :
    bare (.ofList (mark ++ body)) isOneMap = .ofList (mark ++ body) := by
  unfold bare
  rw [splitMark_mark hmark hbody]
  dsimp only
  rw [h]

/-- Cutting the metadata off undoes appending it, and does nothing else: of digits behind a mark or none,
and, where metadata stands at the end, behind any text. So builds that differ in their metadata only have
one hash without it. This is so for every decoder that tells what metadata is. -/
theorem bare_metadata (isOneMap : List UInt8 → Bool) :
    (∀ mark body : List Char, IsMark mark → (∀ d ∈ body, IsHexDigit d) →
      (bare (.ofList (mark ++ body)) isOneMap ≠ .ofList (mark ++ body) ↔
        ∃ (m : Metadata isOneMap) (c w : List Char), m.Writes w ∧ body = c ++ w)) ∧
    (∀ (m : Metadata isOneMap) (mark c w : List Char), IsMark mark → m.Writes w →
      bare (.ofList (mark ++ (c ++ w))) isOneMap = .ofList (mark ++ c)) ∧
    ∀ (m m' : Metadata isOneMap) (mark c w w' : List Char) (linked linked' : Option String),
      IsMark mark → m.Writes w → m'.Writes w' →
        ∃ v v', version (.ofList (mark ++ (c ++ w))) linked isOneMap = .ok v ∧
          version (.ofList (mark ++ (c ++ w'))) linked' isOneMap = .ok v' ∧ v.bare = v'.bare ∧
          v.bare = hash (.ofList (mark ++ c)) := by
  refine ⟨fun mark body hmark hbody => ⟨fun hcut => ?_, ?_⟩, fun m mark c w _ h => ?_,
    fun m m' mark c w w' linked linked' _ h h' => ?_⟩
  · cases hbefore : beforeMetadata? isOneMap body with
    | none => exact absurd (bare_eq_self hmark hbody hbefore) hcut
    | some front =>
      obtain ⟨m, w, hw, hsplit⟩ := exists_of_beforeMetadata? hbody hbefore
      exact ⟨m, front, w, hw, hsplit⟩
  · rintro ⟨m, c, w, hw, rfl⟩ heq
    rw [← List.append_assoc, bare_append hw, String.ofList_inj] at heq
    exact hw.ne_nil (List.append_right_eq_self.mp heq.symm)
  · rw [← List.append_assoc, bare_append h]
  · rw [← List.append_assoc, ← List.append_assoc]
    obtain ⟨v, hv, hbare⟩ := version_append h (mark ++ c) linked
    obtain ⟨v', hv', hbare'⟩ := version_append h' (mark ++ c) linked'
    exact ⟨v, v', hv, hv', hbare.trans hbare'.symm, hbare⟩

/-- Metadata without entries. -/
def emptyMetadata : Metadata Cbor.isOneMap := ⟨[0xa0], by decide, by decide +kernel⟩

theorem emptyMetadata_writes : emptyMetadata.Writes ['a', '0', '0', '0', '0', '1'] :=
  have hcount : WritesBytes ['0', '0', '0', '1'] [0, 1] := .cons rfl rfl rfl (.cons rfl rfl rfl .nil)
  have hbytes : WritesBytes ['a', '0'] emptyMetadata.bytes := .cons rfl rfl rfl .nil
  .intro hbytes rfl hcount.isHexDigit rfl

theorem bare_metadata_emptyMetadata :
    (∃ (m : Metadata Cbor.isOneMap) (c w : List Char),
      m.Writes w ∧ ['6', '0', 'A', '0', '0', '0', '0', '1'] = c ++ w) ∧
    bare "0x__$lib$__a00001" = "0x__$lib$__" ∧
    ∃ v v', version "6001a00001" none = .ok v ∧ version "6001a00001" (some "60") = .ok v' ∧
      v.bare = v'.bare ∧ v.bare = hash "6001" := by
  obtain ⟨hcut, hfront, hversions⟩ := bare_metadata Cbor.isOneMap
  refine ⟨?_, ?_, ?_⟩
  · have hbody : WritesBytes ['6', '0', 'A', '0', '0', '0', '0', '1'] [0x60, 0xa0, 0, 1] :=
      .cons rfl rfl rfl (.cons rfl rfl rfl (.cons rfl rfl rfl (.cons rfl rfl rfl .nil)))
    exact (hcut [] _ (.inl rfl) hbody.isHexDigit).mp (by decide +kernel)
  · exact hfront emptyMetadata ['0', 'x'] ['_', '_', '$', 'l', 'i', 'b', '$', '_', '_'] _
      (.inr rfl) emptyMetadata_writes
  · exact hversions emptyMetadata emptyMetadata [] ['6', '0', '0', '1'] _ _ none (some "60")
      (.inl rfl) emptyMetadata_writes emptyMetadata_writes

end UpgradeSafety.Bytecode
