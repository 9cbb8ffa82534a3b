import UpgradeSafety.Json.Parser
import UpgradeSafety.Json.Printer
import UpgradeSafety.Proofs.Numeral.Decimal

/-!
# Written numbers

A number is written as a sign, whole digits, and possibly a fraction and an exponent. The reader
takes up such a text to its end when nothing behind it could belong to it (`readNumber_chars`).
Integers are texts of this form (`chars_integerText`), and so are all floats that are numbers
(`toList_writeFloat`). A written integer is read back as it was.

The parts of a number are a structure (`NumeralText`), from which its characters and its value are
computed. So reading is shown once, part by part, for any number with digits in all its parts
(`NumeralText.IsSound`); what remains for integers and floats is to name their parts. The condition
on what follows (`EndsNumber`) is about one character: a digit, a point or an exponent mark would
be taken up. A whole part may begin with a zero only if that is all of it, which is where the texts
of integers need that only zero begins with one.
-/

namespace UpgradeSafety.Json

open Numeral

/-! ## The parts of a number -/

/-- A text that goes on with nothing that a number in front of it would take up. -/
def EndsNumber (rest : List Char) : Prop :=
  ∀ c ∈ rest.head?, c.isDigit = false ∧ c ≠ '.' ∧ c ≠ 'e' ∧ c ≠ 'E'

/-- Digits, of which there is at least one. -/
def AreDigits (ds : List Char) : Prop := ds ≠ [] ∧ ∀ c ∈ ds, c.isDigit = true

/-- A written number in its parts. -/
structure NumeralText where
  negative : Bool
  whole : List Char
  fraction : Option (List Char)
  /-- The sign of the exponent and its digits. -/
  exponent : Option (Bool × List Char)

namespace NumeralText

/-- The fraction behind its point. -/
def fractionChars : Option (List Char) → List Char
  | some fs => '.' :: fs
  | none => []

/-- The exponent behind its mark. -/
def exponentChars : Option (Bool × List Char) → List Char
  | some (negative, es) => 'e' :: (if negative then '-' else '+') :: es
  | none => []

/-- The characters of a number. -/
def chars (t : NumeralText) : List Char :=
  (if t.negative then ['-'] else []) ++
    (t.whole ++ (fractionChars t.fraction ++ exponentChars t.exponent))

/-- All parts have digits, and the whole digits begin with a zero only if it stands alone. -/
structure IsSound (t : NumeralText) : Prop where
  whole : AreDigits t.whole
  alone : t.whole.head? = some '0' → t.whole = ['0']
  fraction : ∀ fs ∈ t.fraction, AreDigits fs
  exponent : ∀ e ∈ t.exponent, AreDigits e.2

/-- The value of the exponent. -/
def power (t : NumeralText) : Int :=
  match t.exponent with
  | some (negative, es) => if negative then -(digitsValue es : Int) else digitsValue es
  | none => 0

/-- The number that a text writes. -/
def value (t : NumeralText) : Json :=
  if t.fraction.isNone && t.exponent.isNone then
    .int (if t.negative then -(digitsValue t.whole : Int) else digitsValue t.whole)
  else
    .float (floatOfDecimal t.negative (digitsValue (t.whole ++ t.fraction.getD []))
      (t.power - (t.fraction.getD []).length))

end NumeralText

/-! ## Reading the parts -/

open NumeralText

theorem endsNumber_nil : EndsNumber [] := nofun

theorem endsNumber_exponentChars {e : Option (Bool × List Char)} {rest : List Char}
    (h : EndsNumber rest) : ∀ c ∈ (exponentChars e ++ rest).head?, c.isDigit = false ∧ c ≠ '.' := by
  intro c hc
  cases e with
  | none => exact ⟨(h c hc).1, (h c hc).2.1⟩
  | some e =>
    rw [Option.mem_def, exponentChars, List.cons_append, List.head?_cons, Option.some.injEq] at hc
    subst hc
    exact ⟨by decide, by decide⟩

theorem readFraction_chars {f : Option (List Char)} (hf : ∀ fs ∈ f, AreDigits fs)
    {rest : List Char} (hrest : ∀ c ∈ rest.head?, c.isDigit = false ∧ c ≠ '.') :
    (readFraction (fractionChars f ++ rest)).isNone = f.isNone ∧
      (readFraction (fractionChars f ++ rest)).getD ([], fractionChars f ++ rest) =
        (f.getD [], rest) := by
  cases f with
  | none =>
    cases rest with
    | nil => exact ⟨rfl, rfl⟩
    | cons c cs =>
      have := (hrest c rfl).2
      simp [fractionChars, readFraction, this]
  | some fs =>
    obtain ⟨hne, hdigits⟩ := hf fs rfl
    obtain ⟨htake, hdrop⟩ := takeWhile_digits hdigits fun c hc => (hrest c hc).1
    obtain ⟨d, ds, rfl⟩ := List.exists_cons_of_ne_nil hne
    simp only [fractionChars, List.cons_append, readFraction] at htake hdrop ⊢
    rw [htake, hdrop]
    exact ⟨rfl, rfl⟩

theorem readExponent_chars {t : NumeralText} (ht : ∀ e ∈ t.exponent, AreDigits e.2)
    {rest : List Char} (hrest : EndsNumber rest) :
    (readExponent (exponentChars t.exponent ++ rest)).isNone = t.exponent.isNone ∧
      (readExponent (exponentChars t.exponent ++ rest)).getD
        (0, exponentChars t.exponent ++ rest) = (t.power, rest) := by
  cases he : t.exponent with
  | none =>
    cases rest with
    | nil => simp [exponentChars, readExponent, power, he]
    | cons c cs =>
      have := (hrest c rfl).2.2
      simp [exponentChars, readExponent, power, he, this]
  | some e =>
    obtain ⟨hne, hdigits⟩ := ht e he
    obtain ⟨htake, hdrop⟩ := takeWhile_digits hdigits fun c hc => (hrest c hc).1
    obtain ⟨negative, es⟩ := e
    obtain ⟨d, ds, rfl⟩ := List.exists_cons_of_ne_nil hne
    rw [List.cons_append] at htake hdrop
    cases negative <;> simp [exponentChars, readExponent, power, he, htake, hdrop]

theorem endsDigits_fractionChars {t : NumeralText} {rest : List Char} (hrest : EndsNumber rest) :
    ∀ c ∈ (fractionChars t.fraction ++ (exponentChars t.exponent ++ rest)).head?,
      c.isDigit = false := by
  intro c hc
  cases hf : t.fraction with
  | none =>
    rw [hf] at hc
    exact (endsNumber_exponentChars hrest c hc).1
  | some fs =>
    rw [hf, Option.mem_def, fractionChars, List.cons_append, List.head?_cons,
      Option.some.injEq] at hc
    subst hc
    decide

/-- A number is taken up to its end. -/
theorem readNumber_chars {t : NumeralText} (ht : t.IsSound) {rest : List Char}
    (hrest : EndsNumber rest) : readNumber (t.chars ++ rest) = some (t.value, rest) := by
  obtain ⟨hnoExponent, hexponent⟩ := readExponent_chars ht.exponent hrest
  obtain ⟨hnoFraction, hfraction⟩ := readFraction_chars ht.fraction
    (endsNumber_exponentChars (e := t.exponent) hrest)
  obtain ⟨htake, hdrop⟩ := takeWhile_digits ht.whole.2 (endsDigits_fractionChars (t := t) hrest)
  obtain ⟨d, ds, hds⟩ := List.exists_cons_of_ne_nil ht.whole.1
  have hd : d.isDigit = true := ht.whole.2 d (hds ▸ List.mem_cons_self)
  have hminus : d ≠ '-' := fun h => by simp [h] at hd
  have halone : d = '0' → ds = [] := fun h => by
    have := ht.alone (by rw [hds, h]; rfl)
    rw [hds] at this
    exact (List.cons.inj this).2
  have hchars : t.chars ++ rest = (if t.negative then ['-'] else []) ++
      (d :: (ds ++ (fractionChars t.fraction ++ (exponentChars t.exponent ++ rest)))) := by
    simp [chars, hds]
  rw [hds, List.cons_append] at htake hdrop
  rw [hchars, value, hds, ← hnoExponent, ← hnoFraction]
  -- what follows the whole digits is read in the same way in all cases
  generalize fractionChars t.fraction ++ (exponentChars t.exponent ++ rest) = behind at *
  unfold readNumber
  generalize floatOfDecimal = float
  by_cases hzero : d = '0'
  · obtain rfl := halone hzero
    subst hzero
    cases hneg : t.negative <;> simp [hfraction, hexponent] <;> split <;> rfl
  · cases hneg : t.negative <;>
      simp [hminus, hd, htake, hdrop, hfraction, hexponent] <;> split <;> rfl

/-! ## Integers -/

theorem areDigits_decimal (n : Nat) : AreDigits (Nat.toDigits 10 n) :=
  ⟨Nat.toDigits_ne_nil, fun _ hc => isDigit_of_mem_decimal hc⟩

theorem alone_decimal {n : Nat} (h : (Nat.toDigits 10 n).head? = some '0') :
    Nat.toDigits 10 n = ['0'] := by
  obtain ⟨d, ds, hds⟩ := List.exists_cons_of_ne_nil (Nat.toDigits_ne_nil (b := 10) (n := n))
  rw [hds, List.head?_cons, Option.some.injEq] at h
  subst h
  rw [hds, (eq_zero_of_decimal hds).2]

theorem digitsValue_eq (ds : List Char) : digitsValue ds = Nat.ofDigitChars 10 ds 0 := by
  rw [digitsValue, Nat.ofDigitChars_eq_foldl]
  exact List.foldl_ext _ _ _ fun n d _ => by rw [Nat.mul_comm]; rfl

theorem digitsValue_decimal (n : Nat) : digitsValue (Nat.toDigits 10 n) = n := by
  rw [digitsValue_eq, Nat.ofDigitChars_ten_toDigits]

/-- An integer in its parts. -/
def integerText (n : Int) : NumeralText := ⟨n < 0, Nat.toDigits 10 n.natAbs, none, none⟩

theorem integerText_isSound (n : Int) : (integerText n).IsSound :=
  ⟨areDigits_decimal _, alone_decimal, nofun, nofun⟩

theorem chars_integerText (n : Int) : (integerText n).chars = (toString n).toList := by
  rw [toList_toString]
  simp [integerText, chars, fractionChars, exponentChars]

theorem value_integerText (n : Int) : (integerText n).value = .int n := by
  simp only [integerText, value, Option.isNone_none, Bool.and_self, if_true, digitsValue_decimal,
    decide_eq_true_eq, int.injEq]
  split <;> omega

/-- An integer that may be written has no more digits than are read. -/
theorem overlong?_toString {n : Int} (h : Numeral.isWritable n = true) {rest : List Char}
    (hrest : EndsNumber rest) : overlong? (.int n) ((toString n).toList ++ rest) = none := by
  obtain ⟨htake, -⟩ := takeWhile_digits (areDigits_decimal n.natAbs).2 fun c hc => (hrest c hc).1
  have hlength : ¬ maxDecimalDigits < (Nat.toDigits 10 n.natAbs).length :=
    Nat.not_lt.mpr (length_decimal_le h)
  obtain ⟨d, ds, hds⟩ := List.exists_cons_of_ne_nil (Nat.toDigits_ne_nil (b := 10) (n := n.natAbs))
  have hminus : d ≠ '-' := fun hc => by
    have := isDigit_of_mem_decimal (hds ▸ List.mem_cons_self : d ∈ Nat.toDigits 10 n.natAbs)
    simp [hc] at this
  have hbody : (if ((toString n).toList ++ rest).head? == some '-'
      then ((toString n).toList ++ rest).drop 1 else (toString n).toList ++ rest) =
      Nat.toDigits 10 n.natAbs ++ rest := by
    rw [toList_toString]
    split <;> simp_all
  unfold overlong?
  rw [hbody]
  split
  · rfl
  · rw [htake, if_neg hlength]
  · rfl

/-! ## Floats -/

namespace NumeralText

/-- Whether a text writes a float. -/
def IsFloat (t : NumeralText) : Prop := t.fraction.isSome = true ∨ t.exponent.isSome = true

/-- The decimal that a text writes, without its sign. -/
def decimal (t : NumeralText) : Decimal :=
  ⟨digitsValue (t.whole ++ t.fraction.getD []), t.power - (t.fraction.getD []).length⟩

theorem value_of_isFloat {t : NumeralText} (h : t.IsFloat) :
    t.value = .float (floatOfDecimal t.negative t.decimal.digits t.decimal.exponent) := by
  have : (t.fraction.isNone && t.exponent.isNone) = false := by
    rcases h with h | h <;> simp [← Option.not_isSome, h]
  rw [value, if_neg (by simp [this])]
  rfl

end NumeralText

theorem areDigits_zero : AreDigits ['0'] := ⟨by decide, List.forall_mem_singleton.mpr rfl⟩

theorem AreDigits.append {ds es : List Char} (hds : AreDigits ds)
    (hes : ∀ c ∈ es, c.isDigit = true) : AreDigits (ds ++ es) :=
  ⟨by simp [hds.1], fun c hc => (List.mem_append.mp hc).elim (hds.2 c) (hes c)⟩

theorem isDigit_of_mem_replicate {n : Nat} : ∀ c ∈ List.replicate n '0', c.isDigit = true :=
  fun c hc => by rw [(List.mem_replicate.mp hc).2]; decide

/-- A decimal that is zero in one form only. -/
def IsTrim (x : Decimal) : Prop := x.digits = 0 → x.exponent = 0

/-- The digits of a power of ten behind a float. -/
def powerDigits (n : Nat) : List Char :=
  if (Nat.toDigits 10 n).length < 2 then '0' :: Nat.toDigits 10 n else Nat.toDigits 10 n

/-- A positive decimal in its parts. -/
def decimalText (x : Decimal) : NumeralText :=
  let ds := Nat.toDigits 10 x.digits
  let lead : Int := x.exponent + ds.length - 1
  if -4 ≤ lead && lead < FloatFormat.exact.positionalBelow then
    if 0 ≤ x.exponent then
      ⟨false, ds ++ List.replicate x.exponent.toNat '0', some ['0'], none⟩
    else if 0 ≤ lead then
      ⟨false, ds.take (lead.toNat + 1), some (ds.drop (lead.toNat + 1)), none⟩
    else ⟨false, ['0'], some (List.replicate (-lead - 1).toNat '0' ++ ds), none⟩
  else
    ⟨false, ds.take 1, if ds.length == 1 then none else some (ds.drop 1),
      some (lead < 0, powerDigits lead.natAbs)⟩

theorem chars_decimalText (x : Decimal) :
    (FloatFormat.exact.positive x).toList = (decimalText x).chars := by
  have hpoint : FloatFormat.exact.keepsPoint = true := rfl
  unfold FloatFormat.positive decimalText powerDigits
  simp only [hpoint, if_true]
  generalize Nat.toDigits 10 x.digits = ds
  by_cases hrange : (decide (-4 ≤ x.exponent + ds.length - 1) &&
      decide (x.exponent + ds.length - 1 < FloatFormat.exact.positionalBelow)) = true
  · rw [if_pos hrange, if_pos hrange]
    split
    · simp [chars, fractionChars, exponentChars]
    · split <;> simp [chars, fractionChars, exponentChars]
  · rw [if_neg hrange, if_neg hrange, Nat.toString_eq_repr]
    have hlength (n : Nat) : n.repr.length = (Nat.toDigits 10 n).length := by
      rw [← String.length_toList, Nat.toList_repr]
    by_cases hlead : x.exponent + ds.length - 1 < 0 <;> by_cases hone : (ds.length == 1) = true <;>
      by_cases hpad : (Nat.toDigits 10 (x.exponent + ds.length - 1).natAbs).length < 2 <;>
      simp [hlead, hone, hpad, hlength, chars, fractionChars, exponentChars]

theorem areDigits_powerDigits (n : Nat) : AreDigits (powerDigits n) := by
  have hdigits := areDigits_decimal n
  unfold powerDigits
  split
  · refine ⟨List.cons_ne_nil _ _, fun c hc => ?_⟩
    rcases List.mem_cons.mp hc with rfl | hc
    · decide
    · exact hdigits.2 c hc
  · exact hdigits

theorem decimalText_isSound {x : Decimal} (hx : IsTrim x) : (decimalText x).IsSound := by
  have hdigits := areDigits_decimal x.digits
  have hlength : 0 < (Nat.toDigits 10 x.digits).length := Nat.length_toDigits_pos
  -- digits that begin with a zero are those of zero
  have hzero : (Nat.toDigits 10 x.digits).head? = some '0' →
      x.exponent = 0 ∧ Nat.toDigits 10 x.digits = ['0'] := fun h => by
    have hdigits := alone_decimal h
    exact ⟨hx (eq_zero_of_decimal hdigits).1, hdigits⟩
  unfold decimalText
  dsimp only
  generalize Nat.toDigits 10 x.digits = ds at *
  obtain ⟨d, ds, rfl⟩ := List.exists_cons_of_ne_nil hdigits.1
  split
  · split
    · refine ⟨hdigits.append isDigit_of_mem_replicate, fun h => ?_, ?_, nofun⟩
      · obtain ⟨hexponent, hds⟩ := hzero h
        simp [hexponent, hds]
      · rintro fs ⟨⟩
        exact areDigits_zero
    · split
      · refine ⟨⟨by simp, fun c hc => hdigits.2 c (List.mem_of_mem_take hc)⟩, fun h => ?_, ?_, nofun⟩
        · have := (hzero h).1
          omega
        · rintro fs ⟨⟩
          refine ⟨fun h => ?_, fun c hc => hdigits.2 c (List.mem_of_mem_drop hc)⟩
          have := List.drop_eq_nil_iff.mp h
          omega
      · refine ⟨areDigits_zero, fun _ => rfl, ?_, nofun⟩
        rintro fs ⟨⟩
        exact ⟨by simp, fun c hc => (List.mem_append.mp hc).elim (isDigit_of_mem_replicate c)
          (hdigits.2 c)⟩
  · refine ⟨⟨by simp, fun c hc => hdigits.2 c (List.mem_of_mem_take hc)⟩, fun h => ?_, ?_, ?_⟩
    · simpa using h
    · intro fs hfs
      rw [Option.mem_def] at hfs
      split at hfs
      · cases hfs
      · rename_i hone
        cases hfs
        refine ⟨fun h => hone ?_, fun c hc => hdigits.2 c (List.mem_of_mem_drop hc)⟩
        have := List.drop_eq_nil_iff.mp h
        rw [beq_iff_eq]
        omega
    · rintro e ⟨⟩
      exact areDigits_powerDigits _

theorem decimalText_isFloat (x : Decimal) : (decimalText x).IsFloat := by
  unfold decimalText
  dsimp only
  split
  · split
    · exact .inl rfl
    · split <;> exact .inl rfl
  · exact .inr rfl

theorem isTrim_trim (x : Decimal) : IsTrim x.trim := by
  intro h
  unfold Decimal.trim at h ⊢
  dsimp only at h ⊢
  split at h
  · rw [if_pos ‹_›]
  rename_i hne
  rw [if_neg hne]
  exfalso
  -- the zeros at the end are not all of the digits, so what they leave is not zero
  generalize hds : Nat.toDigits 10 x.digits = ds at h
  have hpos : 0 < ds.length := hds ▸ Nat.length_toDigits_pos
  have hzeros : (ds.reverse.takeWhile (· == '0')).length < ds.length := by
    refine Nat.lt_of_le_of_ne ?_ fun hall => ?_
    · have := (List.takeWhile_sublist (· == '0') (l := ds.reverse)).length_le
      rwa [List.length_reverse] at this
    · have htake : ds.reverse.takeWhile (· == '0') = ds.reverse :=
        (List.takeWhile_sublist _).eq_of_length (by rw [hall, List.length_reverse])
      obtain ⟨d, es, rfl⟩ := List.exists_cons_of_length_pos hpos
      have hd : d = '0' := by
        have hzeros := List.all_takeWhile (p := (· == '0')) (l := (d :: es).reverse)
        rw [htake] at hzeros
        exact eq_of_beq (List.all_eq_true.mp hzeros d (by simp))
      exact hne (eq_zero_of_decimal (hd ▸ hds)).1
  generalize (ds.reverse.takeWhile (· == '0')).length = zeros at h hzeros
  have hlt : x.digits < 10 ^ zeros := by
    rcases Nat.div_eq_zero_iff.mp h with h | h
    · exact absurd h (Nat.ne_of_gt (Nat.pow_pos (n := zeros) (by decide : 0 < 10)))
    · exact h
  rcases Nat.eq_zero_or_pos zeros with rfl | hz
  · omega
  · have := (Nat.length_toDigits_le_iff (by decide) hz).mpr hlt
    rw [hds] at this
    omega

theorem isTrim_shortest {m : Nat} {q : Int} (hm : m ≠ 0) : IsTrim (shortest m q) := by
  unfold shortest
  split
  · exact isTrim_trim _
  · exact fun h => absurd h hm

theorem NumeralText.IsSound.signed {t : NumeralText} (h : t.IsSound) (negative : Bool) :
    IsSound { t with negative } := ⟨h.whole, h.alone, h.fraction, h.exponent⟩

/-- A float that is a number in its parts. -/
def floatText (negative : Bool) (m : Nat) (q : Int) : NumeralText :=
  if m = 0 then ⟨negative, ['0'], some ['0'], none⟩
  else { decimalText (shortest m q) with negative }

theorem floatText_isSound (negative : Bool) (m : Nat) (q : Int) :
    (floatText negative m q).IsSound := by
  unfold floatText
  split
  · refine ⟨areDigits_zero, fun _ => rfl, ?_, nofun⟩
    rintro fs ⟨⟩
    exact areDigits_zero
  · rename_i hm
    exact (decimalText_isSound (isTrim_shortest hm)).signed negative

theorem floatText_isFloat (negative : Bool) (m : Nat) (q : Int) :
    (floatText negative m q).IsFloat := by
  unfold floatText
  split
  · exact .inl rfl
  · exact decimalText_isFloat _

theorem negative_decimalText (x : Decimal) : (decimalText x).negative = false := by
  unfold decimalText
  dsimp only
  split
  · split
    · rfl
    · split <;> rfl
  · rfl

/-- A float that is a number is written as one. -/
theorem toList_writeFloat {x : Float} {negative : Bool} {m : Nat} {q : Int}
    (h : Binary64.ofFloat x = .finite negative m q) :
    (writeFloat x).toList = (floatText negative m q).chars := by
  simp only [writeFloat, h, FloatFormat.text]
  unfold floatText
  split
  · have hpoint : FloatFormat.exact.keepsPoint = true := rfl
    cases negative <;> simp [hpoint, chars, fractionChars, exponentChars]
  · have hprecision : FloatFormat.exact.precision = none := rfl
    simp only [hprecision]
    rw [String.toList_append, chars_decimalText]
    cases negative <;> simp [chars, negative_decimalText]

end UpgradeSafety.Json
