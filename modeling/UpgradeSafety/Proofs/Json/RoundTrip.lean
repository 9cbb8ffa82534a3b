import UpgradeSafety.Json.Display
import UpgradeSafety.Proofs.Json.Numbers
import UpgradeSafety.Proofs.Json.Strings
import UpgradeSafety.Proofs.Tables
import UpgradeSafety.Proofs.Text.Ascii

/-!
# Written values are read back

The indented text of a value is read as that value (`parse_writeIndented`), provided no object in
it has a field twice and its integers may be written. Only a float may come back as another one:
what its text says counts (`reread`).

The reader is followed along the text. Behind every value stands a text that does not go on with a
number (`EndsNumber`), and every value takes at most as many steps as it has characters. Both are
part of what is shown of a value by induction (`ReadsBack`): it is read back whatever stands behind
it and whatever number of steps is left, if that is not too small. Lists and objects are inductions
of their own inside, over their elements and fields, and use that no value begins with a blank or
with a closing bracket (`Opens`).

The text consists of ASCII characters without carriage returns (`isPlain_written`), so that nothing
is lost when it is stored in a file and read from it.
-/

namespace UpgradeSafety.Json

open Numeral

/-- Induction on values: through the elements of lists and the values of fields. -/
@[elab_as_elim]
theorem induct {P : Json → Prop} (null : P null) (bool : ∀ b, P (bool b)) (int : ∀ n, P (int n))
    (float : ∀ x, P (float x)) (str : ∀ s, P (str s))
    (arr : ∀ items, (∀ v ∈ items, P v) → P (arr items))
    (obj : ∀ fields, (∀ f ∈ fields, P f.2) → P (obj fields)) (v : Json) : P v :=
  Json.rec (motive_1 := P) (motive_2 := fun items => ∀ v ∈ items, P v)
    (motive_3 := fun fields => ∀ f ∈ fields, P f.2) (motive_4 := fun f => P f.2)
    null bool int float str arr obj (by simp) (fun _ _ hv hitems => List.forall_mem_cons.mpr ⟨hv, hitems⟩)
    (by simp) (fun _ _ hf hfields => List.forall_mem_cons.mpr ⟨hf, hfields⟩) (fun _ _ hv => hv) v

/-! ## Values without repeated fields -/

mutual

/-- No object within a value has a field twice. -/
def IsTidy : Json → Prop
  | arr items => AreTidy items
  | obj fields => (fields.map (·.1)).Nodup ∧ FieldsAreTidy fields
  | _ => True

/-- No object within the elements of a list has a field twice. -/
def AreTidy : List Json → Prop
  | [] => True
  | v :: rest => v.IsTidy ∧ AreTidy rest

/-- No object within the values of fields has a field twice. -/
def FieldsAreTidy : List (String × Json) → Prop
  | [] => True
  | (_, v) :: rest => v.IsTidy ∧ FieldsAreTidy rest

end

theorem areTidy_iff {items : List Json} : AreTidy items ↔ ∀ v ∈ items, v.IsTidy := by
  induction items with
  | nil => simp [AreTidy]
  | cons v items ih => simp [AreTidy, ih]

theorem fieldsAreTidy_iff {fields : Fields} :
    FieldsAreTidy fields ↔ ∀ f ∈ fields, f.2.IsTidy := by
  induction fields with
  | nil => simp [FieldsAreTidy]
  | cons f fields ih => simp [FieldsAreTidy, ih]

/-! ## What is read for a written value -/

/-- What is read for a written float. -/
def rereadFloat (x : Float) : Json :=
  match readValue 1 (writeFloat x).toList with
  | .ok (v, _) => v
  | .error _ => null

mutual

/-- What is read for a written value: the value itself, with floats as their texts say. -/
def reread : Json → Json
  | float x => rereadFloat x
  | arr items => arr (rereadItems items)
  | obj fields => obj (rereadFields fields)
  | v => v

/-- What is read for the elements of a list. -/
def rereadItems : List Json → List Json
  | [] => []
  | v :: rest => reread v :: rereadItems rest

/-- What is read for the fields of an object. -/
def rereadFields : List (String × Json) → List (String × Json)
  | [] => []
  | (k, v) :: rest => (k, reread v) :: rereadFields rest

end

theorem rereadItems_eq_map (items : List Json) : rereadItems items = items.map reread := by
  induction items with
  | nil => rfl
  | cons v items ih => rw [rereadItems, ih, List.map_cons]

theorem rereadFields_eq_map (fields : Fields) :
    rereadFields fields = fields.map fun f => (f.1, reread f.2) := by
  induction fields with
  | nil => rfl
  | cons f fields ih => rw [rereadFields, ih, List.map_cons]

/-! ## Scalars -/

theorem dropWord_append (word : String) (rest : List Char) :
    dropWord word (word.toList ++ rest) = some rest := by
  rw [dropWord, ← String.length_toList, List.take_left, List.drop_left, if_pos (BEq.rfl)]

theorem dropWord_eq_none {word : String} {cs : List Char} (h : ∀ rest, cs ≠ word.toList ++ rest) :
    dropWord word cs = none := by
  rw [dropWord, if_neg]
  intro htake
  refine h (cs.drop word.length) ?_
  rw [← eq_of_beq htake, List.take_append_drop]

/-- No text begins with two of the constants. -/
theorem constants_pairwise : constants.Pairwise fun p q =>
    ∀ rest rest', p.1.toList ++ rest ≠ q.1.toList ++ rest' := by
  simp [constants]

/-- Behind which word a constant is found. -/
theorem findSome?_dropWord {words : List (String × Json)}
    (hwords : words.Pairwise fun p q => ∀ rest rest', p.1.toList ++ rest ≠ q.1.toList ++ rest')
    {word : String} {v : Json} (h : (word, v) ∈ words) (rest : List Char) :
    (words.findSome? fun (word', v) =>
      (dropWord word' (word.toList ++ rest)).map fun rest => (v, rest)) = some (v, rest) := by
  induction words with
  | nil => cases h
  | cons p words ih =>
    rw [List.pairwise_cons] at hwords
    rw [List.findSome?_cons]
    rcases List.mem_cons.mp h with rfl | h
    · simp [dropWord_append]
    · have hother : dropWord p.1 (word.toList ++ rest) = none :=
        dropWord_eq_none fun rest' heq => hwords.1 _ h rest' rest heq.symm
      simp only [hother, Option.map_none]
      exact ih hwords.2 h

/-- No constant begins with a digit, nor with a minus and a digit. -/
theorem constants_of_numeral {t : NumeralText} (ht : t.IsSound) (rest : List Char) :
    (constants.findSome? fun (word, v) => (dropWord word (t.chars ++ rest)).map fun rest =>
      (v, rest)) = none := by
  obtain ⟨d, ds, hds⟩ := List.exists_cons_of_ne_nil ht.whole.1
  have hd : d.isDigit = true := ht.whole.2 d (hds ▸ List.mem_cons_self)
  have hword : ∀ p ∈ constants, dropWord p.1 (t.chars ++ rest) = none := by
    intro p hp
    refine dropWord_eq_none fun rest' h => ?_
    simp only [constants, List.mem_cons, List.not_mem_nil, or_false] at hp
    cases hneg : t.negative <;>
      rcases hp with rfl | rfl | rfl | rfl | rfl | rfl <;>
        simp [NumeralText.chars, hneg, hds] at h <;> simp [h.1] at hd
  exact List.findSome?_eq_none_iff.mpr fun p hp => by simp [hword p hp]

/-! ### The reader of values -/

variable (fuel : Nat)

/-- What is neither a string nor a list nor an object is a constant or a number. -/
theorem readValue_scalar {cs : List Char} (h : ∀ c ∈ cs.head?, c ≠ '"' ∧ c ≠ '[' ∧ c ≠ '\x7b') :
    readValue (fuel + 1) cs =
      match constants.findSome? fun (word, v) => (dropWord word cs).map fun rest => (v, rest) with
      | some found => .ok found
      | none => match readNumber cs with
        | some (v, rest) =>
          match overlong? v cs with
          | some digits => complain (.overlong digits) cs
          | none => .ok (v, rest)
        | none => complain .expectedValue cs :=
  readValue.eq_5 cs fuel (fun _ hcs => (h _ (by rw [hcs]; rfl)).1 rfl)
    (fun _ hcs => (h _ (by rw [hcs]; rfl)).2.1 rfl) (fun _ hcs => (h _ (by rw [hcs]; rfl)).2.2 rfl)

theorem readValue_constant {word : String} {v : Json} (h : (word, v) ∈ constants)
    (rest : List Char) : readValue (fuel + 1) (word.toList ++ rest) = .ok (v, rest) := by
  rw [readValue_scalar, findSome?_dropWord constants_pairwise h]
  simp only [constants, List.mem_cons, List.not_mem_nil, or_false, Prod.mk.injEq] at h
  rcases h with ⟨rfl, -⟩ | ⟨rfl, -⟩ | ⟨rfl, -⟩ | ⟨rfl, -⟩ | ⟨rfl, -⟩ | ⟨rfl, -⟩ <;> simp

/-- A number is read by the reader of values. -/
theorem readValue_chars {t : NumeralText} (ht : t.IsSound) {rest : List Char}
    (hrest : EndsNumber rest) (hlong : overlong? t.value (t.chars ++ rest) = none) :
    readValue (fuel + 1) (t.chars ++ rest) = .ok (t.value, rest) := by
  obtain ⟨d, ds, hds⟩ := List.exists_cons_of_ne_nil ht.whole.1
  have hd : d.isDigit = true := ht.whole.2 d (hds ▸ List.mem_cons_self)
  have hscalar : ∀ c ∈ (t.chars ++ rest).head?, c ≠ '"' ∧ c ≠ '[' ∧ c ≠ '\x7b' := by
    intro c hc
    unfold NumeralText.chars at hc
    split at hc
    · obtain rfl : '-' = c := by simpa using hc
      exact ⟨by decide, by decide, by decide⟩
    · obtain rfl : d = c := by simpa [hds] using hc
      refine ⟨?_, ?_, ?_⟩ <;> rintro rfl <;> exact absurd hd (by decide)
  rw [readValue_scalar fuel hscalar, constants_of_numeral ht rest]
  simp only [readNumber_chars ht hrest, hlong]

theorem readValue_int {n : Int} (h : Numeral.isWritable n = true) {rest : List Char}
    (hrest : EndsNumber rest) :
    readValue (fuel + 1) ((toString n).toList ++ rest) = .ok (.int n, rest) := by
  have hlong := overlong?_toString h hrest
  rw [← chars_integerText] at hlong ⊢
  rw [readValue_chars fuel (integerText_isSound n) hrest (by rwa [value_integerText]),
    value_integerText]

theorem readValue_floatText (negative : Bool) (m : Nat) (q : Int) {rest : List Char}
    (hrest : EndsNumber rest) : readValue (fuel + 1) ((floatText negative m q).chars ++ rest) =
      .ok ((floatText negative m q).value, rest) := by
  have hfloat := NumeralText.value_of_isFloat (floatText_isFloat negative m q)
  exact readValue_chars fuel (floatText_isSound negative m q) hrest (by rw [hfloat]; rfl)

theorem readValue_float (x : Float) {rest : List Char} (hrest : EndsNumber rest) :
    readValue (fuel + 1) ((writeFloat x).toList ++ rest) = .ok (rereadFloat x, rest) := by
  -- the same value is read whatever stands behind the text and whatever the fuel
  suffices h : ∃ v, ∀ fuel rest, EndsNumber rest →
      readValue (fuel + 1) ((writeFloat x).toList ++ rest) = .ok (v, rest) by
    obtain ⟨v, hv⟩ := h
    have hself := hv 0 [] endsNumber_nil
    rw [List.append_nil] at hself
    rw [hv fuel rest hrest, rereadFloat, hself]
  have hconstant (h : writeFloat x ∈ constants.map (·.1)) : ∃ v, ∀ fuel rest, EndsNumber rest →
      readValue (fuel + 1) ((writeFloat x).toList ++ rest) = .ok (v, rest) := by
    obtain ⟨⟨word, v⟩, hmem, hword⟩ := List.mem_map.mp h
    exact ⟨v, fun fuel rest _ => hword ▸ readValue_constant fuel hmem rest⟩
  cases hx : Binary64.ofFloat x with
  | nan => exact hconstant (by simp [constants, writeFloat, hx])
  | infinite negative => exact hconstant (by cases negative <;> simp [constants, writeFloat, hx])
  | finite negative m q =>
    refine ⟨(floatText negative m q).value, fun fuel rest hrest => ?_⟩
    rw [toList_writeFloat hx, readValue_floatText fuel negative m q hrest]

theorem readValue_str (s : String) (rest : List Char) :
    readValue (fuel + 1) ((writeString s).toList ++ rest) = .ok (.str s, rest) := by
  rw [toList_writeString, readValue.eq_2, readString_writeString]
  rfl

/-! ## Lists and objects -/

/-- The characters of the indented text of a value. -/
def indentedChars (depth : Nat) (v : Json) : List Char := (writeIndented depth v).toList

/-- The characters of the elements after the first. -/
def itemsChars (depth : Nat) (items : List Json) : List Char :=
  (writeIndentedItems depth items).toList

/-- The characters of the fields after the first. -/
def fieldsChars (depth : Nat) (fields : Fields) : List Char :=
  (writeIndentedFields depth fields).toList

/-- The characters of a line break with its indentation. -/
def newlineChars (depth : Nat) : List Char := '\n' :: List.replicate (2 * depth) ' '

theorem toList_newline (depth : Nat) : (newline depth).toList = newlineChars depth := by
  simp [newline, newlineChars]

theorem indentedChars_arr (depth : Nat) (v : Json) (items : List Json) :
    indentedChars depth (arr (v :: items)) = '[' :: (newlineChars (depth + 1) ++
      (indentedChars (depth + 1) v ++ (itemsChars (depth + 1) items ++
        (newlineChars depth ++ [']'])))) := by
  simp [indentedChars, itemsChars, writeIndented, toList_newline]

theorem indentedChars_obj (depth : Nat) (k : String) (v : Json) (fields : Fields) :
    indentedChars depth (obj ((k, v) :: fields)) = '\x7b' :: (newlineChars (depth + 1) ++
      ((writeString k).toList ++ (':' :: ' ' :: (indentedChars (depth + 1) v ++
        (fieldsChars (depth + 1) fields ++ (newlineChars depth ++ ['\x7d'])))))) := by
  simp [indentedChars, fieldsChars, writeIndented, toList_newline]

theorem itemsChars_cons (depth : Nat) (v : Json) (items : List Json) :
    itemsChars depth (v :: items) = ',' :: (newlineChars depth ++
      (indentedChars depth v ++ itemsChars depth items)) := by
  simp [indentedChars, itemsChars, writeIndentedItems, toList_newline]

theorem fieldsChars_cons (depth : Nat) (k : String) (v : Json) (fields : Fields) :
    fieldsChars depth ((k, v) :: fields) = ',' :: (newlineChars depth ++
      ((writeString k).toList ++ (':' :: ' ' :: (indentedChars depth v ++
        fieldsChars depth fields)))) := by
  simp [indentedChars, fieldsChars, writeIndentedFields, toList_newline]

theorem skipSpace_newlineChars (depth : Nat) (rest : List Char) :
    skipSpace (newlineChars depth ++ rest) = skipSpace rest := by
  simp [skipSpace, newlineChars, isSpace, List.dropWhile_append]

theorem skipSpace_cons {c : Char} (h : isSpace c = false) (rest : List Char) :
    skipSpace (c :: rest) = c :: rest := by
  simp [skipSpace, h]

/-- Characters with which values begin: neither blanks nor closing brackets. -/
def Opens (c : Char) : Prop := isSpace c = false ∧ c ≠ ']' ∧ c ≠ '\ufeff'

instance (c : Char) : Decidable (Opens c) := inferInstanceAs (Decidable (_ ∧ _))

theorem opens_of_isDigit {c : Char} (h : c.isDigit = true) : Opens c := by
  refine ⟨?_, ?_, ?_⟩
  · simp only [isSpace, Bool.or_eq_false_iff, beq_eq_false_iff_ne]
    refine ⟨⟨⟨?_, ?_⟩, ?_⟩, ?_⟩ <;> rintro rfl <;> exact absurd h (by decide)
  · rintro rfl
    exact absurd h (by decide)
  · rintro rfl
    exact absurd h (by decide)

theorem opens_chars {t : NumeralText} (ht : t.IsSound) :
    ∃ c cs, t.chars = c :: cs ∧ Opens c := by
  obtain ⟨d, ds, hds⟩ := List.exists_cons_of_ne_nil ht.whole.1
  unfold NumeralText.chars
  split
  · exact ⟨'-', _, rfl, by decide⟩
  · exact ⟨d, _, by rw [hds]; rfl, opens_of_isDigit (ht.whole.2 d (hds ▸ List.mem_cons_self))⟩

theorem opens_indentedChars (depth : Nat) (v : Json) :
    ∃ c cs, indentedChars depth v = c :: cs ∧ Opens c := by
  cases v with
  | null => exact ⟨'n', ['u', 'l', 'l'], by simp [indentedChars, writeIndented], by decide⟩
  | bool b =>
    cases b with
    | true => exact ⟨'t', ['r', 'u', 'e'], by simp [indentedChars, writeIndented], by decide⟩
    | false => exact ⟨'f', ['a', 'l', 's', 'e'], by simp [indentedChars, writeIndented], by decide⟩
  | int n =>
    rw [show indentedChars depth (int n) = (toString n).toList by simp [indentedChars, writeIndented],
      ← chars_integerText]
    exact opens_chars (integerText_isSound n)
  | float x =>
    rw [show indentedChars depth (float x) = (writeFloat x).toList by
      simp [indentedChars, writeIndented]]
    cases hx : Binary64.ofFloat x with
    | nan => exact ⟨'N', ['a', 'N'], by simp [writeFloat, hx], by decide⟩
    | infinite negative =>
      cases negative with
      | true => exact ⟨'-', "Infinity".toList, by simp [writeFloat, hx], by decide⟩
      | false => exact ⟨'I', "nfinity".toList, by simp [writeFloat, hx], by decide⟩
    | finite negative m q =>
      rw [toList_writeFloat hx]
      exact opens_chars (floatText_isSound negative m q)
  | str s => exact ⟨'"', _, by simp [indentedChars, writeIndented, writeString]; rfl, by decide⟩
  | arr items =>
    cases items with
    | nil => exact ⟨'[', [']'], by simp [indentedChars, writeIndented], by decide⟩
    | cons v items => exact ⟨'[', _, indentedChars_arr depth v items, by decide⟩
  | obj fields =>
    cases fields with
    | nil => exact ⟨'\x7b', ['\x7d'], by simp [indentedChars, writeIndented], by decide⟩
    | cons f fields => exact ⟨'\x7b', _, indentedChars_obj depth f.1 f.2 fields, by decide⟩

theorem skipSpace_indentedChars (depth : Nat) (v : Json) (rest : List Char) :
    skipSpace (indentedChars depth v ++ rest) = indentedChars depth v ++ rest := by
  obtain ⟨c, cs, hcs, hc⟩ := opens_indentedChars depth v
  rw [hcs, List.cons_append, skipSpace_cons hc.1]

theorem length_indentedChars_pos (depth : Nat) (v : Json) :
    0 < (indentedChars depth v).length := by
  obtain ⟨c, cs, hcs, -⟩ := opens_indentedChars depth v
  simp [hcs]

/-! ## Reading back -/

theorem endsNumber_newlineChars (depth : Nat) (rest : List Char) :
    EndsNumber (newlineChars depth ++ rest) := by
  rintro c ⟨⟩
  decide

theorem endsNumber_cons_comma (rest : List Char) : EndsNumber (',' :: rest) := by
  rintro c ⟨⟩
  decide

variable {fuel} {cs rest rest' : List Char} {v : Json}

theorem readItems_last (read : List Json) (hvalue : readValue fuel cs = .ok (v, rest))
    (hrest : skipSpace rest = ']' :: rest') :
    readItems (fuel + 1) read cs = .ok (read.reverse ++ [v], rest') := by
  rw [readItems.eq_2, hvalue]
  simp only [bind, Except.bind, hrest, List.reverse_cons]

theorem readItems_next {read : List Json} (hvalue : readValue fuel cs = .ok (v, rest))
    (hrest : skipSpace rest = ',' :: rest') :
    readItems (fuel + 1) read cs = readItems fuel (v :: read) (skipSpace rest') := by
  rw [readItems.eq_2, hvalue]
  simp only [bind, Except.bind, hrest]

theorem skipSpace_blank (hcs : skipSpace cs = cs) : skipSpace (' ' :: cs) = cs :=
  (show skipSpace (' ' :: cs) = skipSpace cs by simp [skipSpace, isSpace]).trans hcs

/-- The last field: a name, the colon, a blank and the value. -/
theorem readFields_last {name : String} {read : Fields} (hcs : skipSpace cs = cs)
    (hvalue : readValue fuel cs = .ok (v, rest)) (hrest : skipSpace rest = '\x7d' :: rest') :
    readFields (fuel + 1) read ((writeString name).toList ++ ':' :: ' ' :: cs) =
      .ok (putField name v read, rest') := by
  have hcolon : skipSpace (':' :: ' ' :: cs) = ':' :: ' ' :: cs := skipSpace_cons (by decide) _
  rw [toList_writeString, readFields.eq_2, readString_writeString]
  simp only [bind, Except.bind, hcolon, skipSpace_blank hcs, hvalue, hrest]

theorem readFields_next {name : String} {read : Fields} (hcs : skipSpace cs = cs)
    (hvalue : readValue fuel cs = .ok (v, rest)) (hrest : skipSpace rest = ',' :: rest') :
    readFields (fuel + 1) read ((writeString name).toList ++ ':' :: ' ' :: cs) =
      readFields fuel (putField name v read) (skipSpace rest') := by
  have hcolon : skipSpace (':' :: ' ' :: cs) = ':' :: ' ' :: cs := skipSpace_cons (by decide) _
  rw [toList_writeString, readFields.eq_2, readString_writeString]
  simp only [bind, Except.bind, hcolon, skipSpace_blank hcs, hvalue, hrest]

theorem skipSpace_writeString (s : String) (rest : List Char) :
    skipSpace ((writeString s).toList ++ rest) = (writeString s).toList ++ rest := by
  rw [toList_writeString, skipSpace_cons (by decide)]

/-- A value is read back from its indented text, whatever stands behind it. -/
def ReadsBack (v : Json) : Prop :=
  ∀ depth fuel rest, EndsNumber rest → (indentedChars depth v).length ≤ fuel →
    readValue fuel (indentedChars depth v ++ rest) = .ok (v.reread, rest)

/-- The elements of a list are read up to the closing bracket. -/
theorem readItems_itemsChars {v : Json} {items : List Json} (hv : v.ReadsBack)
    (hitems : ∀ w ∈ items, w.ReadsBack) (depth outer fuel : Nat) (read : List Json)
    (rest : List Char)
    (hfuel : (indentedChars depth v).length + (itemsChars depth items).length < fuel) :
    readItems fuel read (indentedChars depth v ++ (itemsChars depth items ++
      (newlineChars outer ++ ']' :: rest))) =
      .ok (read.reverse ++ (v :: items).map reread, rest) := by
  have hclose : skipSpace (newlineChars outer ++ ']' :: rest) = ']' :: rest := by
    rw [skipSpace_newlineChars, skipSpace_cons (by decide)]
  induction items generalizing v fuel read with
  | nil =>
    obtain ⟨fuel, rfl⟩ : ∃ k, fuel = k + 1 := ⟨fuel - 1, by omega⟩
    have hvalue := hv depth fuel (newlineChars outer ++ ']' :: rest)
      (endsNumber_newlineChars _ _) (by omega)
    simpa [itemsChars, writeIndentedItems] using readItems_last read hvalue hclose
  | cons w items ih =>
    obtain ⟨fuel, rfl⟩ : ∃ k, fuel = k + 1 := ⟨fuel - 1, by omega⟩
    have hpos := length_indentedChars_pos depth v
    rw [itemsChars_cons] at hfuel ⊢
    simp only [List.length_cons, List.length_append] at hfuel
    simp only [List.cons_append, List.append_assoc]
    have hvalue := hv depth fuel (',' :: (newlineChars depth ++ (indentedChars depth w ++
      (itemsChars depth items ++ (newlineChars outer ++ ']' :: rest)))))
      (endsNumber_cons_comma _) (by omega)
    rw [readItems_next hvalue (skipSpace_cons (by decide) _), skipSpace_newlineChars,
      skipSpace_indentedChars, ih (hitems w List.mem_cons_self)
        (fun u hu => hitems u (List.mem_cons_of_mem w hu)) fuel _ (by omega)]
    simp

/-- The fields of an object are read up to the closing brace. -/
theorem readFields_fieldsChars {k : String} {v : Json} {fields : Fields} (hv : v.ReadsBack)
    (hfields : ∀ f ∈ fields, f.2.ReadsBack) (depth outer fuel : Nat) (read : Fields)
    (rest : List Char) (hnodup : (read.map (·.1) ++ k :: fields.map (·.1)).Nodup)
    (hfuel : (indentedChars depth v).length + (fieldsChars depth fields).length < fuel) :
    readFields fuel read ((writeString k).toList ++ ':' :: ' ' :: (indentedChars depth v ++
      (fieldsChars depth fields ++ (newlineChars outer ++ '\x7d' :: rest)))) =
      .ok (read ++ ((k, v) :: fields).map (fun f => (f.1, f.2.reread)), rest) := by
  have hclose : skipSpace (newlineChars outer ++ '\x7d' :: rest) = '\x7d' :: rest := by
    rw [skipSpace_newlineChars, skipSpace_cons (by decide)]
  induction fields generalizing k v fuel read with
  | nil =>
    obtain ⟨fuel, rfl⟩ : ∃ n, fuel = n + 1 := ⟨fuel - 1, by omega⟩
    have hvalue := hv depth fuel (newlineChars outer ++ '\x7d' :: rest)
      (endsNumber_newlineChars _ _) (by omega)
    have hk : k ∉ read.map (·.1) := fun h => by
      simpa using (List.nodup_append.mp hnodup).2.2 k h k List.mem_cons_self
    rw [show fieldsChars depth [] = [] by simp [fieldsChars, writeIndentedFields],
      List.nil_append, readFields_last (skipSpace_indentedChars depth v _) hvalue hclose]
    simp [putField_not_mem hk]
  | cons f fields ih =>
    obtain ⟨l, w⟩ := f
    obtain ⟨fuel, rfl⟩ : ∃ n, fuel = n + 1 := ⟨fuel - 1, by omega⟩
    have hpos := length_indentedChars_pos depth v
    rw [fieldsChars_cons] at hfuel ⊢
    simp only [List.length_cons, List.length_append] at hfuel
    simp only [List.cons_append, List.append_assoc]
    have hvalue := hv depth fuel (',' :: (newlineChars depth ++ ((writeString l).toList ++
      ':' :: ' ' :: (indentedChars depth w ++ (fieldsChars depth fields ++
        (newlineChars outer ++ '\x7d' :: rest)))))) (endsNumber_cons_comma _) (by omega)
    have hk : k ∉ read.map (·.1) := fun h => by
      simpa using (List.nodup_append.mp hnodup).2.2 k h k List.mem_cons_self
    have hw : w.ReadsBack := hfields (l, w) List.mem_cons_self
    rw [readFields_next (skipSpace_indentedChars depth v _) hvalue (skipSpace_cons (by decide) _),
      putField_not_mem hk, skipSpace_newlineChars, skipSpace_writeString,
      ih hw (fun g hg => hfields g (List.mem_cons_of_mem _ hg)) fuel _ (by simpa using hnodup)
        (by omega)]
    simp

theorem readsBack_of_scalar {v : Json} (h : ∀ fuel rest, EndsNumber rest →
    readValue (fuel + 1) (indentedChars 0 v ++ rest) = .ok (v.reread, rest))
    (hdepth : ∀ depth, indentedChars depth v = indentedChars 0 v := by intro; rfl) :
    v.ReadsBack := by
  intro depth fuel rest hrest hfuel
  have hpos := length_indentedChars_pos depth v
  obtain ⟨fuel, rfl⟩ : ∃ k, fuel = k + 1 := ⟨fuel - 1, by omega⟩
  rw [hdepth]
  exact h fuel rest hrest

theorem areWritable_iff {items : List Json} :
    areWritable items = true ↔ ∀ v ∈ items, v.isWritable = true := by
  induction items with
  | nil => simp [areWritable]
  | cons v items ih => simp [areWritable, ih]

theorem fieldsAreWritable_iff {fields : Fields} :
    fieldsAreWritable fields = true ↔ ∀ f ∈ fields, f.2.isWritable = true := by
  induction fields with
  | nil => simp [fieldsAreWritable]
  | cons f fields ih =>
    rw [fieldsAreWritable, Bool.and_eq_true, ih, List.forall_mem_cons]

theorem readValue_arr {v : Json} {items : List Json} (hitems : ∀ w ∈ v :: items, w.ReadsBack) :
    ReadsBack (arr (v :: items)) := by
  intro depth fuel rest _ hfuel
  rw [indentedChars_arr] at hfuel ⊢
  simp only [List.length_cons, List.length_append] at hfuel
  obtain ⟨fuel, rfl⟩ : ∃ k, fuel = k + 1 := ⟨fuel - 1, by omega⟩
  obtain ⟨c, cs, hcs, hc⟩ := opens_indentedChars (depth + 1) v
  have hread := readItems_itemsChars (hitems v List.mem_cons_self)
    (fun w hw => hitems w (List.mem_cons_of_mem v hw)) (depth + 1) depth fuel [] rest (by omega)
  simp only [List.cons_append, List.append_assoc, List.nil_append]
  rw [readValue.eq_3, skipSpace_newlineChars, skipSpace_indentedChars]
  rw [hcs] at hread ⊢
  split
  · rename_i h
    exact absurd (List.cons.inj h).1 hc.2.1
  · simp only [bind, Except.bind, hread, reread, rereadItems_eq_map, List.reverse_nil,
      List.nil_append]

theorem readValue_obj {k : String} {v : Json} {fields : Fields}
    (hnodup : (((k, v) :: fields).map (·.1)).Nodup)
    (hfields : ∀ f ∈ (k, v) :: fields, f.2.ReadsBack) : ReadsBack (obj ((k, v) :: fields)) := by
  intro depth fuel rest _ hfuel
  rw [indentedChars_obj] at hfuel ⊢
  simp only [List.length_cons, List.length_append] at hfuel
  obtain ⟨fuel, rfl⟩ : ∃ k, fuel = k + 1 := ⟨fuel - 1, by omega⟩
  have hv : v.ReadsBack := hfields (k, v) List.mem_cons_self
  have hread := readFields_fieldsChars hv (fun f hf => hfields f (List.mem_cons_of_mem _ hf))
    (depth + 1) depth fuel [] rest (by simpa using hnodup) (by omega)
  simp only [List.cons_append, List.append_assoc, List.nil_append]
  rw [readValue.eq_4, skipSpace_newlineChars, skipSpace_writeString]
  rw [toList_writeString] at hread ⊢
  split
  · rename_i h
    exact absurd (List.cons.inj h).1 (by decide)
  · simp only [bind, Except.bind, hread, reread, rereadFields_eq_map, List.nil_append]

/-- Values without repeated fields whose integers may be written are read back. -/
theorem readsBack (v : Json) (htidy : v.IsTidy) (hwritable : v.isWritable = true) :
    v.ReadsBack := by
  induction v using Json.induct with
  | null =>
    have hmem : ("null", null.reread) ∈ constants := by simp [constants, reread]
    exact readsBack_of_scalar fun fuel rest _ => readValue_constant fuel hmem rest
  | bool b =>
    refine readsBack_of_scalar fun fuel rest _ => ?_
    cases b with
    | true =>
      have hmem : ("true", (bool true).reread) ∈ constants := by simp [constants, reread]
      exact readValue_constant fuel hmem rest
    | false =>
      have hmem : ("false", (bool false).reread) ∈ constants := by simp [constants, reread]
      exact readValue_constant fuel hmem rest
  | int n =>
    rw [isWritable] at hwritable
    exact readsBack_of_scalar fun fuel rest hrest => readValue_int fuel hwritable hrest
  | float x => exact readsBack_of_scalar fun fuel rest hrest => readValue_float fuel x hrest
  | str s => exact readsBack_of_scalar fun fuel rest _ => readValue_str fuel s rest
  | arr items ih =>
    rw [isWritable, areWritable_iff] at hwritable
    cases items with
    | nil =>
      refine readsBack_of_scalar fun fuel rest _ => ?_
      simp [indentedChars, writeIndented, readValue, skipSpace, isSpace, reread, rereadItems]
    | cons v items =>
      exact readValue_arr fun w hw => ih w hw (areTidy_iff.mp htidy w hw) (hwritable w hw)
  | obj fields ih =>
    rw [isWritable, fieldsAreWritable_iff] at hwritable
    cases fields with
    | nil =>
      refine readsBack_of_scalar fun fuel rest _ => ?_
      simp [indentedChars, writeIndented, readValue, skipSpace, isSpace, reread, rereadFields]
    | cons f fields =>
      exact readValue_obj htidy.1 fun f hf =>
        ih f hf (fieldsAreTidy_iff.mp htidy.2 f hf) (hwritable f hf)

/-- A value is read back from its indented text and a line break. -/
theorem parse_writeIndented {v : Json} (htidy : v.IsTidy) (hwritable : v.isWritable = true) :
    parse (v.writeIndented 0 ++ "\n") = .ok v.reread := by
  obtain ⟨c, cs, hcs, hc⟩ := opens_indentedChars 0 v
  have htext : (v.writeIndented 0 ++ "\n").toList = indentedChars 0 v ++ ['\n'] := by
    simp [indentedChars]
  have hread := readsBack v htidy hwritable 0 (2 * (indentedChars 0 v ++ ['\n']).length + 1) ['\n']
    (by rintro c ⟨⟩; decide) (by simp; omega)
  have hstart : skipSpace (c :: (cs ++ ['\n'])) = c :: (cs ++ ['\n']) := skipSpace_cons hc.1 _
  have hend : skipSpace ['\n'] = [] := by simp [skipSpace, isSpace]
  unfold parse
  rw [htext]
  rw [hcs, List.cons_append] at hread ⊢
  dsimp only
  split
  · rename_i h
    exact absurd (List.cons.inj h).1 hc.2.2
  · rw [hstart, hread]
    simp only [bind, Except.bind, hend]

/-! ## Written values are ASCII texts -/

open Text

theorem isPlain_hexDigits (width n : Nat) : ∀ c ∈ hexDigits width n, IsPlain c := by
  induction width generalizing n with
  | zero => simp [hexDigits]
  | succ width ih =>
    have hdigit : ∀ k : Fin 16, IsPlain (hexDigit k) := by decide
    intro c hc
    rw [hexDigits, List.mem_append, List.mem_singleton] at hc
    rcases hc with hc | rfl
    · exact ih (n / 16) c hc
    · exact hdigit ⟨n % 16, Nat.mod_lt n (by decide)⟩

theorem isPlain_escapeUnit (n : Nat) : ∀ c ∈ escapeUnit n, IsPlain c :=
  List.forall_mem_cons.mpr ⟨by decide, List.forall_mem_cons.mpr ⟨by decide, isPlain_hexDigits 4 n⟩⟩

theorem isPlain_writeChar (c : Char) : ∀ d ∈ writeChar c, IsPlain d := by
  have hescape {d : Char} (hd : IsPlain d) : ∀ e ∈ ['\\', d], IsPlain e :=
    List.forall_mem_cons.mpr ⟨by decide, List.forall_mem_singleton.mpr hd⟩
  unfold writeChar
  split <;> try exact hescape (by decide)
  dsimp only
  split
  · rename_i _ _ _ _ hreturn _ _ _ hplain
    rw [Bool.and_eq_true, decide_eq_true_eq, decide_eq_true_eq] at hplain
    rintro d hd
    rw [List.mem_singleton.mp hd]
    exact ⟨by omega, hreturn⟩
  · split
    · exact isPlain_escapeUnit _
    · exact fun d hd => (List.mem_append.mp hd).elim (isPlain_escapeUnit _ d) (isPlain_escapeUnit _ d)

theorem isPlain_writeString (s : String) : ∀ c ∈ (writeString s).toList, IsPlain c := by
  intro c hc
  have hquote : IsPlain '"' := by decide
  rw [← List.append_nil (writeString s).toList, toList_writeString, List.mem_cons, List.mem_append,
    List.mem_flatMap, List.mem_singleton] at hc
  rcases hc with rfl | ⟨d, -, hd⟩ | rfl
  · exact hquote
  · exact isPlain_writeChar d c hd
  · exact hquote

theorem isPlain_of_isDigit {c : Char} (h : c.isDigit = true) : IsPlain c := by
  have := isDigit_iff.mp h
  exact ⟨by omega, fun hc => by rw [hc] at h; exact absurd h (by decide)⟩

theorem isPlain_chars {t : NumeralText} (ht : t.IsSound) : ∀ c ∈ t.chars, IsPlain c := by
  intro c hc
  simp only [NumeralText.chars, List.mem_append] at hc
  rcases hc with hc | hc | hc | hc
  · split at hc
    · rw [List.mem_singleton.mp hc]
      decide
    · cases hc
  · exact isPlain_of_isDigit (ht.whole.2 c hc)
  · cases hf : t.fraction with
    | none => simp [hf, NumeralText.fractionChars] at hc
    | some fs =>
      rw [hf, NumeralText.fractionChars, List.mem_cons] at hc
      rcases hc with rfl | hc
      · decide
      · exact isPlain_of_isDigit ((ht.fraction fs hf).2 c hc)
  · cases he : t.exponent with
    | none => simp [he, NumeralText.exponentChars] at hc
    | some e =>
      obtain ⟨negative, es⟩ := e
      rw [he, NumeralText.exponentChars, List.mem_cons, List.mem_cons] at hc
      rcases hc with rfl | rfl | hc
      · decide
      · split <;> decide
      · exact isPlain_of_isDigit ((ht.exponent _ he).2 c hc)

theorem isPlain_writeFloat (x : Float) : ∀ c ∈ (writeFloat x).toList, IsPlain c := by
  cases hx : Binary64.ofFloat x with
  | nan => simp [writeFloat, hx]; decide
  | infinite negative => cases negative <;> simp [writeFloat, hx] <;> decide
  | finite negative m q =>
    rw [toList_writeFloat hx]
    exact isPlain_chars (floatText_isSound negative m q)

theorem isPlain_newlineChars (depth : Nat) : ∀ c ∈ newlineChars depth, IsPlain c := by
  refine List.forall_mem_cons.mpr ⟨by decide, fun c hc => ?_⟩
  rw [(List.mem_replicate.mp hc).2]
  decide

theorem isPlain_itemsChars {items : List Json}
    (h : ∀ v ∈ items, ∀ depth, ∀ c ∈ indentedChars depth v, IsPlain c) (depth : Nat) :
    ∀ c ∈ itemsChars depth items, IsPlain c := by
  induction items with
  | nil => simp [itemsChars, writeIndentedItems]
  | cons v items ih =>
    rw [itemsChars_cons, List.forall_mem_cons, List.forall_mem_append, List.forall_mem_append]
    exact ⟨by decide, isPlain_newlineChars depth, h v List.mem_cons_self depth,
      ih fun w hw => h w (List.mem_cons_of_mem v hw)⟩

theorem isPlain_fieldsChars {fields : Fields}
    (h : ∀ f ∈ fields, ∀ depth, ∀ c ∈ indentedChars depth f.2, IsPlain c) (depth : Nat) :
    ∀ c ∈ fieldsChars depth fields, IsPlain c := by
  induction fields with
  | nil => simp [fieldsChars, writeIndentedFields]
  | cons f fields ih =>
    obtain ⟨k, v⟩ := f
    rw [fieldsChars_cons]
    simp only [List.forall_mem_cons, List.forall_mem_append]
    exact ⟨by decide, isPlain_newlineChars depth, isPlain_writeString k, by decide, by decide,
      h (k, v) List.mem_cons_self depth, ih fun g hg => h g (List.mem_cons_of_mem _ hg)⟩

theorem isPlain_indentedChars (v : Json) (depth : Nat) : ∀ c ∈ indentedChars depth v, IsPlain c := by
  induction v using Json.induct generalizing depth with
  | null => simp [indentedChars, writeIndented]; decide
  | bool b => cases b <;> simp [indentedChars, writeIndented] <;> decide
  | int n =>
    rw [show indentedChars depth (int n) = (toString n).toList by simp [indentedChars, writeIndented],
      ← chars_integerText]
    exact isPlain_chars (integerText_isSound n)
  | float x => simpa [indentedChars, writeIndented] using isPlain_writeFloat x
  | str s => simpa [indentedChars, writeIndented] using isPlain_writeString s
  | arr items ih =>
    cases items with
    | nil => simp [indentedChars, writeIndented]; decide
    | cons v items =>
      rw [indentedChars_arr]
      simp only [List.forall_mem_cons, List.forall_mem_append]
      exact ⟨by decide, isPlain_newlineChars _, ih v List.mem_cons_self _,
        isPlain_itemsChars (fun w hw => ih w (List.mem_cons_of_mem v hw)) _,
        isPlain_newlineChars _, by decide, fun c hc => by cases hc⟩
  | obj fields ih =>
    cases fields with
    | nil => simp [indentedChars, writeIndented]; decide
    | cons f fields =>
      obtain ⟨k, v⟩ := f
      rw [indentedChars_obj]
      simp only [List.forall_mem_cons, List.forall_mem_append]
      exact ⟨by decide, isPlain_newlineChars _, isPlain_writeString k, by decide, by decide,
        ih (k, v) List.mem_cons_self _,
        isPlain_fieldsChars (fun g hg => ih g (List.mem_cons_of_mem _ hg)) _,
        isPlain_newlineChars _, by decide, fun c hc => by cases hc⟩

/-- The text of a file that holds a value is ASCII, without carriage returns. -/
theorem isPlain_written (v : Json) : ∀ c ∈ (v.writeIndented 0 ++ "\n").toList, IsPlain c := by
  rw [String.toList_append, List.forall_mem_append]
  exact ⟨isPlain_indentedChars v 0, List.forall_mem_singleton.mpr (by decide)⟩

end UpgradeSafety.Json
