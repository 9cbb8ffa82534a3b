import UpgradeSafety.Json.Access
import UpgradeSafety.Proofs.Json.RoundTrip
import UpgradeSafety.Proofs.Json.Same
import UpgradeSafety.Proofs.Runs
import UpgradeSafety.Proofs.Tables

/-!
# What is read can be written

A value that was read from a text has no field twice in any of its objects, and its integers may be
written (`parse_isSound`): a repeated field is entered in its first place, and integers of too many
digits are refused.

The reader consists of three functions that call each other, for a value, for the elements of a
list and for the fields of an object, with the number of steps that are left. The invariant is that
what was read so far is sound (`AreSound`), and it goes through all three in one induction on that
number (`isSound_read`).

The second half of the module is about parts. A value is read back exactly (`IsExact`) or is the
same as itself (`IsReflexive`) when its parts are, and every way in which a part of a value is
taken, a field, an element or a table, gives a value without repeated fields when the whole is one.
Everything that is stored in files is put together from these.
-/

namespace UpgradeSafety.Json

open Numeral

/-- No object within a value has a field twice, and all integers within it may be written. -/
def IsSound (v : Json) : Prop := v.IsTidy ∧ v.isWritable = true

theorem isSound_str (s : String) : (str s).IsSound := ⟨trivial, rfl⟩

theorem isSound_arr {items : List Json} : (arr items).IsSound ↔ ∀ v ∈ items, v.IsSound := by
  rw [IsSound, IsTidy, isWritable, areTidy_iff, areWritable_iff]
  exact ⟨fun h v hv => ⟨h.1 v hv, h.2 v hv⟩, fun h => ⟨fun v hv => (h v hv).1, fun v hv => (h v hv).2⟩⟩

theorem isSound_obj {fields : Fields} : (obj fields).IsSound ↔
    (fields.map (·.1)).Nodup ∧ ∀ f ∈ fields, f.2.IsSound := by
  rw [IsSound, IsTidy, isWritable, fieldsAreTidy_iff, fieldsAreWritable_iff]
  exact ⟨fun h => ⟨h.1.1, fun f hf => ⟨h.1.2 f hf, h.2 f hf⟩⟩,
    fun h => ⟨⟨h.1, fun f hf => (h.2 f hf).1⟩, fun f hf => (h.2 f hf).2⟩⟩

/-! ## Numbers -/

theorem digitsValue_lt {ds : List Char} (h : ∀ c ∈ ds, c.isDigit = true) :
    digitsValue ds < 10 ^ ds.length := by
  have hfold : ∀ (es : List Char) (n : Nat), (∀ c ∈ es, c.isDigit = true) →
      es.foldl (fun n d => n * 10 + (d.toNat - 0x30)) n < (n + 1) * 10 ^ es.length := by
    intro es
    induction es with
    | nil => intro n _; simp
    | cons c es ih =>
      intro n hes
      have hc := isDigit_iff.mp (hes c List.mem_cons_self)
      refine Nat.lt_of_lt_of_le (ih _ fun d hd => hes d (List.mem_cons_of_mem c hd)) ?_
      rw [List.length_cons, Nat.pow_succ, Nat.mul_comm (10 ^ es.length) 10, ← Nat.mul_assoc]
      refine Nat.mul_le_mul_right _ ?_
      dsimp only
      omega
  have := hfold ds 0 h
  rwa [Nat.zero_add, Nat.one_mul] at this

theorem lt_pow_of_le {n k l : Nat} (hk : k ≤ l) (h : n < 10 ^ k) : n < Nat.pow 10 l :=
  Nat.lt_of_lt_of_le h (Nat.pow_le_pow_right (by decide) hk)

theorem isWritable_of_lt {n : Int} {k : Nat} (hk : k ≤ maxDecimalDigits) (h : n.natAbs < 10 ^ k) :
    Numeral.isWritable n = true := by
  rw [Numeral.isWritable, decide_eq_true_eq]
  exact lt_pow_of_le hk h

/-- The text of a number behind its sign. -/
def unsigned (cs : List Char) : List Char := if cs.head? == some '-' then cs.drop 1 else cs

theorem natAbs_signed (negative : Bool) (k : Nat) :
    (if negative then -(k : Int) else k).natAbs = k := by
  cases negative <;> simp

theorem match_sign_eq (cs : List Char) :
    (match cs with | '-' :: r => (true, r) | r => (false, r)).2 = unsigned cs := by
  unfold unsigned
  split
  · simp
  · rename_i hminus
    rw [if_neg]
    intro hhead
    cases cs with
    | nil => cases hhead
    | cons c cs =>
      obtain rfl : c = '-' := by simpa using hhead
      exact hminus cs rfl

/-- An integer that is read is zero, or what the digits behind its sign say. -/
theorem natAbs_of_readNumber {cs rest : List Char} {n : Int}
    (h : readNumber cs = some (.int n, rest)) :
    n.natAbs = 0 ∨ (∀ r, unsigned cs ≠ '0' :: r) ∧
      n.natAbs = digitsValue ((unsigned cs).takeWhile Char.isDigit) := by
  unfold readNumber at h
  dsimp only at h
  split at h
  · cases h
  · rename_i ds rest' hwhole
    split at h
    · injection h with h
      injection h with h
      injection h with h
      rw [← h, natAbs_signed]
      split at hwhole
      · cases hwhole
        exact Or.inl rfl
      · rename_i hzero hbody
        split at hwhole
        · cases hwhole
          rw [(match_sign_eq cs).symm.trans hbody]
          exact Or.inr ⟨fun r hr => hzero (List.cons.inj hr).1, rfl⟩
        · cases hwhole
      · cases hwhole
    · cases h

/-- What is read as a number without complaint is sound. -/
theorem isSound_readNumber {cs rest : List Char} {v : Json} (h : readNumber cs = some (v, rest))
    (hlong : overlong? v cs = none) : v.IsSound := by
  cases v with
  | int n =>
    refine ⟨trivial, ?_⟩
    rw [isWritable]
    rcases natAbs_of_readNumber h with hzero | ⟨hfirst, hvalue⟩
    · exact isWritable_of_lt (Nat.zero_le _) (by omega)
    · unfold overlong? at hlong
      rw [← unsigned] at hlong
      split at hlong
      · rename_i hbody
        exact absurd hbody (hfirst _)
      · dsimp only at hlong
        split at hlong
        · cases hlong
        · rename_i hle
          refine isWritable_of_lt (Nat.not_lt.mp hle) ?_
          rw [hvalue]
          exact digitsValue_lt fun c hc => List.all_eq_true.mp List.all_takeWhile c hc
      · rename_i hint _
        exact absurd rfl (hint n)
  | null | bool | float | str => exact ⟨trivial, rfl⟩
  | arr | obj =>
    unfold readNumber at h
    dsimp only at h
    split at h
    · cases h
    · split at h <;> cases h

theorem isSound_constant {word : String} {v : Json} (h : (word, v) ∈ constants) : v.IsSound := by
  simp only [constants, List.mem_cons, List.not_mem_nil, or_false, Prod.mk.injEq] at h
  rcases h with ⟨-, rfl⟩ | ⟨-, rfl⟩ | ⟨-, rfl⟩ | ⟨-, rfl⟩ | ⟨-, rfl⟩ | ⟨-, rfl⟩ <;>
    exact ⟨trivial, rfl⟩

/-! ## Values -/

/-- The fields read so far: none twice, and all of their values sound. -/
def AreSound (fields : Fields) : Prop := (obj fields).IsSound

theorem AreSound.putField {fields : Fields} (h : AreSound fields) (name : String) {v : Json}
    (hv : v.IsSound) : AreSound (putField name v fields) := by
  rw [AreSound, isSound_obj] at h ⊢
  refine ⟨nodup_putField h.1, fun f hf => ?_⟩
  rcases mem_putField hf with rfl | hf
  · exact hv
  · exact h.2 f hf

/-- What the three readers give is sound, when what they were given is. -/
theorem isSound_read (fuel : Nat) :
    (∀ cs v rest, readValue fuel cs = .ok (v, rest) → v.IsSound) ∧
    (∀ read cs items rest, (∀ v ∈ read, v.IsSound) → readItems fuel read cs = .ok (items, rest) →
      ∀ v ∈ items, v.IsSound) ∧
    (∀ read cs fields rest, AreSound read → readFields fuel read cs = .ok (fields, rest) →
      AreSound fields) := by
  induction fuel with
  | zero =>
    refine ⟨fun cs v rest h => ?_, fun read cs items rest _ h => ?_,
      fun read cs fields rest _ h => ?_⟩
    · rw [readValue, complain] at h; cases h
    · rw [readItems, complain] at h; cases h
    · rw [readFields, complain] at h; cases h
  | succ fuel ih =>
    obtain ⟨ihValue, ihItems, ihFields⟩ := ih
    refine ⟨fun cs v rest h => ?_, fun read cs items rest hread h => ?_,
      fun read cs fields rest hread h => ?_⟩
    · unfold readValue at h
      split at h
      · obtain ⟨⟨name, rest'⟩, -, h⟩ := bind_eq_ok_iff.mp h
        cases h
        exact isSound_str name
      · split at h
        · cases h
          exact isSound_arr.mpr (List.forall_mem_nil _)
        · obtain ⟨⟨items, rest'⟩, hitems, h⟩ := bind_eq_ok_iff.mp h
          cases h
          exact isSound_arr.mpr (ihItems [] _ items _ (List.forall_mem_nil _) hitems)
      · split at h
        · cases h
          exact isSound_obj.mpr ⟨List.nodup_nil, List.forall_mem_nil _⟩
        · obtain ⟨⟨fields, rest'⟩, hfields, h⟩ := bind_eq_ok_iff.mp h
          cases h
          exact ihFields [] _ fields _ (isSound_obj.mpr ⟨List.nodup_nil, List.forall_mem_nil _⟩) hfields
      · split at h
        · rename_i found hfound
          cases h
          obtain ⟨⟨word, w⟩, hmem, hword⟩ := List.exists_of_findSome?_eq_some hfound
          obtain ⟨rest', -, heq⟩ := Option.map_eq_some_iff.mp hword
          cases heq
          exact isSound_constant hmem
        · split at h
          · rename_i w rest' hnumber
            split at h
            · cases h
            · rename_i hlong
              cases h
              exact isSound_readNumber hnumber hlong
          · cases h
    · unfold readItems at h
      obtain ⟨⟨v, rest'⟩, hv, h⟩ := bind_eq_ok_iff.mp h
      have hvread : ∀ w ∈ v :: read, w.IsSound := List.forall_mem_cons.mpr ⟨ihValue _ _ _ hv, hread⟩
      dsimp only at h
      split at h
      · cases h
        exact fun w hw => hvread w (List.mem_reverse.mp hw)
      · exact ihItems _ _ items rest hvread h
      · cases h
    · unfold readFields at h
      split at h
      · obtain ⟨⟨name, rest'⟩, -, h⟩ := bind_eq_ok_iff.mp h
        dsimp only at h
        split at h
        · obtain ⟨⟨v, rest''⟩, hv, h⟩ := bind_eq_ok_iff.mp h
          have hvread := hread.putField name (ihValue _ _ _ hv)
          dsimp only at h
          split at h
          · cases h
            exact hvread
          · exact ihFields _ _ fields rest hvread h
          · cases h
        · cases h
      · cases h

/-- What is read from a text is sound. -/
theorem parse_isSound {s : String} {v : Json} (h : parse s = .ok v) : v.IsSound := by
  unfold parse at h
  dsimp only at h
  split at h
  · cases h
  · obtain ⟨⟨w, rest⟩, hw, h⟩ := bind_eq_ok_iff.mp h
    dsimp only at h
    split at h
    · cases h
      exact (isSound_read _).1 _ _ _ hw
    · cases h

/-! ## Values that are read back exactly -/

/-- A value that is read back as it is, and is the same as itself. -/
structure IsExact (v : Json) : Prop where
  isSound : v.IsSound
  reread_eq : v.reread = v
  same_self : v.same v = true

theorem isExact_str (s : String) : (str s).IsExact := ⟨isSound_str s, rfl, same_str_iff.mpr rfl⟩

theorem isExact_bool (b : Bool) : (bool b).IsExact :=
  ⟨⟨trivial, rfl⟩, rfl, by cases b <;> rfl⟩

theorem isExact_int {n : Int} (h : Numeral.isWritable n = true) : (int n).IsExact := by
  refine ⟨⟨trivial, ?_⟩, rfl, same_int_iff.mpr rfl⟩
  rw [isWritable]
  exact h

theorem reread_obj (fields : Fields) :
    (obj fields).reread = .obj (fields.map fun f => (f.1, f.2.reread)) := by
  rw [reread, rereadFields_eq_map]

theorem isExact_arr {items : List Json} (h : ∀ v ∈ items, v.IsExact) : (arr items).IsExact := by
  refine ⟨isSound_arr.mpr fun v hv => (h v hv).isSound, ?_,
    arr_same_self_iff.mpr fun v hv => (h v hv).same_self⟩
  rw [reread, rereadItems_eq_map, List.map_congr_left fun v hv => (h v hv).reread_eq, List.map_id']

theorem isExact_obj {fields : Fields} (hkeys : (fields.map (·.1)).Nodup)
    (h : ∀ f ∈ fields, f.2.IsExact) : (obj fields).IsExact := by
  refine ⟨isSound_obj.mpr ⟨hkeys, fun f hf => (h f hf).isSound⟩, ?_,
    (obj_same_self_iff hkeys).mpr fun f hf => (h f hf).same_self⟩
  rw [reread_obj, List.map_congr_left fun f hf =>
    show (f.1, f.2.reread) = f by rw [(h f hf).reread_eq], List.map_id']

/-! ## Values without repeated fields -/

theorem isTidy_arr {items : List Json} : (arr items).IsTidy ↔ ∀ v ∈ items, v.IsTidy := areTidy_iff

theorem isTidy_obj {fields : Fields} :
    (obj fields).IsTidy ↔ (fields.map (·.1)).Nodup ∧ ∀ f ∈ fields, f.2.IsTidy :=
  and_congr_right fun _ => fieldsAreTidy_iff

/-- No object within a value has a field twice, and the value is the same as itself. -/
def IsReflexive (v : Json) : Prop := v.IsTidy ∧ v.same v = true

theorem IsExact.isReflexive {v : Json} (h : v.IsExact) : v.IsReflexive :=
  ⟨h.isSound.1, h.same_self⟩

theorem isReflexive_arr {items : List Json} :
    (arr items).IsReflexive ↔ ∀ v ∈ items, v.IsReflexive := by
  rw [IsReflexive, isTidy_arr, arr_same_self_iff, ← forall₂_and]
  rfl

theorem isReflexive_obj {fields : Fields} :
    (obj fields).IsReflexive ↔ (fields.map (·.1)).Nodup ∧ ∀ f ∈ fields, f.2.IsReflexive := by
  rw [IsReflexive, isTidy_obj, and_assoc]
  refine and_congr_right fun hkeys => ?_
  rw [obj_same_self_iff hkeys, ← forall₂_and]
  rfl

/-! ## Parts of values without repeated fields

Every way of access to a value in which no object has a field twice leads to such a value again. -/

namespace IsTidy

variable {v w : Json}

theorem emptyObj : (obj []).IsTidy := isTidy_obj.mpr ⟨List.nodup_nil, nofun⟩

theorem lookup {fields : Fields} {key : String} (h : (obj fields).IsTidy)
    (hw : fields.lookup key = some w) : w.IsTidy :=
  (isTidy_obj.mp h).2 _ (mem_of_lookup_eq_some hw)

theorem field? {key : String} (h : v.IsTidy) (hw : v.field? key = some w) : w.IsTidy := by
  cases v with
  | obj fields => exact h.lookup hw
  | null | bool | int | float | str | arr => cases hw

theorem field (h : v.IsTidy) (key : String) : (v.field key).IsTidy := by
  unfold Json.field
  cases hw : v.field? key with
  | none => trivial
  | some w => exact h.field? hw

theorem getOr {key : String} {default : Json} (h : v.IsTidy) (hdefault : default.IsTidy)
    (hw : v.getOr key default = .ok w) : w.IsTidy := by
  obtain ⟨found, hfound, rfl⟩ := map_eq_ok_iff.mp hw
  cases v with
  | obj fields =>
    cases hfound
    cases hlookup : fields.lookup key with
    | none => exact hdefault
    | some w => exact h.lookup hlookup
  | null | bool | int | float | str | arr => cases hfound

theorem get {key : String} (h : v.IsTidy) (hw : v.get key = .ok w) : w.IsTidy :=
  have hnull : Json.null.IsTidy := trivial
  h.getOr hnull hw

theorem entries {fields : Fields} (h : v.IsTidy) (hfields : v.entries = .ok fields) :
    ∀ f ∈ fields, f.2.IsTidy := by
  cases v with
  | obj fields =>
    cases hfields
    exact (isTidy_obj.mp h).2
  | null | bool | int | float | str | arr => cases hfields

theorem orElse (hv : v.IsTidy) (hw : w.IsTidy) : (v.orElse w).IsTidy := by
  unfold Json.orElse
  split
  · exact hv
  · exact hw

end IsTidy

end UpgradeSafety.Json
