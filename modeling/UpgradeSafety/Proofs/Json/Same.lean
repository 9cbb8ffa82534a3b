import Mathlib
import UpgradeSafety.Json.Equality
import UpgradeSafety.Proofs.Tables

/-!
# Values that mean the same

What sameness says about the parts of two values. Two objects without repeated fields are the same
when each field of either one is a field of the other with the same value (`lookup_of_same_obj`). A
value is the same as itself, if its floats are numbers.

Sameness is decided by a recursion through lists and objects; here it is opened once. For each kind
of value there is one equivalence, which says what a value has to be to be the same as one of this
kind, and lists and objects are reduced to their elements and fields (`sameItems_cons`,
`sameFields_cons`). The names of the fields of two objects that are the same are the same up to
their order (`perm_keys_of_same_obj`), which gives back the number of fields that the recursion
compares.

What manifests and layouts conclude from "nothing has changed" rests on these lemmas: that question
is asked of the written values, and the answer has to be carried over to the records.
-/

namespace UpgradeSafety.Json

/-! ## Parts -/

-- These hold by definition, so that no proof has to unfold the mutual recursion itself.

theorem same_arr (as bs : List Json) : (arr as).same (arr bs) = sameItems as bs := rfl

theorem same_obj (as bs : Fields) :
    (obj as).same (obj bs) = (as.length == bs.length && sameFields as bs) := rfl

theorem sameItems_cons (v w : Json) (as bs : List Json) :
    sameItems (v :: as) (w :: bs) = (v.same w && sameItems as bs) := rfl

theorem sameFields_nil (bs : Fields) : sameFields [] bs = true := rfl

theorem sameFields_cons (key : String) (v : Json) (as bs : Fields) :
    sameFields ((key, v) :: as) bs =
      ((match bs.lookup key with
        | some w => v.same w
        | none => false) && sameFields as bs) := rfl

theorem same_arr_iff {as bs : List Json} :
    (arr as).same (arr bs) = true ↔ List.Forall₂ (fun v w => v.same w = true) as bs := by
  rw [same_arr]
  induction as generalizing bs with
  | nil =>
    cases bs with
    | nil => exact iff_of_true rfl .nil
    | cons w bs => exact iff_of_false Bool.false_ne_true nofun
  | cons v as ih =>
    cases bs with
    | nil => exact iff_of_false Bool.false_ne_true nofun
    | cons w bs => rw [sameItems_cons, Bool.and_eq_true, ih, List.forall₂_cons]

theorem sameFields_iff {as bs : Fields} :
    sameFields as bs = true ↔ ∀ f ∈ as, ∃ w, bs.lookup f.1 = some w ∧ f.2.same w = true := by
  induction as with
  | nil => simp [sameFields_nil]
  | cons f as ih =>
    obtain ⟨k, v⟩ := f
    rw [sameFields_cons, Bool.and_eq_true, ih, List.forall_mem_cons]
    refine and_congr_left fun _ => ?_
    cases bs.lookup k <;> simp

theorem same_obj_iff {as bs : Fields} :
    (obj as).same (obj bs) = true ↔
      as.length = bs.length ∧ ∀ f ∈ as, ∃ w, bs.lookup f.1 = some w ∧ f.2.same w = true := by
  rw [same_obj, Bool.and_eq_true, beq_iff_eq, sameFields_iff]

theorem same_str_iff {s : String} {v : Json} : (str s).same v = true ↔ v = str s := by
  cases v with
  | str t =>
    have hsame : (str s).same (str t) = (s == t) := rfl
    rw [hsame, beq_iff_eq, str.injEq, eq_comm]
  | null | bool | int | float | arr | obj => exact iff_of_false Bool.false_ne_true (by simp)

theorem same_int_iff {m n : Int} : (int m).same (int n) = true ↔ n = m := by
  have hsame : (int m).same (int n) = (some n == some m) := rfl
  rw [hsame, beq_iff_eq, Option.some.injEq]

/-- The fields of two objects that are the same have the same names. -/
theorem perm_keys_of_same_obj {as bs : Fields} (has : (as.map (·.1)).Nodup)
    (h : (obj as).same (obj bs) = true) : (as.map (·.1)).Perm (bs.map (·.1)) := by
  obtain ⟨hlength, hfields⟩ := same_obj_iff.mp h
  refine (has.subperm fun k hk => ?_).perm_of_length_le (by simp [hlength])
  obtain ⟨f, hf, rfl⟩ := List.mem_map.mp hk
  obtain ⟨w, hw, -⟩ := hfields f hf
  exact List.mem_map.mpr ⟨(f.1, w), mem_of_lookup_eq_some hw, rfl⟩

theorem lookup_of_same_obj {as bs : Fields} (has : (as.map (·.1)).Nodup)
    (h : (obj as).same (obj bs) = true) (key : String) :
    Option.Rel (fun v w => v.same w = true) (as.lookup key) (bs.lookup key) := by
  cases hv : as.lookup key with
  | none =>
    have hkey := lookup_eq_none_iff_not_mem.mp hv
    rw [(perm_keys_of_same_obj has h).mem_iff, ← lookup_eq_none_iff_not_mem] at hkey
    rw [hkey]
    exact .none
  | some v =>
    obtain ⟨w, hw, hsame⟩ := (same_obj_iff.mp h).2 _ (mem_of_lookup_eq_some hv)
    rw [hw]
    exact .some hsame

/-! ## A value and itself -/

theorem arr_same_self_iff {items : List Json} :
    (arr items).same (arr items) = true ↔ ∀ v ∈ items, v.same v = true := by
  rw [same_arr_iff, List.forall₂_same]

theorem obj_same_self_iff {fields : Fields} (h : (fields.map (·.1)).Nodup) :
    (obj fields).same (obj fields) = true ↔ ∀ f ∈ fields, f.2.same f.2 = true := by
  rw [same_obj_iff, and_iff_right rfl]
  refine forall₂_congr fun f hf => ?_
  rw [lookup_of_mem h hf]
  simp

theorem same_float (x y : Float) : (float x).same (float y) =
    (Numeral.Binary64.ofFloat x).same (Numeral.Binary64.ofFloat y) := rfl

theorem float_same_self {x : Float} (h : (Numeral.Binary64.ofFloat x).isFinite = true) :
    (float x).same (float x) = true := by
  rw [same_float]
  cases hx : Numeral.Binary64.ofFloat x <;> simp_all [Numeral.Binary64.isFinite, Numeral.Binary64.same]

end UpgradeSafety.Json
