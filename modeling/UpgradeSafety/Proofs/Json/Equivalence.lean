import UpgradeSafety.Proofs.Json.Reading
import UpgradeSafety.Proofs.Json.Same
import UpgradeSafety.Proofs.Numeral.Exact

/-!
# Sameness is an equivalence

Values that mean the same do so in either direction (`same_symm`), and so do values that mean the
same as a third one (`same_trans`). Numbers are the same when their quantities are equal
(`same_iff_quantity?`).

Sameness is the equality with which decoded documents are compared: an integer is the same as the
float of its value, zero and one are the same as truth values, and objects are compared without a
look at the order of their fields. For numbers both laws follow from the quantities, since a float
that is a number has one exact value. For objects symmetry is not for free: an object is the same
as another one when each of its fields is found there, and only with as many names on either side,
none of them twice, does it go back.

That is why the values are asked not to repeat a field; values that were read from a text never do.
-/

namespace UpgradeSafety.Json

open Numeral

/-! ## Numbers -/

/-- The quantity of a float: its value, or the sign of an infinite one. -/
def floatQuantity? : Binary64 → Option (ℚ ⊕ Bool)
  | .finite negative m q => some (.inl (Binary64.signedValue negative m q))
  | .infinite negative => some (.inr negative)
  | .nan => none

/-- The quantity of a number or a truth value. -/
def quantity? : Json → Option (ℚ ⊕ Bool)
  | bool b => some (.inl (if b then 1 else 0))
  | int n => some (.inl n)
  | float x => floatQuantity? (Binary64.ofFloat x)
  | _ => none

theorem wholeNumber?_ofFloat_iff {x : Float} {n : Int} :
    (Binary64.ofFloat x).wholeNumber? = some n ↔ quantity? (.float x) = some (.inl n) := by
  rw [quantity?]
  cases Binary64.ofFloat x with
  | finite negative m q =>
    rw [Binary64.wholeNumber?_finite_iff]
    simp [floatQuantity?]
  | infinite negative => simp [Binary64.wholeNumber?, floatQuantity?]
  | nan => simp [Binary64.wholeNumber?, floatQuantity?]

theorem same_float_iff {x y : Float} : (float x).same (float y) = true ↔
    ∃ z, quantity? (.float x) = some z ∧ quantity? (.float y) = some z := by
  rw [same_float, quantity?, quantity?]
  cases hx : Binary64.ofFloat x with
  | finite negative m q =>
    cases hy : Binary64.ofFloat y with
    | finite negative' m' q' =>
      rw [Binary64.same_finite_iff (Binary64.isFloat_of_ofBits hx) (Binary64.isFloat_of_ofBits hy)]
      simp [floatQuantity?, eq_comm (b := Binary64.signedValue negative m q)]
    | infinite negative' => simp [Binary64.same, floatQuantity?]
    | nan => simp [Binary64.same, floatQuantity?]
  | infinite negative =>
    cases Binary64.ofFloat y with
    | finite negative' m' q' => simp [Binary64.same, floatQuantity?]
    | infinite negative' => simp [Binary64.same, floatQuantity?, eq_comm (a := negative')]
    | nan => simp [Binary64.same, floatQuantity?]
  | nan => simp [Binary64.same, floatQuantity?]

theorem number?_eq_some_iff {v : Json} {n : Int} (hv : ∀ x, v ≠ .float x) :
    v.number? = some n ↔ quantity? v = some (.inl n) := by
  cases v with
  | float x => exact absurd rfl (hv x)
  | bool b => cases b <;> simp [number?, quantity?] <;> norm_cast
  | null | int | str | arr | obj => simp [number?, quantity?]

theorem same_whole_iff (n : Int) (w : Json) :
    (match w with
      | .float y => (Binary64.ofFloat y).wholeNumber? == some n
      | _ => w.number? == some n) = true ↔ quantity? w = some (.inl n) := by
  cases w with
  | float y => exact beq_iff_eq.trans wholeNumber?_ofFloat_iff
  | null | bool | int | str | arr | obj =>
    exact beq_iff_eq.trans (number?_eq_some_iff fun _ => Json.noConfusion)

/-- A number is the same as what has its quantity. -/
theorem same_iff_quantity? {v w : Json} {z : ℚ ⊕ Bool} (hv : quantity? v = some z) :
    v.same w = true ↔ quantity? w = some z := by
  cases v with
  | null | str | arr | obj => cases hv
  | bool b =>
    cases hv
    have hcast : ((if b then 1 else 0 : Int) : ℚ) = if b then 1 else 0 := by cases b <;> rfl
    rw [← hcast]
    exact same_whole_iff _ w
  | int n =>
    cases hv
    exact same_whole_iff n w
  | float x =>
    have hwhole (n : Int) : (Binary64.ofFloat x).wholeNumber? = some n ↔ z = .inl n := by
      rw [wholeNumber?_ofFloat_iff, hv, Option.some.injEq]
    cases w with
    | float y =>
      rw [same_float_iff, hv]
      simp
    | null | str | arr | obj => exact iff_of_false Bool.false_ne_true nofun
    | int n =>
      refine (beq_iff_eq.trans (hwhole n)).trans ?_
      simp [quantity?, eq_comm (a := z)]
    | bool b =>
      refine (beq_iff_eq.trans (hwhole (if b then 1 else 0))).trans ?_
      cases b <;> simp [quantity?, eq_comm (a := z)]

theorem exists_quantity?_of_same {x : Float} {w : Json} (h : (float x).same w = true) :
    ∃ z, quantity? (.float x) = some z := by
  cases w with
  | float y =>
    obtain ⟨z, hz, -⟩ := same_float_iff.mp h
    exact ⟨z, hz⟩
  | bool b => exact ⟨_, wholeNumber?_ofFloat_iff.mp (beq_iff_eq.mp h)⟩
  | int n => exact ⟨_, wholeNumber?_ofFloat_iff.mp (beq_iff_eq.mp h)⟩
  | null | str | arr | obj => exact absurd h Bool.false_ne_true

/-! ## Other values -/

theorem eq_null_of_same {w : Json} (h : null.same w = true) : w = null := by
  cases w with
  | null => rfl
  | bool | int | float | str | arr | obj => exact absurd h Bool.false_ne_true

theorem exists_arr_of_same {items : List Json} {w : Json} (h : (arr items).same w = true) :
    ∃ others, w = arr others := by
  cases w with
  | arr others => exact ⟨others, rfl⟩
  | null | bool | int | float | str | obj => exact absurd h Bool.false_ne_true

theorem exists_obj_of_same {fields : Fields} {w : Json} (h : (obj fields).same w = true) :
    ∃ others, w = obj others := by
  cases w with
  | obj others => exact ⟨others, rfl⟩
  | null | bool | int | float | str | arr => exact absurd h Bool.false_ne_true

/-! ## Symmetry and transitivity -/

theorem same_symm_of_quantity? {v w : Json} {z : ℚ ⊕ Bool} (hv : quantity? v = some z)
    (h : v.same w = true) : w.same v = true :=
  (same_iff_quantity? ((same_iff_quantity? hv).mp h)).mpr hv

theorem same_trans_of_quantity? {u v w : Json} {z : ℚ ⊕ Bool} (hu : quantity? u = some z)
    (h : u.same v = true) (h' : v.same w = true) : u.same w = true :=
  (same_iff_quantity? hu).mpr
    ((same_iff_quantity? ((same_iff_quantity? hu).mp h)).mp h')

/-- Sameness goes both ways between values without repeated fields. -/
theorem same_symm {v w : Json} (hv : v.IsTidy) (hw : w.IsTidy) (h : v.same w = true) :
    w.same v = true := by
  induction v using Json.induct generalizing w with
  | null =>
    obtain rfl := eq_null_of_same h
    exact h
  | bool b => exact same_symm_of_quantity? rfl h
  | int n => exact same_symm_of_quantity? rfl h
  | float x =>
    obtain ⟨z, hz⟩ := exists_quantity?_of_same h
    exact same_symm_of_quantity? hz h
  | str s =>
    obtain rfl := same_str_iff.mp h
    exact h
  | arr items ih =>
    obtain ⟨others, rfl⟩ := exists_arr_of_same h
    rw [same_arr_iff] at h ⊢
    rw [isTidy_arr] at hv hw
    refine List.Forall₂.flip ?_
    refine (List.forall₂_iff_zip.mpr ⟨h.length_eq, fun {a b} hab => ?_⟩)
    have hmem := List.of_mem_zip hab
    exact ih a hmem.1 (hv a hmem.1) (hw b hmem.2) ((List.forall₂_iff_zip.mp h).2 hab)
  | obj fields ih =>
    obtain ⟨others, rfl⟩ := exists_obj_of_same h
    rw [isTidy_obj] at hv hw
    have hkeys := perm_keys_of_same_obj hv.1 h
    refine same_obj_iff.mpr ⟨(same_obj_iff.mp h).1.symm, fun g hg => ?_⟩
    have hmem : g.1 ∈ fields.map (·.1) := hkeys.mem_iff.mpr (List.mem_map_of_mem hg)
    obtain ⟨f, hf, hfg⟩ := List.mem_map.mp hmem
    obtain ⟨u, hu, hsame⟩ := (same_obj_iff.mp h).2 f hf
    rw [hfg, lookup_of_mem hw.1 hg] at hu
    cases hu
    refine ⟨f.2, ?_, ih f hf (hv.2 f hf) (hw.2 g hg) hsame⟩
    rw [← hfg]
    exact lookup_of_mem hv.1 hf

/-- Values that are the same as a third one are the same. -/
theorem same_trans {u v w : Json} (h : u.same v = true) (h' : v.same w = true) :
    u.same w = true := by
  induction u using Json.induct generalizing v w with
  | null =>
    obtain rfl := eq_null_of_same h
    exact h'
  | bool b => exact same_trans_of_quantity? rfl h h'
  | int n => exact same_trans_of_quantity? rfl h h'
  | float x =>
    obtain ⟨z, hz⟩ := exists_quantity?_of_same h
    exact same_trans_of_quantity? hz h h'
  | str s =>
    obtain rfl := same_str_iff.mp h
    exact h'
  | arr items ih =>
    obtain ⟨others, rfl⟩ := exists_arr_of_same h
    obtain ⟨thirds, rfl⟩ := exists_arr_of_same h'
    rw [same_arr_iff] at h h' ⊢
    induction h generalizing thirds with
    | nil => exact h'
    | cons hab _ ihs =>
      cases h' with
      | cons hbc hrest =>
        exact .cons (ih _ List.mem_cons_self hab hbc)
          (ihs (fun u hu => ih u (List.mem_cons_of_mem _ hu)) _ hrest)
  | obj fields ih =>
    obtain ⟨others, rfl⟩ := exists_obj_of_same h
    obtain ⟨thirds, rfl⟩ := exists_obj_of_same h'
    rw [same_obj_iff] at h h' ⊢
    refine ⟨h.1.trans h'.1, fun f hf => ?_⟩
    obtain ⟨y, hy, hfy⟩ := h.2 f hf
    obtain ⟨z, hz, hyz⟩ := h'.2 _ (mem_of_lookup_eq_some hy)
    exact ⟨z, hz, ih f hf hfy hyz⟩

end UpgradeSafety.Json
