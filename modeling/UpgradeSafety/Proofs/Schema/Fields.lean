import UpgradeSafety.Layout.Json
import UpgradeSafety.Proofs.Runs
import UpgradeSafety.Proofs.Tables

/-!
# Reading records

When the readers of records give a value: a combination of checks does when all of them do, a list
or a table when every element passes, and a field by the value that is found under one of its
names.

A reader collects all errors of a document and not only the first one, so it is no chain of binds,
and what a valid result says about its parts has to be told for its own combinators. There is one
equivalence for each of them (`map_eq_valid_iff`, `seq_eq_valid_iff`, `allFrom_eq_valid_iff`), and
the readers of layouts and manifests are then opened by rewriting, field by field.

The second half is about fields that were written. One that is left out when it has no value is
read as having none, a required one is found again, and one with a default is found or takes the
default (`optional_written`, `required_written`, `defaulted_written`); names are looked up in both
spellings.
-/

namespace UpgradeSafety.Schema

variable {α β : Type}

namespace Checked

@[simp] theorem map_valid (f : α → β) (a : α) : f <$> (valid a : Checked α) = valid (f a) := rfl

@[simp] theorem seq_valid (f : α → β) (a : α) :
    (valid f : Checked (α → β)) <*> valid a = valid (f a) := rfl

theorem map_eq_valid_iff {f : α → β} {x : Checked α} {b : β} :
    f <$> x = valid b ↔ ∃ a, x = valid a ∧ f a = b := by
  cases x with
  | valid a => simp
  | invalid ps =>
    constructor
    · intro h
      cases h
    · rintro ⟨a, h, -⟩
      cases h

theorem seq_eq_valid_iff {f : Checked (α → β)} {x : Checked α} {b : β} :
    f <*> x = valid b ↔ ∃ g a, f = valid g ∧ x = valid a ∧ g a = b := by
  constructor
  · intro h
    cases f with
    | valid g =>
      cases x with
      | valid a => exact ⟨g, a, rfl, rfl, by injection h⟩
      | invalid ps => cases h
    | invalid ps =>
      cases x with
      | valid a => cases h
      | invalid qs => cases h
  · rintro ⟨g, a, rfl, rfl, rfl⟩
    rfl

theorem under_eq_valid_iff {step : Step} {x : Checked α} {a : α} :
    x.under step = valid a ↔ x = valid a := by
  cases x <;> simp [under]

theorem andThen_eq_valid_iff {x : Checked α} {f : α → Checked β} {b : β} :
    x.andThen f = valid b ↔ ∃ a, x = valid a ∧ f a = valid b := by
  cases x <;> simp [andThen]

/-- A list passes when every element does. -/
theorem allFrom_eq_valid_iff {check : α → Checked β} {i : Nat} {l : List α} {l' : List β} :
    allFrom check i l = valid l' ↔ List.Forall₂ (fun a b => check a = valid b) l l' := by
  induction l generalizing i l' with
  | nil =>
    rw [allFrom, List.forall₂_nil_left_iff, valid.injEq]
    exact eq_comm
  | cons a l ih =>
    rw [allFrom, List.forall₂_cons_left_iff]
    constructor
    · intro h
      split at h
      · rename_i b bs hb hbs
        cases h
        exact ⟨b, bs, under_eq_valid_iff.mp hb, ih.mp hbs, rfl⟩
      · cases h
      · cases h
      · cases h
    · rintro ⟨b, bs, hb, hbs, rfl⟩
      simp only [hb, under, ih.mpr hbs]

/-- A table passes when every value does. -/
theorem allNamed_eq_valid_iff {check : α → Checked β} {l : List (String × α)}
    {l' : List (String × β)} : allNamed check l = valid l' ↔
      List.Forall₂ (fun e e' => e'.1 = e.1 ∧ check e.2 = valid e'.2) l l' := by
  induction l generalizing l' with
  | nil =>
    rw [allNamed, List.forall₂_nil_left_iff, valid.injEq]
    exact eq_comm
  | cons e l ih =>
    obtain ⟨k, a⟩ := e
    rw [allNamed, List.forall₂_cons_left_iff]
    constructor
    · intro h
      split at h
      · rename_i b bs hb hbs
        cases h
        exact ⟨(k, b), bs, ⟨rfl, under_eq_valid_iff.mp hb⟩, ih.mp hbs, rfl⟩
      · cases h
      · cases h
      · cases h
    · rintro ⟨⟨k', b⟩, bs, ⟨rfl, hb⟩, hbs, rfl⟩
      simp only [hb, under, ih.mpr hbs]

end Checked

open Checked

/-! ## Fields -/

/-- The value of a field under one of its names. -/
def Name.value? (name : Name) (fields : Fields) : Option Json :=
  (fields.lookup name.camel).or (fields.lookup name.snake)

theorem Name.find?_map_snd (name : Name) (fields : Fields) :
    (name.find? fields).map (·.2) = name.value? fields := by
  unfold find? value?
  cases fields.lookup name.camel with
  | some v => rfl
  | none => cases fields.lookup name.snake <;> rfl

@[simp] theorem Name.value?_plain (s : String) (fields : Fields) :
    (Name.plain s).value? fields = fields.lookup s := by
  simp [value?, plain]

@[simp] theorem Name.value?_mk (camel snake : String) (fields : Fields) :
    (⟨camel, snake⟩ : Name).value? fields = (fields.lookup camel).or (fields.lookup snake) := rfl

variable {fields : Fields} {name : Name} {check : Json → Checked α}

theorem defaulted_eq_valid_iff {default a : α} : defaulted fields name check default = valid a ↔
    (∃ v, name.value? fields = some v ∧ check v = valid a) ∨
      (name.value? fields = none ∧ a = default) := by
  rw [defaulted, ← Name.find?_map_snd]
  cases name.find? fields with
  | none => simp [eq_comm]
  | some found => simp [under_eq_valid_iff]

theorem required_eq_valid_iff {a : α} : required fields name check = valid a ↔
    ∃ v, name.value? fields = some v ∧ check v = valid a := by
  rw [required, ← Name.find?_map_snd]
  cases name.find? fields with
  | none => simp
  | some found => simp [under_eq_valid_iff]

theorem nullable_eq_valid_iff {v : Json} {o : Option α} : nullable check v = valid o ↔
    (v = .null ∧ o = none) ∨ (v ≠ .null ∧ ∃ a, check v = valid a ∧ o = some a) := by
  unfold nullable
  split
  · simp [eq_comm]
  · rename_i hnull
    have hnull : v ≠ .null := hnull
    cases check v <;> simp [Checked.map, hnull, eq_comm]

/-- An optional field that is absent or `null` has no value. -/
theorem optional_eq_valid_iff {o : Option α} : optional fields name check = valid o ↔
    (∃ v a, name.value? fields = some v ∧ v ≠ .null ∧ check v = valid a ∧ o = some a) ∨
      ((name.value? fields).getD .null = .null ∧ o = none) := by
  rw [optional, defaulted_eq_valid_iff]
  cases name.value? fields with
  | none => simp
  | some v =>
    simp only [Option.some.injEq, exists_eq_left', reduceCtorEq, false_and, or_false,
      nullable_eq_valid_iff, Option.getD_some]
    constructor
    · rintro (h | ⟨hv, a, ha, ho⟩)
      · exact Or.inr h
      · exact Or.inl ⟨v, a, rfl, hv, ha, ho⟩
    · rintro (⟨_, a, rfl, hv, ha, ho⟩ | h)
      · exact Or.inr ⟨hv, a, ha, ho⟩
      · exact Or.inl h

/-! ## Written fields -/

@[simp] theorem lookup_fieldIf (key other : String) (f : α → Json) (o : Option α) :
    (fieldIf key f o).lookup other = if other = key then o.map f else none := by
  cases o with
  | none => simp [fieldIf]
  | some a => by_cases h : other = key <;> simp [fieldIf, h]

/-- A field that is left out when it has no value is read back. -/
theorem optional_written (name : Name) {f : β → Json} {g : β → α} {o : Option β}
    (hvalue : name.value? fields = o.map f)
    (hcheck : ∀ b ∈ o, f b ≠ .null ∧ check (f b) = valid (g b)) :
    optional fields name check = valid (o.map g) := by
  rw [optional_eq_valid_iff, hvalue]
  cases o with
  | none => simp
  | some b =>
    obtain ⟨hnull, hb⟩ := hcheck b rfl
    exact Or.inl ⟨f b, g b, rfl, hnull, hb, rfl⟩

theorem required_written (name : Name) {v : Json} {a : α} (hvalue : name.value? fields = some v)
    (hcheck : check v = valid a) : required fields name check = valid a :=
  required_eq_valid_iff.mpr ⟨v, hvalue, hcheck⟩

theorem defaulted_written (name : Name) {v : Json} {a default : α} (hvalue : name.value? fields = some v)
    (hcheck : check v = valid a) : defaulted fields name check default = valid a :=
  defaulted_eq_valid_iff.mpr (Or.inl ⟨v, hvalue, hcheck⟩)

/-! ## Written lists and tables -/

theorem list_map {f : β → Json} {g : β → α} {l : List β} (h : ∀ b ∈ l, check (f b) = valid (g b)) :
    list check (.arr (l.map f)) = valid (l.map g) := by
  rw [list, allFrom_eq_valid_iff, List.forall₂_map_left_iff, List.forall₂_map_right_iff]
  exact List.forall₂_same.mpr h

theorem table_map {f : β → Json} {g : β → α} {l : List (String × β)}
    (h : ∀ e ∈ l, check (f e.2) = valid (g e.2)) :
    table check (tableJson f l) = valid (l.map fun e => (e.1, g e.2)) := by
  rw [tableJson, table, allNamed_eq_valid_iff, List.forall₂_map_left_iff,
    List.forall₂_map_right_iff]
  exact List.forall₂_same.mpr fun e he => ⟨rfl, h e he⟩

/-! ## Lists and tables that were read -/

theorem exists_of_mem_list {v : Json} {l : List α} {a : α} (h : list check v = valid l)
    (ha : a ∈ l) : ∃ items w, v = .arr items ∧ w ∈ items ∧ check w = valid a := by
  cases v with
  | arr items =>
    obtain ⟨w, hw, hwa⟩ := exists_of_mem_forall₂ (allFrom_eq_valid_iff.mp h) ha
    exact ⟨items, w, rfl, hw, hwa⟩
  | null | bool | int | float | str | obj => cases h

theorem exists_of_mem_table {v : Json} {l : List (String × α)} {e : String × α}
    (h : table check v = valid l) (he : e ∈ l) :
    ∃ fields w, v = .obj fields ∧ (e.1, w) ∈ fields ∧ check w = valid e.2 := by
  cases v with
  | obj fields =>
    obtain ⟨⟨k, w⟩, hw, rfl, hcheck⟩ := exists_of_mem_forall₂ (allNamed_eq_valid_iff.mp h) he
    exact ⟨fields, w, rfl, hw, hcheck⟩
  | null | bool | int | float | str | arr => cases h

/-- A table has the keys of the object that it was read from. -/
theorem keys_of_table {fields : Fields} {l : List (String × α)}
    (h : table check (.obj fields) = valid l) : l.map (·.1) = fields.map (·.1) := by
  have hentries := allNamed_eq_valid_iff.mp h
  clear h
  induction hentries with
  | nil => rfl
  | cons hentry _ ih => rw [List.map_cons, List.map_cons, hentry.1, ih]

end UpgradeSafety.Schema
