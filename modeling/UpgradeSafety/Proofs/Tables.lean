import Mathlib
import UpgradeSafety.Json.Basic

/-!
# Tables

A table is a list of entries by key. The first entry of a key counts. What is put into a table
changes nothing but the entry of its key, and no key comes to occur twice.

Documents, manifests, layouts and runs keep all they know in such tables, and the order of the
entries is part of what they are: it is the order in which a file is written and in which
namespaces are compared. So beside the usual laws of looking up and putting there are lemmas on the
keys: a value that is put for a new key stands behind the others (`putField_not_mem`), and the keys
that were there stay in front (`keys_prefix_putField`). Where keys are all different, the order
does not matter for what is found (`lookup_perm`).

Two tables with the same keys in the same order and related values are `Matched`; that is how
records or types are followed through a change that concerns their values only.
-/

namespace UpgradeSafety

variable {α β : Type} {key other : String} {value : α} {entries : List (String × α)}

theorem lookup_cons_other (h : other ≠ key) :
    ((key, value) :: entries).lookup other = entries.lookup other := by
  rw [List.lookup_cons, beq_false_of_ne h]

theorem lookup_cons_eq :
    ((key, value) :: entries).lookup other = if other = key then some value else entries.lookup other := by
  split
  · rename_i h
    rw [h, List.lookup_cons_self]
  · rename_i h
    exact lookup_cons_other h

theorem lookup_eq_none_iff_not_mem : entries.lookup key = none ↔ key ∉ entries.map (·.1) := by
  induction entries with
  | nil => simp
  | cons f entries ih =>
    obtain ⟨k, v⟩ := f
    by_cases hk : key = k
    · simp [hk]
    · rw [lookup_cons_other hk, ih]
      simp [hk]

theorem mem_of_lookup_eq_some (h : entries.lookup key = some value) : (key, value) ∈ entries := by
  induction entries with
  | nil => cases h
  | cons f entries ih =>
    obtain ⟨k, v⟩ := f
    by_cases hk : key = k
    · subst hk
      rw [List.lookup_cons_self] at h
      cases h
      exact List.mem_cons_self
    · rw [lookup_cons_other hk] at h
      exact List.mem_cons_of_mem _ (ih h)

theorem lookup_of_mem (hnodup : (entries.map (·.1)).Nodup) (h : (key, value) ∈ entries) :
    entries.lookup key = some value := by
  induction entries with
  | nil => cases h
  | cons f entries ih =>
    rw [List.map_cons, List.nodup_cons] at hnodup
    rcases List.mem_cons.mp h with rfl | h
    · exact List.lookup_cons_self
    · have hk : key ≠ f.1 := fun hk => hnodup.1 (hk ▸ List.mem_map_of_mem h)
      rw [show f = (f.1, f.2) from rfl, lookup_cons_other hk, ih hnodup.2 h]

/-- The order of entries does not matter for what is found. -/
theorem lookup_perm {as bs : List (String × α)} (h : as.Perm bs) (hnodup : (as.map (·.1)).Nodup)
    (key : String) : as.lookup key = bs.lookup key := by
  have hnodup' : (bs.map (·.1)).Nodup := (h.map _).nodup_iff.mp hnodup
  ext value
  exact ⟨fun hv => lookup_of_mem hnodup' (h.mem_iff.mp (mem_of_lookup_eq_some hv)),
    fun hv => lookup_of_mem hnodup (h.mem_iff.mpr (mem_of_lookup_eq_some hv))⟩

/-- Two tables of the same entries. -/
theorem perm_of_lookup {as bs : List (String × α)} (has : (as.map (·.1)).Nodup)
    (hbs : (bs.map (·.1)).Nodup) (h : ∀ key, as.lookup key = bs.lookup key) : as.Perm bs := by
  refine (List.perm_ext_iff_of_nodup has.of_map hbs.of_map).mpr fun e => ?_
  constructor
  · exact fun he => mem_of_lookup_eq_some ((h e.1).symm.trans (lookup_of_mem has he))
  · exact fun he => mem_of_lookup_eq_some ((h e.1).trans (lookup_of_mem hbs he))

theorem lookup_map_values (f : α → β) :
    (entries.map fun e => (e.1, f e.2)).lookup key = (entries.lookup key).map f := by
  induction entries with
  | nil => rfl
  | cons e entries ih =>
    obtain ⟨k, v⟩ := e
    by_cases hk : key = k
    · simp [hk]
    · rw [List.map_cons, lookup_cons_other hk, lookup_cons_other hk, ih]

/-- The value under a key when all values are changed by their keys. -/
theorem lookup_map_entry (f : String → α → β) :
    (entries.map fun e => (e.1, f e.1 e.2)).lookup key = (entries.lookup key).map (f key) := by
  induction entries with
  | nil => rfl
  | cons e entries ih =>
    obtain ⟨k, v⟩ := e
    rw [List.map_cons]
    by_cases hk : key = k
    · subst hk
      rw [List.lookup_cons_self, List.lookup_cons_self, Option.map_some]
    · rw [lookup_cons_other hk, lookup_cons_other hk, ih]

@[simp] theorem lookup_append_or {entries' : List (String × α)} :
    (entries ++ entries').lookup key = (entries.lookup key).or (entries'.lookup key) := by
  induction entries with
  | nil => rfl
  | cons e entries ih =>
    obtain ⟨k, v⟩ := e
    by_cases hk : key = k
    · simp [hk]
    · rw [List.cons_append, lookup_cons_other hk, lookup_cons_other hk, ih]

/-! ## Putting -/

theorem putField_not_mem (h : key ∉ entries.map (·.1)) :
    putField key value entries = entries ++ [(key, value)] := by
  induction entries with
  | nil => rfl
  | cons f entries ih =>
    rw [List.map_cons, List.mem_cons, not_or] at h
    rw [putField, if_neg (by simpa using Ne.symm h.1), ih h.2, List.cons_append]

theorem lookup_putField_self : (putField key value entries).lookup key = some value := by
  induction entries with
  | nil => exact List.lookup_cons_self
  | cons f entries ih =>
    obtain ⟨k, v⟩ := f
    by_cases hk : k = key
    · rw [putField, if_pos (by simpa using hk), List.lookup_cons_self]
    · rw [putField, if_neg (by simpa using hk), lookup_cons_other (Ne.symm hk), ih]

theorem lookup_putField_other (h : other ≠ key) :
    (putField key value entries).lookup other = entries.lookup other := by
  induction entries with
  | nil => exact lookup_cons_other h
  | cons f entries ih =>
    obtain ⟨k, v⟩ := f
    by_cases hk : k = key
    · subst hk
      rw [putField, if_pos (by simp), lookup_cons_other h, lookup_cons_other h]
    · rw [putField, if_neg (by simpa using hk)]
      by_cases hother : other = k
      · subst hother
        rw [List.lookup_cons_self, List.lookup_cons_self]
      · rw [lookup_cons_other hother, lookup_cons_other hother, ih]

theorem isSome_lookup_putField (h : (entries.lookup other).isSome = true) :
    ((putField key value entries).lookup other).isSome = true := by
  by_cases hother : other = key
  · rw [hother, lookup_putField_self]
    rfl
  · rw [lookup_putField_other hother]
    exact h

/-- What is in a table after putting was put or was there before under another key or place. -/
theorem mem_putField {f : String × α} (h : f ∈ putField key value entries) :
    f = (key, value) ∨ f ∈ entries := by
  induction entries with
  | nil => exact Or.inl (List.mem_singleton.mp h)
  | cons g entries ih =>
    obtain ⟨k, v⟩ := g
    rw [putField] at h
    split at h
    · exact (List.mem_cons.mp h).imp_right (List.mem_cons_of_mem _)
    · rcases List.mem_cons.mp h with rfl | h
      · exact Or.inr List.mem_cons_self
      · exact (ih h).imp_right (List.mem_cons_of_mem _)

theorem mem_keys_putField {k : String} :
    k ∈ (putField key value entries).map (·.1) ↔ k = key ∨ k ∈ entries.map (·.1) := by
  induction entries with
  | nil => simp [putField]
  | cons f entries ih =>
    obtain ⟨l, v⟩ := f
    rw [putField]
    split
    · rename_i hl
      obtain rfl : l = key := by simpa using hl
      simp
    · rw [List.map_cons, List.mem_cons, ih, List.map_cons, List.mem_cons, or_left_comm]

theorem nodup_putField (h : (entries.map (·.1)).Nodup) :
    ((putField key value entries).map (·.1)).Nodup := by
  induction entries with
  | nil => simp [putField]
  | cons f entries ih =>
    obtain ⟨k, v⟩ := f
    rw [List.map_cons, List.nodup_cons] at h
    rw [putField]
    split
    · rename_i hk
      obtain rfl : k = key := by simpa using hk
      exact List.nodup_cons.mpr h
    · rename_i hk
      rw [List.map_cons, List.nodup_cons, mem_keys_putField]
      exact ⟨not_or.mpr ⟨by simpa using hk, h.1⟩, ih h.2⟩

/-- A value is put behind what does not have its key. -/
theorem putField_append {as bs : List (String × α)} (h : key ∉ as.map (·.1)) :
    putField key value (as ++ bs) = as ++ putField key value bs := by
  induction as with
  | nil => rfl
  | cons e as ih =>
    rw [List.map_cons, List.mem_cons, not_or] at h
    rw [List.cons_append, putField, if_neg (by simpa using Ne.symm h.1), ih h.2, List.cons_append]

theorem putField_perm {as bs : List (String × α)} (h : as.Perm bs) (hnodup : (as.map (·.1)).Nodup) :
    (putField key value as).Perm (putField key value bs) := by
  have hnodup' : (bs.map (·.1)).Nodup := (h.map _).nodup_iff.mp hnodup
  refine perm_of_lookup (nodup_putField hnodup) (nodup_putField hnodup') fun other => ?_
  by_cases hother : other = key
  · rw [hother, lookup_putField_self, lookup_putField_self]
  · rw [lookup_putField_other hother, lookup_putField_other hother, lookup_perm h hnodup]

/-- The keys of a table stay in front when a value is put into it. -/
theorem keys_prefix_putField :
    entries.map (·.1) <+: (putField key value entries).map (·.1) := by
  induction entries with
  | nil => exact List.nil_prefix
  | cons f entries ih =>
    obtain ⟨k, v⟩ := f
    rw [putField]
    split
    · rename_i hk
      obtain rfl : k = key := by simpa using hk
      exact List.prefix_refl _
    · rw [List.map_cons, List.map_cons]
      exact List.cons_prefix_cons.mpr ⟨rfl, ih⟩

/-! ## Dropping -/

theorem lookup_dropField_self : (dropField key entries).lookup key = none := by
  rw [lookup_eq_none_iff_not_mem]
  simp [dropField]

theorem dropField_putField : dropField key (putField key value entries) = dropField key entries := by
  induction entries with
  | nil => simp [putField, dropField]
  | cons f entries ih =>
    rw [putField]
    split
    · rename_i hk
      unfold dropField
      rw [List.filter_cons_of_neg (by simp), List.filter_cons_of_neg (by simpa using hk)]
    · rename_i hk
      unfold dropField at ih ⊢
      rw [List.filter_cons_of_pos (by simpa using hk), List.filter_cons_of_pos (by simpa using hk), ih]

theorem dropField_dropField : dropField key (dropField key entries) = dropField key entries := by
  simp [dropField]

theorem dropField_map_values (f : α → β) :
    dropField key (entries.map fun e => (e.1, f e.2)) =
      (dropField key entries).map fun e => (e.1, f e.2) := by
  simp [dropField, List.filter_map, Function.comp_def]

theorem nodup_dropField (h : (entries.map (·.1)).Nodup) :
    ((dropField key entries).map (·.1)).Nodup :=
  h.sublist (List.filter_sublist.map _)

/-! ## Tables that match -/

theorem exists_of_rel_some {R : α → β → Prop} {a : α} {y : Option β}
    (h : Option.Rel R (some a) y) : ∃ b, y = some b ∧ R a b := by
  cases h with
  | some hab => exact ⟨_, rfl, hab⟩

/-- What is found under a key in two tables is related as the entries of the tables are. -/
theorem rel_lookup_imp {R S : α → β → Prop} {as : List (String × α)} {bs : List (String × β)}
    {key : String} (h : Option.Rel R (as.lookup key) (bs.lookup key))
    (hS : ∀ a b, (key, a) ∈ as → (key, b) ∈ bs → R a b → S a b) :
    Option.Rel S (as.lookup key) (bs.lookup key) := by
  generalize ha : as.lookup key = x at h ⊢
  generalize hb : bs.lookup key = y at h ⊢
  cases h with
  | none => exact .none
  | some hab => exact .some (hS _ _ (mem_of_lookup_eq_some ha) (mem_of_lookup_eq_some hb) hab)

theorem rel_find? {R : α → β → Prop} {p : α → Bool} {q : β → Bool} {as : List α} {bs : List β}
    (h : List.Forall₂ R as bs) (hpq : ∀ a b, R a b → p a = q b) :
    Option.Rel R (as.find? p) (bs.find? q) := by
  induction h with
  | nil => exact .none
  | @cons a b as bs hab _ ih =>
    rw [List.find?_cons, List.find?_cons, hpq a b hab]
    cases q b with
    | true => exact .some hab
    | false => exact ih

/-- Two tables have the same keys in the same order, and their values are related. -/
def Matched (R : α → β → Prop) (as : List (String × α)) (bs : List (String × β)) : Prop :=
  List.Forall₂ (fun e f => e.1 = f.1 ∧ R e.2 f.2) as bs

namespace Matched

variable {R : α → β → Prop} {as : List (String × α)} {bs : List (String × β)}

theorem lookup (h : Matched R as bs) (key : String) :
    Option.Rel R (as.lookup key) (bs.lookup key) := by
  induction h with
  | nil => exact .none
  | @cons e f as bs hef _ ih =>
    obtain ⟨k, a⟩ := e
    obtain ⟨l, b⟩ := f
    obtain ⟨rfl, hab⟩ : k = l ∧ R a b := hef
    rw [lookup_cons_eq, lookup_cons_eq]
    split
    · exact .some hab
    · exact ih

theorem putField {a : α} {b : β} (h : Matched R as bs) (hab : R a b) (key : String) :
    Matched R (putField key a as) (putField key b bs) := by
  induction h with
  | nil => exact .cons ⟨rfl, hab⟩ .nil
  | @cons e f as bs hef hrest ih =>
    obtain ⟨k, a'⟩ := e
    obtain ⟨l, b'⟩ := f
    obtain ⟨rfl, hab'⟩ : k = l ∧ R a' b' := hef
    rw [UpgradeSafety.putField, UpgradeSafety.putField]
    split
    · exact .cons ⟨rfl, hab⟩ hrest
    · exact .cons ⟨rfl, hab'⟩ ih

theorem trans {γ : Type} {S : β → γ → Prop} {T : α → γ → Prop} {cs : List (String × γ)}
    (h : Matched R as bs) (h' : Matched S bs cs) (hT : ∀ a b c, R a b → S b c → T a c) :
    Matched T as cs := by
  induction h generalizing cs with
  | nil =>
    cases h'
    exact .nil
  | cons hab _ ih =>
    cases h' with
    | cons hbc hrest => exact .cons ⟨hab.1.trans hbc.1, hT _ _ _ hab.2 hbc.2⟩ (ih hrest)

theorem map {f : α → β} (h : ∀ e ∈ as, R e.2 (f e.2)) :
    Matched R as (as.map fun e => (e.1, f e.2)) :=
  List.forall₂_map_right_iff.mpr (List.forall₂_same.mpr fun e he => ⟨rfl, h e he⟩)

/-- Tables match if they have the same keys and related values for each key. -/
theorem of_lookup (hkeys : as.map (·.1) = bs.map (·.1)) (hnodup : (as.map (·.1)).Nodup)
    (h : ∀ key, Option.Rel R (as.lookup key) (bs.lookup key)) : Matched R as bs := by
  induction as generalizing bs with
  | nil =>
    rw [List.map_nil, eq_comm, List.map_eq_nil_iff] at hkeys
    exact hkeys ▸ .nil
  | cons e as ih =>
    obtain ⟨k, a⟩ := e
    cases bs with
    | nil => cases hkeys
    | cons f bs =>
      obtain ⟨l, b⟩ := f
      rw [List.map_cons, List.map_cons, List.cons.injEq] at hkeys
      obtain ⟨rfl, hkeys⟩ := hkeys
      rw [List.map_cons, List.nodup_cons] at hnodup
      have hfirst := h k
      rw [List.lookup_cons_self, List.lookup_cons_self] at hfirst
      cases hfirst with
      | some hab =>
        refine .cons ⟨rfl, hab⟩ (ih hkeys hnodup.2 fun key => ?_)
        by_cases hkey : key = k
        · subst hkey
          rw [lookup_eq_none_iff_not_mem.mpr hnodup.1,
            lookup_eq_none_iff_not_mem.mpr (hkeys ▸ hnodup.1)]
          exact .none
        · have hrest := h key
          rwa [lookup_cons_other hkey, lookup_cons_other hkey] at hrest

end Matched

end UpgradeSafety
