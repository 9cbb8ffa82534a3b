import UpgradeSafety.Proofs.Alignment.Script
import UpgradeSafety.Proofs.Runs

/-!
# Edit scripts with their elements

The steps of a script name positions. They are filled in with the elements of the two lists and
with the differences of the pairs (`Filled`): a pair keeps its elements when no difference is
known, and replaces one by the other otherwise. Filling in can only fail for an index outside the
lists, and a script that leads through both has none, so the edit script of two lists exists with
the steps (`exists_edits`).

What is proved of a script is proved of its steps first, and carried over by going through steps
and edits together.

* `edits?_eq_some_iff`: an edit script is a filled script, step by step.
* `edits?_of_diagonal`: lists that start alike are kept and appended to.
* `align?_self`: at standard prices nothing happens to a list that is aligned with itself.
* `edits?_map`: the script between lists is mapped when the elements and their differences are, and
  the prices stay the same, since the prices alone decide about the steps.
-/

namespace UpgradeSafety.Alignment

variable {α β ρ : Type}

/-- The table of the differences, by rows. -/
abbrev known (rows : List (List (Option ρ))) : Differences ρ := (rows.map List.toArray).toArray

/-- The difference of a former and an updated element, by their indices. -/
def difference (rows : List (List (Option ρ))) (i j : Nat) : Option ρ :=
  ((known rows).getD i #[]).getD j none

theorem difference_eq (rows : List (List (Option ρ))) (i j : Nat) :
    difference rows i j = (rows[i]?.getD [])[j]?.getD none := by
  simp [difference]

/-- A step and what it becomes when the elements are filled in. -/
inductive Filled (a : List α) (b : List β) (rows : List (List (Option ρ))) :
    Step → Edit α β ρ → Prop where
  | equal {i j : Nat} {x : α} {y : β} : a[i]? = some x → b[j]? = some y →
      difference rows i j = none → Filled a b rows (.pair i j) (.equal x y)
  | substitute {i j : Nat} {x : α} {y : β} {d : ρ} : a[i]? = some x → b[j]? = some y →
      difference rows i j = some d → Filled a b rows (.pair i j) (.substitute x y d)
  | insert {j : Nat} {y : β} : b[j]? = some y → Filled a b rows (.insert j) (.insert y)
  | append {j : Nat} {y : β} : b[j]? = some y → Filled a b rows (.append j) (.append y)
  | delete {i : Nat} {x : α} : a[i]? = some x → Filled a b rows (.delete i) (.delete x)

variable {a : List α} {b : List β} {rows : List (List (Option ρ))}

theorem edit?_eq_some_iff {s : Step} {e : Edit α β ρ} :
    s.edit? a.toArray b.toArray (known rows) = some e ↔ Filled a b rows s e := by
  constructor
  · intro h
    cases s with
    | pair i j =>
      simp only [Step.edit?, List.getElem?_toArray, Option.bind_eq_bind,
        Option.bind_eq_some_iff] at h
      obtain ⟨x, hx, y, hy, h⟩ := h
      split at h
      · rename_i hd
        cases h
        exact .equal hx hy hd
      · rename_i d hd
        cases h
        exact .substitute hx hy hd
    | insert j =>
      simp only [Step.edit?, List.getElem?_toArray, Option.map_eq_some_iff] at h
      obtain ⟨y, hy, rfl⟩ := h
      exact .insert hy
    | append j =>
      simp only [Step.edit?, List.getElem?_toArray, Option.map_eq_some_iff] at h
      obtain ⟨y, hy, rfl⟩ := h
      exact .append hy
    | delete i =>
      simp only [Step.edit?, List.getElem?_toArray, Option.map_eq_some_iff] at h
      obtain ⟨x, hx, rfl⟩ := h
      exact .delete hx
  · intro h
    cases h with
    | equal hx hy hd =>
      rw [difference_eq] at hd
      simp [Step.edit?, hx, hy, hd]
    | substitute hx hy hd =>
      rw [difference_eq] at hd
      simp [Step.edit?, hx, hy, hd]
    | insert hy => simp [Step.edit?, hy]
    | append hy => simp [Step.edit?, hy]
    | delete hx => simp [Step.edit?, hx]

/-- Every step that leads through the two lists can be filled in. -/
theorem exists_filled {i j i' j' : Nat} {steps : List Step} (h : Leads a.length i j steps i' j')
    (hi : i' ≤ a.length) (hj : j' ≤ b.length) :
    ∃ script, List.Forall₂ (Filled a b rows) steps script := by
  have hrow {s : Step} {k : Nat} (hs : s ∈ steps) (hk : s.row? = some k) :
      a[k]? = some (a.get ⟨k, by have := h.exists_row_iff.mp ⟨s, hs, hk⟩; omega⟩) :=
    List.getElem?_eq_getElem _
  have hcolumn {s : Step} {l : Nat} (hs : s ∈ steps) (hl : s.column? = some l) :
      b[l]? = some (b.get ⟨l, by have := h.exists_column_iff.mp ⟨s, hs, hl⟩; omega⟩) :=
    List.getElem?_eq_getElem _
  refine exists_forall₂ fun s hs => ?_
  cases s with
  | pair k l =>
    cases hd : difference rows k l with
    | none => exact ⟨_, .equal (hrow hs rfl) (hcolumn hs rfl) hd⟩
    | some d => exact ⟨_, .substitute (hrow hs rfl) (hcolumn hs rfl) hd⟩
  | insert l => exact ⟨_, .insert (hcolumn hs rfl)⟩
  | append l => exact ⟨_, .append (hcolumn hs rfl)⟩
  | delete k => exact ⟨_, .delete (hrow hs rfl)⟩

variable {t : Tariff ρ}

theorem edits?_eq_some_iff {script : List (Edit α β ρ)} :
    edits? t a b rows = some script ↔
      ∃ steps, script? (t.prices (known rows)) a.length b.length = some steps ∧
        List.Forall₂ (Filled a b rows) steps script := by
  simp only [edits?, Option.bind_eq_bind, Option.bind_eq_some_iff, mapM_eq_some_iff,
    edit?_eq_some_iff]

/-- Two lists always have an edit script. -/
theorem exists_edits (t : Tariff ρ) (a : List α) (b : List β) (rows : List (List (Option ρ))) :
    ∃ script, edits? t a b rows = some script := by
  obtain ⟨steps, hsteps, hleads⟩ := script?_leads (t.prices (known rows)) a.length b.length
  obtain ⟨script, hfilled⟩ : ∃ script, List.Forall₂ (Filled a b rows) steps script :=
    exists_filled hleads (Nat.le_refl _) (Nat.le_refl _)
  exact ⟨script, edits?_eq_some_iff.mpr ⟨steps, hsteps, hfilled⟩⟩

/-- The script of lists that start alike keeps and appends, unless an appended element could take
the place of the last former one for nothing. -/
theorem edits?_of_diagonal (hp : (t.prices (known rows)).Nonneg) (hle : a.length ≤ b.length)
    (hdiag : ∀ i < a.length, difference rows i i = none) (hnone : t.pair none = 0)
    (hlast : ∀ i j, a.length = i + 1 → a.length ≤ j → j < b.length →
      t.pair (difference rows i j) ≠ 0 ∨
        0 < least (t.prices (known rows)) a.length i j) :
    ∃ script, edits? t a b rows = some script ∧ ∀ e ∈ script, (∃ x y, e = .equal x y) ∨
      a.length < b.length ∧ ∃ y, e = .append y := by
  have hsteps := script?_eq_diagonal (t.prices (known rows)) a.length b.length hp hle
    (fun i hi => by
      change t.pair (difference rows i i) = 0
      rw [hdiag i hi, hnone]) hlast
  obtain ⟨script, hscript⟩ := exists_edits t a b rows
  refine ⟨script, hscript, fun e he => ?_⟩
  obtain ⟨steps, hsteps', hfilled⟩ := edits?_eq_some_iff.mp hscript
  rw [hsteps] at hsteps'
  cases hsteps'
  obtain ⟨k, hk⟩ := List.mem_iff_getElem?.mp he
  obtain ⟨s, hs, hse⟩ := getElem?_of_forall₂ hfilled.flip hk
  rcases List.mem_append.mp (List.mem_of_getElem? hs) with hs | hs
  · obtain ⟨i, hi, rfl⟩ := List.mem_map.mp hs
    cases hse with
    | equal => exact Or.inl ⟨_, _, rfl⟩
    | substitute _ _ hd =>
      rw [hdiag i (List.mem_range.mp hi)] at hd
      cases hd
  · obtain ⟨j, hj, rfl⟩ := List.mem_map.mp hs
    rw [List.mem_range'_1] at hj
    cases hse with
    | append => exact Or.inr ⟨by omega, _, rfl⟩

/-! ## Standard prices -/

theorem standard_prices_nonneg (d : Differences ρ) : ((Tariff.standard ρ).prices d).Nonneg where
  pair i j := by
    simp only [Tariff.prices, Tariff.standard]
    split <;> decide
  insert i j := by
    simp only [Tariff.prices, Tariff.standard]
    decide
  delete i := by
    simp only [Tariff.prices, Tariff.standard]
    decide

/-- A list keeps all its elements when it is aligned with itself. -/
theorem align?_self {d : α → α → Option ρ} (hd : ∀ x ∈ a, d x x = none) :
    ∃ script, align? (.standard ρ) a a d = some script ∧ ∀ e ∈ script, ∃ x y, e = .equal x y := by
  obtain ⟨script, hscript, hequal⟩ := edits?_of_diagonal (t := .standard ρ) (a := a) (b := a)
    (standard_prices_nonneg (known (a.map fun x => a.map (d x)))) (Nat.le_refl _)
    (fun i hi => by
      rw [difference_eq]
      simp [hi, hd]) rfl
    (fun i j _ hle hlt => by omega)
  exact ⟨script, hscript, fun e he => (hequal e he).resolve_right (by omega)⟩

/-! ## Mapped lists -/

section Mapped

variable {α α' β β' ρ ρ' : Type} (f : α → α') (g : β → β') (k : ρ → ρ')

/-- An edit of mapped elements. -/
def Edit.map : Edit α β ρ → Edit α' β' ρ'
  | equal a b => equal (f a) (g b)
  | substitute a b difference => substitute (f a) (g b) (k difference)
  | insert b => insert (g b)
  | append b => append (g b)
  | delete a => delete (f a)

/-- The differences of all pairs, mapped. -/
def mapRows (rows : List (List (Option ρ))) : List (List (Option ρ')) :=
  rows.map (List.map (Option.map k))

theorem difference_mapRows (rows : List (List (Option ρ))) (i j : Nat) :
    difference (mapRows k rows) i j = (difference rows i j).map k := by
  rw [difference_eq, difference_eq, mapRows, List.getElem?_map]
  cases rows[i]? with
  | none => rfl
  | some row =>
    simp only [Option.map_some, Option.getD_some, List.getElem?_map]
    cases row[j]? <;> rfl

theorem edit?_map (a : List α) (b : List β) (rows : List (List (Option ρ))) (s : Step) :
    s.edit? (a.map f).toArray (b.map g).toArray (known (mapRows k rows)) =
      (s.edit? a.toArray b.toArray (known rows)).map (Edit.map f g k) := by
  cases s with
  | pair i j =>
    simp only [Step.edit?, List.getElem?_toArray, List.getElem?_map]
    cases a[i]? with
    | none => rfl
    | some x =>
      cases b[j]? with
      | none => rfl
      | some y =>
        have hdifference := difference_mapRows k rows i j
        unfold difference at hdifference
        dsimp only [Option.map_some]
        rw [hdifference]
        cases ((known rows).getD i #[]).getD j none <;> rfl
  | insert j | append j =>
    simp only [Step.edit?, List.getElem?_toArray, List.getElem?_map]
    cases b[j]? <;> rfl
  | delete i =>
    simp only [Step.edit?, List.getElem?_toArray, List.getElem?_map]
    cases a[i]? <;> rfl

theorem mapM_map_option {σ τ τ' : Type} {step : σ → Option τ} {step' : σ → Option τ'} {m : τ → τ'}
    (h : ∀ s, step' s = (step s).map m) (l : List σ) :
    l.mapM step' = (l.mapM step).map (List.map m) := by
  induction l with
  | nil => rfl
  | cons s l ih =>
    rw [List.mapM_cons, List.mapM_cons, h, ih]
    cases step s with
    | none => rfl
    | some t => cases l.mapM step <;> rfl

variable {f g k} {t : Tariff ρ} {t' : Tariff ρ'}

theorem prices_mapRows (hpair : ∀ x, t'.pair (x.map k) = t.pair x) (hinsert : t'.insert = t.insert)
    (hdelete : t'.delete = t.delete) (rows : List (List (Option ρ))) :
    t'.prices (known (mapRows k rows)) = t.prices (known rows) := by
  have hpairs : (t'.prices (known (mapRows k rows))).pair = (t.prices (known rows)).pair := by
    funext i j
    change t'.pair (difference (mapRows k rows) (i - 1) (j - 1)) =
      t.pair (difference rows (i - 1) (j - 1))
    rw [difference_mapRows, hpair]
  unfold Tariff.prices at *
  rw [hinsert, hdelete]
  exact congrArg (fun pair => Prices.mk pair t.insert t.delete) hpairs

/-- A cheapest script between mapped lists. -/
theorem edits?_map (hpair : ∀ x, t'.pair (x.map k) = t.pair x) (hinsert : t'.insert = t.insert)
    (hdelete : t'.delete = t.delete) (a : List α) (b : List β) (rows : List (List (Option ρ))) :
    edits? t' (a.map f) (b.map g) (mapRows k rows) =
      (edits? t a b rows).map (List.map (Edit.map f g k)) := by
  change (script? (t'.prices (known (mapRows k rows))) (a.map f).length (b.map g).length).bind
      (fun steps => steps.mapM (Step.edit? _ _ (known (mapRows k rows)))) =
    Option.map _ ((script? (t.prices (known rows)) a.length b.length).bind
      fun steps => steps.mapM (Step.edit? _ _ (known rows)))
  rw [prices_mapRows hpair hinsert hdelete, List.length_map, List.length_map]
  cases script? (t.prices (known rows)) a.length b.length with
  | none => rfl
  | some steps => exact mapM_map_option (edit?_map f g k a b rows) steps

end Mapped

end UpgradeSafety.Alignment
