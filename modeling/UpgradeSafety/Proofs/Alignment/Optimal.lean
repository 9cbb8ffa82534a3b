import UpgradeSafety.Proofs.Alignment.Edits

/-!
# Valid and cheapest scripts

An edit script is valid for two lists when its steps take the former elements and the updated ones
in order, every pair carries its own difference, and exactly the elements added beyond the length
of the former list are appended (`IsScript`). Its total is the sum of the prices of its steps, each
priced by the position it starts from (`Tariff.total`).

* `align?_cheapest`: two lists always have a script, it is valid, and no valid script has a smaller
  total.

Prices may be negative. The costs of the table are the least totals of steps into a position, and
the steps that are read off the table account for their position's cost.
-/

namespace UpgradeSafety.Alignment

/-! ## Costs of steps -/

section Steps

variable (p : Prices) (n : Nat)

/-- The prices of steps from a position on, added up. -/
def Prices.sum : Nat → Nat → List Step → Int
  | _, _, [] => 0
  | i, j, .pair _ _ :: steps => p.pair (i + 1) (j + 1) + sum (i + 1) (j + 1) steps
  | i, j, .insert _ :: steps => p.insertOrAppend n i (j + 1) + sum i (j + 1) steps
  | i, j, .append _ :: steps => p.insertOrAppend n i (j + 1) + sum i (j + 1) steps
  | i, j, .delete _ :: steps => p.delete (i + 1) + sum (i + 1) j steps

variable {p n} {m : Nat} {t : Table}

theorem Prices.sum_add (i j : Nat) (steps : List Step) :
    p.sum n i j ((if n < j + 1 then .append j else .insert j) :: steps) =
      p.insertOrAppend n i (j + 1) + p.sum n i (j + 1) steps := by
  split <;> rfl

/-- The steps that are read off the table cost what the table says of their end. -/
theorem sum_readBack (ht : ∀ i ≤ n, ∀ j ≤ m, t.cost i j = least p n i j) {i j : Nat}
    (hi : i ≤ n) (hj : j ≤ m) {later steps : List Step}
    (h : readBack p n t i j later = some steps) :
    p.sum n 0 0 steps = least p n i j + p.sum n i j later := by
  fun_induction readBack p n t i j later with
  | case1 later =>
    cases h
    rw [least, Int.zero_add]
  | case2 later j hcost ih =>
    rw [ht 0 hi (j + 1) hj, ht 0 hi j (by omega)] at hcost
    simp only [dite_eq_ite] at ih
    rw [ih (by omega) (by omega) h, Prices.sum_add, hcost, Int.add_assoc]
  | case4 later i hcost ih =>
    rw [ht (i + 1) hi 0 hj, ht i (by omega) 0 hj] at hcost
    rw [ih (by omega) (by omega) h, Prices.sum, hcost, Int.add_assoc]
  | case6 later i j hcost ih =>
    rw [ht (i + 1) hi (j + 1) hj, ht i (by omega) j (by omega)] at hcost
    rw [ih (by omega) (by omega) h, Prices.sum, hcost, Int.add_assoc]
  | case7 later i j hpair hcost ih =>
    rw [ht (i + 1) hi (j + 1) hj, ht (i + 1) hi j (by omega)] at hcost
    simp only [dite_eq_ite] at ih
    rw [ih (by omega) (by omega) h, Prices.sum_add, hcost, Int.add_assoc]
  | case8 later i j hpair hinsert hcost ih =>
    rw [ht (i + 1) hi (j + 1) hj, ht i (by omega) (j + 1) hj] at hcost
    rw [ih (by omega) (by omega) h, Prices.sum, hcost, Int.add_assoc]
  | case3 | case5 | case9 => cases h

/-- The script has the least cost. -/
theorem sum_script? {steps : List Step} (h : script? p n m = some steps) :
    p.sum n 0 0 steps = least p n n m := by
  have hsum := sum_readBack (fun _ hi _ hj => cost_table p n hi hj) (Nat.le_refl n)
    (Nat.le_refl m) h
  rw [hsum, Prices.sum, Int.add_zero]

end Steps

/-! ## Valid scripts -/

section Edits

variable {α β ρ : Type}

namespace Edit

/-- The former element of a step. -/
def former? : Edit α β ρ → Option α
  | equal x _ | substitute x _ _ | delete x => some x
  | insert _ | append _ => none

/-- The updated element of a step. -/
def updated? : Edit α β ρ → Option β
  | equal _ y | substitute _ y _ | insert y | append y => some y
  | delete _ => none

end Edit

/-- The steps take the elements of two lists in order, pairs carry their differences, and an element
is appended exactly when its index is not below the length of the former list. -/
structure IsScript (d : α → β → Option ρ) (a : List α) (b : List β) (script : List (Edit α β ρ)) :
    Prop where
  former : script.filterMap Edit.former? = a
  updated : script.filterMap Edit.updated? = b
  equal : ∀ x y, .equal x y ∈ script → d x y = none
  substitute : ∀ x y r, .substitute x y r ∈ script → d x y = some r
  insert : ∀ front y back, script = front ++ .insert y :: back →
    (front.filterMap Edit.updated?).length < a.length
  append : ∀ front y back, script = front ++ .append y :: back →
    a.length ≤ (front.filterMap Edit.updated?).length

/-- The total of a script from a position on: a pair has the price of its difference, and an element
that is added beyond `n` is free. Behind the first `i` former elements, the element of index `j - 1`
is inserted for `t.insert i j`, and the former one of index `i - 1` is deleted for `t.delete i`. -/
def Tariff.total (t : Tariff ρ) (n : Nat) : Nat → Nat → List (Edit α β ρ) → Int
  | _, _, [] => 0
  | i, j, .equal _ _ :: script => t.pair none + total t n (i + 1) (j + 1) script
  | i, j, .substitute _ _ r :: script => t.pair (some r) + total t n (i + 1) (j + 1) script
  | i, j, .insert _ :: script | i, j, .append _ :: script =>
    (if n < j + 1 then 0 else t.insert i (j + 1)) + total t n i (j + 1) script
  | i, j, .delete _ :: script => t.delete (i + 1) + total t n (i + 1) j script

variable {t : Tariff ρ} {a : List α} {b : List β} {rows : List (List (Option ρ))}

/-- A filled script costs what its steps cost. -/
theorem total_of_filled {n i j i' j' : Nat} {steps : List Step} {script : List (Edit α β ρ)}
    (hleads : Leads n i j steps i' j') (h : List.Forall₂ (Filled a b rows) steps script) :
    t.total n i j script = (t.prices (known rows)).sum n i j steps := by
  induction hleads generalizing script with
  | done =>
    cases h
    rfl
  | @pair i j _ _ _ _ ih =>
    obtain ⟨e, script, he, hrest, rfl⟩ := List.forall₂_cons_left_iff.mp h
    have hprice : (t.prices (known rows)).pair (i + 1) (j + 1) = t.pair (difference rows i j) := rfl
    cases he with
    | equal _ _ hd => rw [Tariff.total, Prices.sum, hprice, hd, ih hrest]
    | substitute _ _ hd => rw [Tariff.total, Prices.sum, hprice, hd, ih hrest]
  | insert _ _ ih =>
    obtain ⟨_, script, ⟨_⟩, hrest, rfl⟩ := List.forall₂_cons_left_iff.mp h
    rw [Tariff.total, Prices.sum, ih hrest]
    rfl
  | append _ _ ih =>
    obtain ⟨_, script, ⟨_⟩, hrest, rfl⟩ := List.forall₂_cons_left_iff.mp h
    rw [Tariff.total, Prices.sum, ih hrest]
    rfl
  | delete _ ih =>
    obtain ⟨_, script, ⟨_⟩, hrest, rfl⟩ := List.forall₂_cons_left_iff.mp h
    rw [Tariff.total, Prices.sum, ih hrest]
    rfl

/-- The former elements of a filled script are those of its steps. -/
theorem former_of_filled {steps : List Step} {script : List (Edit α β ρ)}
    (h : List.Forall₂ (Filled a b rows) steps script) :
    (script.filterMap Edit.former?).map some = (steps.filterMap Step.row?).map (a[·]?) := by
  induction h with
  | nil => rfl
  | cons he _ ih =>
    cases he with
    | equal hx | substitute hx | delete hx =>
      simp only [List.filterMap_cons, Edit.former?, Step.row?, List.map_cons, hx, ih]
    | insert | append => exact ih

/-- The updated elements of a filled script are those of its steps. -/
theorem updated_of_filled {steps : List Step} {script : List (Edit α β ρ)}
    (h : List.Forall₂ (Filled a b rows) steps script) :
    (script.filterMap Edit.updated?).map some = (steps.filterMap Step.column?).map (b[·]?) := by
  induction h with
  | nil => rfl
  | cons he _ ih =>
    cases he with
    | equal _ hy | substitute _ hy | insert hy | append hy =>
      simp only [List.filterMap_cons, Edit.updated?, Step.column?, List.map_cons, hy, ih]
    | delete => exact ih

theorem eq_of_map_getElem? {γ : Type} {l l' : List γ}
    (h : l.map some = (List.range' 0 l'.length).map (l'[·]?)) : l = l' := by
  have hl' : (List.range' 0 l'.length).map (l'[·]?) = l'.map some :=
    List.ext_getElem (by simp) fun i hi _ => by simp
  rw [hl'] at h
  exact List.map_inj_right (fun _ _ => Option.some.inj) |>.mp h

theorem difference_map {d : α → β → Option ρ} {i j : Nat} {x : α} {y : β} (hx : a[i]? = some x)
    (hy : b[j]? = some y) : difference (a.map fun x => b.map (d x)) i j = d x y := by
  rw [difference_eq]
  simp [hx, hy]

/-- The position where a step stands in the updated list. -/
theorem column_of_split {d : α → β → Option ρ} {front back : List (Edit α β ρ)} {e : Edit α β ρ}
    {steps : List Step} {m : Nat} (hleads : Leads a.length 0 0 steps a.length m)
    (h : List.Forall₂ (Filled a b (a.map fun x => b.map (d x))) steps (front ++ e :: back)) :
    ∃ s i, Filled a b (a.map fun x => b.map (d x)) s e ∧ ∃ rest,
      Leads a.length i (front.filterMap Edit.updated?).length (s :: rest) a.length m := by
  obtain ⟨front', s, rest, rfl, hfront, hs, -⟩ := split_of_forall₂ h
  obtain ⟨i, j, hbefore, hbehind⟩ := hleads.split
  have hlength : (front.filterMap Edit.updated?).length = j := by
    have := congrArg List.length (updated_of_filled hfront)
    rw [hbefore.columns] at this
    simpa using this
  exact ⟨s, i, hs, rest, hlength ▸ hbehind⟩

/-- The steps between two lists, filled in, are a valid script. -/
theorem isScript_of_filled {d : α → β → Option ρ} {steps : List Step}
    {script : List (Edit α β ρ)} (hleads : Leads a.length 0 0 steps a.length b.length)
    (h : List.Forall₂ (Filled a b (a.map fun x => b.map (d x))) steps script) :
    IsScript d a b script where
  former := eq_of_map_getElem? (by rw [former_of_filled h, hleads.rows, Nat.sub_zero])
  updated := eq_of_map_getElem? (by rw [updated_of_filled h, hleads.columns, Nat.sub_zero])
  equal x y hmem := by
    obtain ⟨k, hk⟩ := List.mem_iff_getElem?.mp hmem
    obtain ⟨s, -, hs⟩ := getElem?_of_forall₂ h.flip hk
    cases hs with
    | equal hx hy hd => rwa [difference_map hx hy] at hd
  substitute x y r hmem := by
    obtain ⟨k, hk⟩ := List.mem_iff_getElem?.mp hmem
    obtain ⟨s, -, hs⟩ := getElem?_of_forall₂ h.flip hk
    cases hs with
    | substitute hx hy hd => rwa [difference_map hx hy] at hd
  insert front y back hsplit := by
    subst hsplit
    obtain ⟨s, i, hs, rest, hstep⟩ := column_of_split hleads h
    cases hs with
    | insert =>
      cases hstep with
      | insert hlt => exact hlt
  append front y back hsplit := by
    subst hsplit
    obtain ⟨s, i, hs, rest, hstep⟩ := column_of_split hleads h
    cases hs with
    | append =>
      cases hstep with
      | append hle => exact hle

/-- Steps that take the rest of two lists from a position on lead to the ends at no less than the
least cost. -/
theorem least_le_total {d : α → β → Option ρ} {p : Prices} {script : List (Edit α β ρ)}
    (hp : p = t.prices (known (a.map fun x => b.map (d x)))) {i j : Nat}
    (hformer : script.filterMap Edit.former? = a.drop i)
    (hupdated : script.filterMap Edit.updated? = b.drop j) (hi : i ≤ a.length) (hj : j ≤ b.length)
    (hequal : ∀ x y, .equal x y ∈ script → d x y = none)
    (hsubstitute : ∀ x y r, .substitute x y r ∈ script → d x y = some r) :
    least p a.length a.length b.length ≤
      least p a.length i j + t.total a.length i j script := by
  have htake {γ : Type} {l rest : List γ} {k : Nat} {x : γ} (h : x :: rest = l.drop k) :
      k < l.length ∧ l[k]? = some x ∧ rest = l.drop (k + 1) := by
    have hlt : k < l.length := by
      by_contra hle
      rw [List.drop_eq_nil_of_le (by omega)] at h
      cases h
    rw [List.drop_eq_getElem_cons hlt] at h
    cases h
    exact ⟨hlt, List.getElem?_eq_getElem hlt, rfl⟩
  induction script generalizing i j with
  | nil =>
    have hi' : i = a.length := by
      have := congrArg List.length hformer
      simp at this
      omega
    have hj' : j = b.length := by
      have := congrArg List.length hupdated
      simp at this
      omega
    simp [hi', hj', Tariff.total]
  | cons e script ih =>
    have hequal' : ∀ x y, .equal x y ∈ script → d x y = none :=
      fun x y h => hequal x y (List.mem_cons_of_mem e h)
    have hsubstitute' : ∀ x y r, .substitute x y r ∈ script → d x y = some r :=
      fun x y r h => hsubstitute x y r (List.mem_cons_of_mem e h)
    have hpair {x : α} {y : β} (hx : a[i]? = some x) (hy : b[j]? = some y) :
        p.pair (i + 1) (j + 1) = t.pair (d x y) := by
      rw [hp, ← difference_map (d := d) hx hy]
      rfl
    cases e with
    | equal x y =>
      obtain ⟨hi', hx, hformer'⟩ := htake hformer
      obtain ⟨hj', hy, hupdated'⟩ := htake hupdated
      have hrest := ih hformer' hupdated' hi' hj' hequal' hsubstitute'
      have hstep := least_le_pair (p := p) (n := a.length) i j
      rw [hpair hx hy, hequal x y List.mem_cons_self] at hstep
      rw [Tariff.total]
      omega
    | substitute x y r =>
      obtain ⟨hi', hx, hformer'⟩ := htake hformer
      obtain ⟨hj', hy, hupdated'⟩ := htake hupdated
      have hrest := ih hformer' hupdated' hi' hj' hequal' hsubstitute'
      have hstep := least_le_pair (p := p) (n := a.length) i j
      rw [hpair hx hy, hsubstitute x y r List.mem_cons_self] at hstep
      rw [Tariff.total]
      omega
    | insert y | append y =>
      obtain ⟨hj', -, hupdated'⟩ := htake hupdated
      have hrest := ih hformer hupdated' hi hj' hequal' hsubstitute'
      have hstep := least_le_insert (p := p) (n := a.length) i j
      have hprice : p.insertOrAppend a.length i (j + 1) =
          if a.length < j + 1 then 0 else t.insert i (j + 1) := by rw [hp]; rfl
      rw [hprice] at hstep
      rw [Tariff.total]
      omega
    | delete x =>
      obtain ⟨hi', -, hformer'⟩ := htake hformer
      have hrest := ih hformer' hupdated hi' hj hequal' hsubstitute'
      have hstep := least_le_delete (p := p) (n := a.length) i j
      have hprice : p.delete (i + 1) = t.delete (i + 1) := by rw [hp]; rfl
      rw [hprice] at hstep
      rw [Tariff.total]
      omega

/-- Two lists always have an edit script. It is valid, and no valid script has a smaller total. -/
theorem align?_cheapest (t : Tariff ρ) (a : List α) (b : List β) (d : α → β → Option ρ) :
    ∃ script, align? t a b d = some script ∧ IsScript d a b script ∧
      ∀ other, IsScript d a b other → t.total a.length 0 0 script ≤ t.total a.length 0 0 other := by
  obtain ⟨script, hscript⟩ := exists_edits t a b (a.map fun x => b.map (d x))
  obtain ⟨steps, hsteps, hfilled⟩ := edits?_eq_some_iff.mp hscript
  obtain ⟨steps', hsteps', hleads⟩ := script?_leads
    (t.prices (known (a.map fun x => b.map (d x)))) a.length b.length
  rw [hsteps] at hsteps'
  cases hsteps'
  refine ⟨script, hscript, isScript_of_filled hleads hfilled, fun other hother => ?_⟩
  have hleast := least_le_total (t := t) rfl hother.former hother.updated (Nat.zero_le _)
    (Nat.zero_le _) hother.equal hother.substitute
  rw [least, Int.zero_add] at hleast
  rwa [total_of_filled hleads hfilled, sum_script? hsteps]

/-- A deletion between two kept elements, and one element behind them. -/
example : (align? (.standard Unit) ["a", "b", "c"] ["a", "c", "d", "e"]
    (fun x y => if x = y then none else some ())).map (Tariff.total (.standard Unit) 3 0 0) =
      some 4 := by
  decide +kernel

end Edits

end UpgradeSafety.Alignment
