import UpgradeSafety.Proofs.Compare.CarriedOver

/-!
# Lists without gaps

Where the former list has no gaps, the alignment decides nothing: with strict renames a comparison
has no errors just when every former variable equals the updated one of the same index, and what
stands behind them may be appended (`errorChanges_eq_nil_iff_of_gapFree`). So a removal, an
insertion before the end, a reordering and a replacement are always found.

Every updated variable up to the length of the former list has to be paired or inserted, and
without gaps an insertion costs something. Counting these variables shows that no alignment but the
intended one is free (`least_pos_of_gapFree`), which gives the direction from equal variables to no
errors.

For the other direction there is nothing to count: a script without errors consists of harmless
steps, and of these only keeping and appending are left when there are no gaps, so equal indices
are paired and do not differ (`variableChange_of_clean`). Both directions speak of differences that
are found afresh, which is what a comparison with a sound memory finds.
-/

namespace UpgradeSafety.Compare

open UpgradeSafety.Alignment (Step Leads Filled difference)

section Lists

variable {tc : CompareTypes (Except Obstacle)} {former updated : List Variable} {a : Bool}
  {rows : List (List (Option Change))} {ops : List Operation}
  (hgapFree : ∀ v ∈ former, v.isGap = false)
include hgapFree

/-- Without gaps an insertion before the end costs something. -/
theorem insertOrAppend_ne_zero {i j : Nat} (hj : j < former.length) :
    (prices former updated rows).insertOrAppend former.length i (j + 1) ≠ 0 := by
  rw [Alignment.Prices.insertOrAppend, if_neg (by omega)]
  intro hfree
  obtain ⟨_, g, -, hg, hgap, -⟩ := exists_gap_of_prices_insert hfree
  rw [hgapFree g hg] at hgap
  cases hgap

/-- Without gaps, aligning more updated variables than former ones costs something. -/
theorem least_pos_of_gapFree {i j : Nat} (hi : i < former.length) (hij : i < j) :
    0 < Alignment.least (prices former updated rows) former.length i j :=
  Alignment.least_pos_of_ahead (prices_nonneg former updated rows)
    (fun _ _ hj => insertOrAppend_ne_zero hgapFree hj) hi hij

/-- Without gaps and errors, the variables of equal index are paired and do not differ. -/
theorem variableChange_of_clean (h : listChanges true tc former updated a = .ok ops)
    (hclean : ∀ op ∈ ops, op.note = true) :
    former.length ≤ updated.length ∧ (a = false → updated.length = former.length) ∧
      ∀ i o u, former[i]? = some o → updated[i]? = some u →
        variableChange (checkedChange tc o.type u.type (a && i + 1 == former.length)) former i o u =
          .ok none := by
  obtain ⟨-, rows, steps, script, hrows, hsteps, hfilled, hjudge⟩ := listChanges_eq_ok_iff.mp h
  obtain ⟨steps', hsteps', hleads⟩ :=
    Alignment.script?_leads (prices former updated rows) former.length updated.length
  rw [hsteps] at hsteps'
  cases hsteps'
  have hpaired : ∀ i < former.length, ∃ j, .pair i j ∈ steps := fun i hi =>
    exists_pair_of_not_isGap hleads hfilled hjudge hclean (List.getElem?_eq_getElem hi)
      (hgapFree _ (List.getElem_mem hi))
  -- what has no partner can only be appended, for want of a gap
  have hnew {j : Nat} (hj : j < updated.length) (hnone : ∀ i, .pair i j ∉ steps) :
      a = true ∧ former.length ≤ j := by
    rcases new_of_clean hleads hfilled hjudge hclean (List.getElem?_eq_getElem hj) hnone with
      ⟨g, hg, hgap, -⟩ | happend
    · rw [hgapFree g hg] at hgap
      cases hgap
    · exact happend
  have hcolumns : ∀ j < former.length, j < updated.length → ∃ i, .pair i j ∈ steps := by
    intro j hj hjm
    by_contra hnone
    have := (hnew hjm (not_exists.mp hnone)).2
    omega
  have hdiagonal {i j : Nat} (hij : .pair i j ∈ steps) : j = i :=
    hleads.eq_of_pair hpaired hcolumns hij
  have hle : former.length ≤ updated.length := by
    by_contra hlt
    obtain ⟨j, hj⟩ := hpaired updated.length (by omega)
    have hjm := (hleads.exists_column_iff.mp ⟨_, hj, rfl⟩).2
    have := hdiagonal hj
    omega
  refine ⟨hle, fun ha => ?_, fun i o u ho hu => ?_⟩
  · by_contra hne
    have hnone : ∀ i, .pair i former.length ∉ steps := by
      intro i hi
      have hin := (hleads.exists_row_iff.mp ⟨_, hi, rfl⟩).2
      have := hdiagonal hi
      omega
    have := (hnew (by omega) hnone).1
    rw [ha] at this
    cases this
  · obtain ⟨j, hj⟩ := hpaired i (List.getElem?_eq_some_iff.mp ho).1
    cases hdiagonal hj
    obtain ⟨o', u', ho', hu', hchange⟩ := variableChange_of_pair hrows hfilled hjudge hclean hj
    rw [ho] at ho'
    rw [hu] at hu'
    cases ho'
    cases hu'
    rcases hchange with hchange | ⟨hgap, -⟩
    · exact hchange
    · rw [hgapFree o (List.mem_of_getElem? ho)] at hgap
      cases hgap

/-- Without gaps, lists of which the updated one extends the former one have no operations. -/
theorem listChanges_eq_nil_of_gapFree (strict : Bool)
    (hgaps : demandGaps former updated = .ok ())
    (hrows : differences (checkedChange tc) former updated a = .ok rows)
    (hle : former.length ≤ updated.length) (ha : a = false → updated.length = former.length)
    (hsame : ∀ i o u, former[i]? = some o → updated[i]? = some u →
      variableChange (checkedChange tc o.type u.type (a && i + 1 == former.length)) former i o u =
        .ok none) : listChanges strict tc former updated a = .ok [] := by
  refine listChanges_eq_nil hgaps hrows hle ?_ (fun i hi => ?_) (fun i j hi hj _ => ?_)
  · cases a with
    | true => exact Or.inl rfl
    | false => exact Or.inr (ha rfl)
  · have ho := List.getElem?_eq_getElem hi
    have hu := List.getElem?_eq_getElem (show i < updated.length by omega)
    have hchange := hsame i _ _ ho hu
    rw [variableChange_eq_difference hrows ho hu] at hchange
    exact Except.ok.inj hchange
  · exact Or.inr (least_pos_of_gapFree hgapFree (by omega) (by omega))

end Lists

/-! ## Comparisons under way -/

/-- The difference of a former and an updated variable that are compared afresh; `a` tells whether
appending is allowed at the end of the former list, and `i` is the index of the former variable. -/
def fieldChange (leniency : Leniency) (former updated : Resolved) (a : Bool) (i : Nat)
    (o u : Variable) : Except Obstacle (Option Change) :=
  variableChange
    (checkedChange (freshChange leniency former.graph updated.graph) o.type u.type
      (a && i + 1 == former.vars.length)) former.vars i o u

/-- With strict renames, a comparison with a list without gaps has no errors just when every former
variable equals the updated one of the same index and further variables may be appended, if there
are any. -/
theorem errorChanges_eq_nil_iff_of_gapFree {leniency : Leniency} {former updated : Resolved}
    {memory memory' : Memory} {fuel : Nat} {openPairs : List PairKey} {a : Bool}
    {ops : List Operation} (hstrict : leniency.strictRenames = true)
    (hunderway : Underway leniency former updated memory)
    (hgapFree : ∀ v ∈ former.vars, v.isGap = false)
    (hrun : (listChanges leniency.strictRenames
      (typeChange leniency former.graph updated.graph fuel openPairs) former.vars updated.vars
      a).run.run memory = (.ok ops, memory')) :
    errorChanges ops = [] ↔
      former.vars.length ≤ updated.vars.length ∧
      (a = false → updated.vars.length = former.vars.length) ∧
      ∀ i o u, former.vars[i]? = some o → updated.vars[i]? = some u →
        fieldChange leniency former updated a i o u = .ok none := by
  have hfresh := (hunderway.run hrun).2
  rw [hstrict] at hfresh
  rw [errorChanges_eq_nil_iff]
  constructor
  · exact variableChange_of_clean hgapFree hfresh
  · rintro ⟨hle, ha, hsame⟩
    obtain ⟨hgaps, rows, _, _, hrows, -⟩ := listChanges_eq_ok_iff.mp hfresh
    have hnil := listChanges_eq_nil_of_gapFree hgapFree true hgaps hrows hle ha hsame
    rw [hfresh] at hnil
    cases hnil
    exact fun op hop => by cases hop

/-- The comparison of an address with itself and another one behind it. -/
theorem errorChanges_eq_nil_iff_of_appended_address :
    ∃ former updated memory' ops,
      (listChanges true (typeChange { strictRenames := true } former.graph updated.graph
        (pairBound former.graph updated.graph) []) former.vars updated.vars true).run.run {} =
          (.ok ops, memory') ∧
      former.vars = [address "owner" 0] ∧
      updated.vars = [address "owner" 0, address "admin" 1] ∧
      (errorChanges ops = [] ↔ former.vars.length ≤ updated.vars.length ∧
        (true = false → updated.vars.length = former.vars.length) ∧
        ∀ i o u, former.vars[i]? = some o → updated.vars[i]? = some u →
          fieldChange { strictRenames := true } former updated true i o u = .ok none) := by
  have hsections : Sections (addressLayout [address "owner" 0])
      (addressLayout [address "owner" 0, address "admin" 1]) (addressStorage [address "owner" 0])
      (addressStorage [address "owner" 0, address "admin" 1]) [] [] :=
    ⟨by with_unfolding_all rfl, by with_unfolding_all rfl, rfl, rfl⟩
  have hunderway := hsections.underway { strictRenames := true }
  have hplain : plainSection { strictRenames := true } (addressStorage [address "owner" 0])
      (addressStorage [address "owner" 0, address "admin" 1]) = .ok [] := by
    with_unfolding_all rfl
  obtain ⟨memory', hrun⟩ := hunderway.run_of_plain hplain
  exact ⟨_, _, memory', [], hrun, by with_unfolding_all rfl,
    by with_unfolding_all rfl,
    errorChanges_eq_nil_iff_of_gapFree rfl hunderway (by decide +kernel) hrun⟩

end UpgradeSafety.Compare
