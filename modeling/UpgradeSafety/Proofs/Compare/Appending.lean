import UpgradeSafety.Proofs.Compare.Tame

/-!
# Lists that are only appended to

A list that is kept and appended to has no operations (`listChanges_append`). The diagonal is free,
but the alignment could prefer another script that is free as well, and pair a new variable with a
former one. Two facts exclude this.

Variables that are no gaps are counted (`solid`): such a variable is paired, or it costs something,
since it stands in no gap. So when the last former variable is no gap, the others are not aligned
for nothing with a list that has room for it (`least_pos_of_append`). And a gap is paired for
nothing with a gap only, since otherwise the names or the types differ (`pairPrice_of_gap`).

The last point needs that no variable with the name of a gap declares the type of one: a pair of a
gap and such a variable would only have moved, which costs nothing. New variables that are gaps are
left out here, since one of them may take the place of a last gap.
-/

namespace UpgradeSafety.Compare

open UpgradeSafety.Alignment (difference)

/-! ## A gap and a variable that is no gap -/

theorem head_of_kind_array {head : String} (h : TypeId.kindOfHead head = .array) :
    head = "t_array" := by
  unfold TypeId.kindOfHead at h
  repeat' split at h
  all_goals first | assumption | cases h

/-- Whether a variable has the name of a gap. -/
def HasGapName (m : Item) : Prop := m.label = "__gap" ∨ m.label = "_gap"

instance (m : Item) : Decidable (HasGapName m) :=
  inferInstanceAs (Decidable (m.label = "__gap" ∨ m.label = "_gap"))

theorem isGap_iff {v : Variable} :
    v.isGap = true ↔ HasGapName v.item ∧ v.type.kind = .array ∧
      ∃ n, v.type.length? = some (.fixed n) := by
  have hlength : v.type.fixedLength?.isSome = true ↔ ∃ n, v.type.length? = some (.fixed n) := by
    rw [TypeNode.fixedLength?]
    cases v.type.length? with
    | none => simp
    | some l => cases l <;> simp [TypeId.Length.fixed?]
  rw [Variable.isGap, Variable.looksLikeGap, Bool.and_eq_true, Bool.and_eq_true, hlength,
    Bool.or_eq_true, beq_iff_eq, beq_iff_eq, beq_iff_eq, and_assoc]
  rfl

section Gap

variable {leniency : Leniency} {og ug : TypeGraph} {inner : CompareTypes (Except Obstacle)}
  {o u : Variable} {a : Bool}

/-- The type of a gap differs from that of a variable of its name that is no gap. -/
theorem typeChangeWith_of_gap (ho : o.isGap = true) (hwell : o.type.WellFormed)
    (hu : u.isGap = false) (hlabel : u.item.label = o.item.label) {found : Option TypeChange}
    (h : typeChangeWith leniency (pure ()) og ug inner o.type u.type a = .ok found) :
    found ≠ none := by
  obtain ⟨hname, hkind, n, hn⟩ := isGap_iff.mp ho
  obtain ⟨i, rest, hargs⟩ := hwell.array hkind
  rintro rfl
  unfold typeChangeWith at h
  split at h
  · cases h
  · rename_i hhead
    have hlength (k : Nat) : u.type.length? ≠ some (.fixed k) := by
      intro hk
      have hgap : u.isGap = true := by
        refine isGap_iff.mpr ⟨?_, ?_, k, hk⟩
        · rw [HasGapName, hlabel]
          exact hname
        · rw [TypeNode.kind, ← Decidable.not_not.mp hhead]
          exact hkind
      rw [hu] at hgap
      cases hgap
    rw [hargs, hkind] at h
    cases huArgs : u.type.args with
    | none =>
      rw [huArgs] at h
      cases h
    | some uArgs =>
      rw [huArgs] at h
      dsimp only at h
      unfold arrayChange at h
      obtain ⟨_, -, h⟩ := bind_eq_ok_iff.mp h
      obtain ⟨_, -, h⟩ := bind_eq_ok_iff.mp h
      rw [hn] at h
      cases hl : u.type.length? with
      | none =>
        rw [hl] at h
        cases h
      | some l =>
        rw [hl] at h
        cases l with
        | dynamic => cases h
        | fixed k => exact hlength k hl

theorem widens_of_isGap (ho : o.isGap = true) (u : Variable) (siblings : List Variable) (i : Nat) :
    widens siblings i o u = false := by
  obtain ⟨-, hkind, -⟩ := isGap_iff.mp ho
  have hinteger : o.type.integer? = none := by
    rw [TypeNode.integer?, head_of_kind_array hkind]
    rfl
  rw [widens, hinteger]

/-- Pairing a gap with a variable that is no gap costs something, unless that variable has the name
of a gap and declares a type. -/
theorem pairPrice_of_gap {siblings : List Variable} {i : Nat} {d : Option Change}
    (ho : o.isGap = true) (hwell : o.type.WellFormed) (hu : u.isGap = false)
    (hname : u.item.renamedFrom = none) (hretyped : HasGapName u.item → u.item.retypedFrom = none)
    (h : variableChange (checkedChange (typeChangeWith leniency (pure ()) og ug inner) o.type u.type
      a) siblings i o u = .ok d) : pairPrice d ≠ 0 := by
  obtain ⟨hgapName, -⟩ := isGap_iff.mp ho
  obtain ⟨type, rfl, htype⟩ := variableChange_eq_gravestChange (areGaps_eq_false (Or.inr hu)) h
  have hwidens := widens_of_isGap ho u siblings i
  have hprice : (3 : Int) ≠ 0 := by decide
  unfold gravestChange
  rw [hwidens, Bool.and_false, if_neg Bool.false_ne_true]
  dsimp only
  cases hnames : namesDiffer o.item u.item with
  | true => cases type <;> exact hprice
  | false =>
    have hlabel : u.item.label = o.item.label := by
      rcases namesDiffer_eq_false_iff.mp hnames with hformer | ⟨-, hlabel⟩
      · rw [hname] at hformer
        cases hformer
      · exact hlabel
    have hnone : u.item.retypedFrom = none := by
      refine hretyped ?_
      rw [HasGapName, hlabel]
      exact hgapName
    rcases htype with ⟨hdeclares, -⟩ | ⟨-, hfound⟩
    · rw [declaresType, hnone] at hdeclares
      cases hdeclares
    · cases type with
      | none =>
        exact absurd rfl (typeChangeWith_of_gap ho hwell hu hlabel (checkedChange_eq_ok hfound))
      | some t => exact hprice

end Gap

/-! ## Counting variables that are no gaps -/

section Count

/-- The number of variables that are no gaps among the first ones. -/
def solid (former : List Variable) (k : Nat) : Nat := (former.take k).countP fun v => !v.isGap

variable {former added : List Variable} {rows : List (List (Option Change))}

theorem solid_succ {k : Nat} {v : Variable} (h : former[k]? = some v) :
    solid former (k + 1) = solid former k + if v.isGap then 0 else 1 := by
  rw [solid, solid, List.take_add_one, h, Option.toList_some, List.countP_append,
    List.countP_singleton]
  cases v.isGap <;> rfl

theorem solid_succ_of_isGap {k : Nat} {v : Variable} (h : former[k]? = some v)
    (hv : v.isGap = true) : solid former (k + 1) = solid former k := by
  rw [solid_succ h, hv, if_pos rfl, Nat.add_zero]

theorem solid_succ_of_not_isGap {k : Nat} {v : Variable} (h : former[k]? = some v)
    (hv : v.isGap = false) : solid former (k + 1) = solid former k + 1 := by
  rw [solid_succ h, hv, if_neg Bool.false_ne_true]

theorem solid_succ_of_le {k : Nat} (h : former.length ≤ k) :
    solid former (k + 1) = solid former k := by
  rw [solid, solid, List.take_of_length_le h, List.take_of_length_le (by omega)]

theorem le_solid_succ (former : List Variable) (k : Nat) :
    solid former k ≤ solid former (k + 1) := by
  by_cases hk : k < former.length
  · rw [solid_succ (List.getElem?_eq_getElem hk)]
    omega
  · exact (solid_succ_of_le (by omega)).ge

theorem solid_succ_le (former : List Variable) (k : Nat) :
    solid former (k + 1) ≤ solid former k + 1 := by
  by_cases hk : k < former.length
  · rw [solid_succ (List.getElem?_eq_getElem hk)]
    split <;> omega
  · exact (solid_succ_of_le (by omega)).le.trans (Nat.le_succ _)

/-- A list with room for a last variable that is no gap cannot be aligned without it for nothing. -/
theorem least_pos_of_append
    (hapart : ∀ v ∈ former, v.isGap = false → ∀ g ∈ former, g.isGap = true → v.startsIn g = false)
    (hpair : ∀ i j o u, former[i]? = some o → (former ++ added)[j]? = some u → o.isGap = true →
      u.isGap = false → pairPrice (difference rows i j) ≠ 0)
    {i j : Nat} {o : Variable} (ho : former[i]? = some o) (hgap : o.isGap = false)
    (hi : former.length = i + 1) (hj : former.length ≤ j) :
    0 < Alignment.least (prices former (former ++ added) rows) former.length i j := by
  -- a free step into a column of a variable that is no gap pairs it with another one
  have hcolumn (k : Nat) {u : Variable} (hu : former[k]? = some u) :
      (former ++ added)[k]? = some u := by
    rw [List.getElem?_append_left (List.getElem?_eq_some_iff.mp hu).1, hu]
  refine Alignment.least_pos_of_excess (fun i j => (solid former j : Int) - solid former i)
    (prices_nonneg former (former ++ added) rows) (by simp) ?_ ?_ ?_ (by omega) ?_
  · intro k l hk hfree
    have hv := List.getElem?_eq_getElem hk
    rw [prices_pair] at hfree
    cases hvg : former[k].isGap with
    | false =>
      have hsolid := solid_succ_of_not_isGap hv hvg
      have hle := solid_succ_le former l
      omega
    | true =>
      have hsolid := solid_succ_of_isGap hv hvg
      have hcolumn' : solid former (l + 1) = solid former l := by
        by_cases hl : l < former.length
        · have hu := List.getElem?_eq_getElem hl
          cases hug : former[l].isGap with
          | false => exact absurd hfree (hpair k l _ _ hv (hcolumn l hu) hvg hug)
          | true => exact solid_succ_of_isGap hu hug
        · exact solid_succ_of_le (by omega)
      omega
  · intro k l _ hfree
    by_cases hl : l < former.length
    · have hu := List.getElem?_eq_getElem hl
      cases hug : former[l].isGap with
      | true => rw [solid_succ_of_isGap hu hug]
      | false =>
        rw [Alignment.Prices.insertOrAppend, if_neg (by omega)] at hfree
        obtain ⟨w, g, hw, hg, hgg, hstarts⟩ := exists_gap_of_prices_insert hfree
        rw [hcolumn l hu] at hw
        cases hw
        rw [hapart _ (List.getElem_mem hl) hug g hg hgg] at hstarts
        cases hstarts
    · rw [solid_succ_of_le (by omega)]
  · intro k l _ _
    have hle := le_solid_succ former k
    omega
  · have hj' : solid former j = solid former (i + 1) := by
      rw [solid, solid, List.take_of_length_le hj, List.take_of_length_le (by omega)]
    have hsolid := solid_succ_of_not_isGap ho hgap
    omega

end Count

/-- A list that is kept and appended to has no operations. -/
theorem listChanges_append {tc : CompareTypes (Except Obstacle)} {strict : Bool}
    {former added : List Variable} {rows : List (List (Option Change))}
    (hgaps : demandGaps former (former ++ added) = .ok ())
    (hrows : differences (checkedChange tc) former (former ++ added) true = .ok rows)
    (hself : ∀ i < former.length, difference rows i i = none)
    (hapart : ∀ v ∈ former, v.isGap = false → ∀ g ∈ former, g.isGap = true → v.startsIn g = false)
    (hadded : ∀ v ∈ added, v.isGap = false)
    (hpair : ∀ i j o u, former[i]? = some o → (former ++ added)[j]? = some u → o.isGap = true →
      u.isGap = false → pairPrice (difference rows i j) ≠ 0) :
    listChanges strict tc former (former ++ added) true = .ok [] := by
  refine listChanges_eq_nil hgaps hrows (by simp) (Or.inl rfl) hself fun i j hi hj hlt => ?_
  have ho := List.getElem?_eq_getElem (show i < former.length by omega)
  cases hgap : former[i].isGap with
  | false => exact Or.inr (least_pos_of_append hapart hpair ho hgap hi hj)
  | true =>
    have hu := List.getElem?_eq_getElem hlt
    refine Or.inl (hpair i j _ _ ho hu hgap (hadded _ ?_))
    rw [List.getElem_append_right hj]
    exact List.getElem_mem _

end UpgradeSafety.Compare
