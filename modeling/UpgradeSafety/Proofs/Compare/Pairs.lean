import UpgradeSafety.Proofs.Alignment.Edits
import UpgradeSafety.Proofs.Compare.Memory

/-!
# What a comparison knows of two lists

Before two lists are aligned, every pair of variables is compared on its own. The alignment is the
cheapest script for these differences (`alignment`), and the operations are judged from the script
with its variables filled in. So a comparison of lists has three parts, and a result on it begins
by taking them apart; how types are compared is a parameter of all three.

A pair that is not one of two gaps has the gravest of its differences
(`variableChange_eq_gravestChange`), and its price is zero when it has none or has only moved or
been resized.

* `listChanges_eq_ok_iff`: the parts of a comparison that is not stopped.
* `run_listChanges`: a comparison that starts with a sound memory finds what one finds that
  compares all types afresh.
* `gravestChange_eq_none_iff`: when two variables do not differ.
* `prices_insert_eq_zero` and `exists_gap_of_prices_insert`: an insertion is free only into a gap.
-/

namespace UpgradeSafety.Compare

open UpgradeSafety.Alignment (difference difference_eq known Filled)

/-! ## Differences of all pairs -/

/-- The prices for two lists whose differences are known. -/
abbrev prices (former updated : List Variable) (rows : List (List (Option Change))) :
    Alignment.Prices :=
  (tariff former.toArray updated.toArray).prices (known rows)

section Lists

variable {tc : CompareTypes (Except Obstacle)} {former updated : List Variable} {a : Bool}
  {rows : List (List (Option Change))}

theorem differences_eq_ok_iff :
    differences tc former updated a = .ok rows ↔
      List.Forall₂ (fun p row => List.Forall₂ (fun u d =>
        variableChange (tc p.1.type u.type (a && p.2 + 1 == former.length)) former p.2 p.1 u =
          .ok d) updated row) former.zipIdx rows := by
  rw [differences, mapM_eq_ok_iff]
  simp only [mapM_eq_ok_iff]

/-- The table holds the difference of every pair. -/
theorem variableChange_eq_difference (h : differences tc former updated a = .ok rows) {i j : Nat}
    {o u : Variable} (ho : former[i]? = some o) (hu : updated[j]? = some u) :
    variableChange (tc o.type u.type (a && i + 1 == former.length)) former i o u =
      .ok (difference rows i j) := by
  have hoi : former.zipIdx[i]? = some (o, i) := by
    rw [List.getElem?_zipIdx, ho]
    simp
  obtain ⟨row, hrow, hpairs⟩ := getElem?_of_forall₂ (differences_eq_ok_iff.mp h) hoi
  obtain ⟨d, hd, hpair⟩ := getElem?_of_forall₂ hpairs hu
  have hentry : difference rows i j = d := by
    simp [difference_eq, hrow, hd]
  rw [hentry]
  exact hpair

/-- Two lists have a table of differences when every pair has a difference. -/
theorem exists_differences (h : ∀ i o, former[i]? = some o → ∀ u ∈ updated,
      ∃ d, variableChange (tc o.type u.type (a && i + 1 == former.length)) former i o u = .ok d) :
    ∃ rows, differences tc former updated a = .ok rows := by
  simp only [differences_eq_ok_iff]
  refine exists_forall₂ fun p hp => exists_forall₂ fun u hu => ?_
  exact h p.2 p.1 (List.mem_zipIdx_iff_getElem?.mp hp) u hu

/-! ## Prices -/

theorem prices_pair (i j : Nat) :
    (prices former updated rows).pair (i + 1) (j + 1) = pairPrice (difference rows i j) := rfl

/-- An insertion is free only into a gap. -/
theorem exists_gap_of_prices_insert {i j : Nat}
    (h : (prices former updated rows).insert i (j + 1) = 0) :
    ∃ u g, updated[j]? = some u ∧ g ∈ former ∧ g.isGap = true ∧ u.startsIn g = true := by
  simp only [prices, Alignment.Tariff.prices, tariff, List.getElem?_toArray,
    Nat.add_sub_cancel] at h
  split at h
  · rename_i u hu
    have hinside := not_not.mp fun hne => absurd (ite_eq_left_iff.mp h hne) (by decide)
    rcases Bool.or_eq_true_iff.mp hinside with hinside | hinside
    · obtain ⟨-, hinside⟩ := Bool.and_eq_true_iff.mp hinside
      split at hinside
      · rename_i g hg
        obtain ⟨hgap, hstarts⟩ := Bool.and_eq_true_iff.mp hinside
        exact ⟨u, g, hu, List.mem_of_getElem? hg, hgap, hstarts⟩
      · cases hinside
    · split at hinside
      · rename_i g hg
        obtain ⟨hgap, hstarts⟩ := Bool.and_eq_true_iff.mp hinside
        exact ⟨u, g, hu, List.mem_of_getElem? hg, hgap, hstarts⟩
      · cases hinside
  · cases h

/-- An insertion directly before a former gap is free when the variable starts in it. -/
theorem prices_insert_eq_zero {i j : Nat} {g u : Variable} (hu : updated[j]? = some u)
    (hg : former[i]? = some g) (hgap : g.isGap = true) (hstarts : u.startsIn g = true) :
    (prices former updated rows).insert i (j + 1) = 0 := by
  simp [prices, Alignment.Tariff.prices, tariff, hu, hg, hgap, hstarts]

theorem pairPrice_nonneg (d : Option Change) : 0 ≤ pairPrice d := by
  unfold pairPrice
  split <;> decide

theorem prices_nonneg (former updated : List Variable) (rows : List (List (Option Change))) :
    (prices former updated rows).Nonneg where
  pair i j := pairPrice_nonneg _
  insert i j := by
    simp only [prices, Alignment.Tariff.prices, tariff]
    split
    · split <;> decide
    · decide
  delete i := by
    simp only [prices, Alignment.Tariff.prices, tariff]
    split
    · split <;> decide
    · decide

/-! ## The script -/

theorem checkedChange_eq_ok {tc : CompareTypes (Except Obstacle)} {o u : TypeNode} {a : Bool}
    {found : Option TypeChange} (h : checkedChange tc o u a = .ok found) :
    tc o u a = .ok found := by
  rw [checkedChange, bind_eq_ok_iff] at h
  obtain ⟨found', hfound, h⟩ := h
  split at h
  · obtain ⟨_, -, h⟩ := bind_eq_ok_iff.mp h
    obtain ⟨_, -, h⟩ := bind_eq_ok_iff.mp h
    cases h
    exact hfound
  · cases h
    exact hfound

theorem checkedChange_eq_none {tc : CompareTypes (Except Obstacle)} {o u : TypeNode} {a : Bool}
    (h : tc o u a = .ok none) : checkedChange tc o u a = .ok none := by
  rw [checkedChange, h]
  rfl

/-- The steps that align two lists. -/
def alignment (tc : CompareTypes (Except Obstacle)) (former updated : List Variable)
    (allowAppend : Bool) : Except Obstacle (List Alignment.Step) := do
  let rows ← differences (checkedChange tc) former updated allowAppend
  match Alignment.script? (prices former updated rows) former.length updated.length with
  | some steps => pure steps
  | none => throw .unaligned

theorem liftObstacle_eq {α : Type} (x : Except Obstacle α) : liftObstacle x = x := by
  cases x <;> rfl

/-- The parts of a comparison of two lists that is not stopped. -/
theorem listChanges_eq_ok_iff {strict : Bool} {ops : List Operation} :
    listChanges strict tc former updated a = .ok ops ↔
      demandGaps former updated = .ok () ∧ ∃ rows steps script,
        differences (checkedChange tc) former updated a = .ok rows ∧
        Alignment.script? (prices former updated rows) former.length updated.length = some steps ∧
        List.Forall₂ (Filled former updated rows) steps script ∧
        judge strict a former script = .ok ops := by
  simp only [listChanges, liftObstacle_eq, bind_eq_ok_iff]
  constructor
  · rintro ⟨⟨⟩, hgaps, rows, hrows, h⟩
    rw [operations] at h
    split at h
    · cases h
    · rename_i script hscript
      obtain ⟨steps, hsteps, hfilled⟩ := Alignment.edits?_eq_some_iff.mp hscript
      exact ⟨hgaps, rows, steps, script, hrows, hsteps, hfilled, h⟩
  · rintro ⟨hgaps, rows, steps, script, hrows, hsteps, hfilled, hjudge⟩
    refine ⟨(), hgaps, rows, hrows, ?_⟩
    rw [operations, Alignment.edits?_eq_some_iff.mpr ⟨steps, hsteps, hfilled⟩]
    exact hjudge

theorem alignment_eq_ok {rows : List (List (Option Change))} {steps : List Alignment.Step}
    (hrows : differences (checkedChange tc) former updated a = .ok rows)
    (hsteps : Alignment.script? (prices former updated rows) former.length updated.length =
      some steps) : alignment tc former updated a = .ok steps := by
  rw [alignment, hrows]
  change (match Alignment.script? (prices former updated rows) _ _ with
    | some steps => pure steps
    | none => throw Obstacle.unaligned) = _
  rw [hsteps]
  rfl

end Lists

/-! ## Differences of a pair -/

section Pair

variable {found : Except Obstacle (Option TypeChange)} {siblings : List Variable} {i : Nat}
  {o u : Variable}

theorem namesDiffer_eq_false_iff {o u : Item} :
    namesDiffer o u = false ↔
      u.renamedFrom = some o.label ∨ (u.renamedFrom = none ∧ u.label = o.label) := by
  unfold namesDiffer
  cases u.renamedFrom with
  | none => simp
  | some name => simp

theorem move?_eq_none_iff {o u : Item} :
    move? o u = none ↔ ∀ s t, o.slot = some s → u.slot = some t →
      s = t ∧ o.offset.getD 0 = u.offset.getD 0 := by
  unfold move?
  cases o.slot with
  | none => simp
  | some s =>
    cases u.slot with
    | none => simp
    | some t =>
      by_cases hslot : s = t <;> by_cases hoffset : o.offset.getD 0 = u.offset.getD 0 <;>
        simp [hslot, hoffset]

/-- Two variables do not differ when name and position agree and the types fit or are integers of
which the updated one may be wider. -/
theorem gravestChange_eq_none_iff {type : Option TypeChange} :
    gravestChange siblings i o u type = none ↔
      namesDiffer o.item u.item = false ∧ move? o.item u.item = none ∧
        (type = none ∨ widens siblings i o u = true) := by
  unfold gravestChange
  cases type with
  | none => cases namesDiffer o.item u.item <;> simp
  | some t =>
    cases widens siblings i o u <;> cases namesDiffer o.item u.item <;> simp

/-- Whether the type of an updated variable is accepted, given the comparison of the types: it is
declared, or it fits, or it is an integer that may be wider. -/
def TypeFits (found : Except Obstacle (Option TypeChange)) (siblings : List Variable) (i : Nat)
    (o u : Variable) : Prop :=
  declaresType o u = true ∨ found = .ok none ∨
    (widens siblings i o u = true ∧ ∃ t, found = .ok (some t))

/-- Whether two variables are gaps with the same elements. Only their sizes and places are
compared. -/
def areGaps (o u : Variable) : Bool := o.isGap && u.isGap && sameGapElement o.type u.type

theorem areGaps_eq_false (h : o.isGap = false ∨ u.isGap = false) : areGaps o u = false := by
  rw [areGaps]
  rcases h with h | h <;> simp [h]

/-- A pair that is not one of two gaps has the gravest of its differences. -/
theorem variableChange_eq_gravestChange {d : Option Change} (hgaps : areGaps o u = false)
    (h : variableChange found siblings i o u = .ok d) :
    ∃ type, d = gravestChange siblings i o u type ∧
      (declaresType o u = true ∧ type = none ∨ declaresType o u = false ∧ found = .ok type) := by
  unfold variableChange at h
  rw [← areGaps, hgaps, if_neg Bool.false_ne_true] at h
  split at h
  · rename_i hdeclares
    cases h
    exact ⟨none, rfl, Or.inl ⟨hdeclares, rfl⟩⟩
  · rename_i hdeclares
    obtain ⟨type, htype, h'⟩ := bind_eq_ok_iff.mp h
    cases h'
    exact ⟨type, rfl, Or.inr ⟨Bool.eq_false_iff.mpr hdeclares, htype⟩⟩

/-- When a pair that is not one of two gaps does not differ. -/
theorem variableChange_eq_none_iff (hgaps : areGaps o u = false) :
    variableChange found siblings i o u = .ok none ↔
      namesDiffer o.item u.item = false ∧ move? o.item u.item = none ∧
        TypeFits found siblings i o u := by
  constructor
  · intro h
    obtain ⟨type, hnone, htype⟩ := variableChange_eq_gravestChange hgaps h
    obtain ⟨hnames, hmove, hfits⟩ := gravestChange_eq_none_iff.mp hnone.symm
    refine ⟨hnames, hmove, ?_⟩
    rcases htype with ⟨hdeclares, -⟩ | ⟨-, hfound⟩
    · exact Or.inl hdeclares
    · cases type with
      | none => exact Or.inr (Or.inl hfound)
      | some t =>
        rcases hfits with hfits | hwidens
        · cases hfits
        · exact Or.inr (Or.inr ⟨hwidens, t, hfound⟩)
  · rintro ⟨hnames, hmove, hfits⟩
    have hnone (type : Option TypeChange) (h : type = none ∨ widens siblings i o u = true) :
        gravestChange siblings i o u type = none :=
      gravestChange_eq_none_iff.mpr ⟨hnames, hmove, h⟩
    unfold variableChange
    rw [← areGaps, hgaps, if_neg Bool.false_ne_true]
    split
    · rw [hnone none (Or.inl rfl)]
      rfl
    · rename_i hdeclares
      rcases hfits with h | h | ⟨hwidens, t, h⟩
      · exact absurd h hdeclares
      · rw [h]
        exact congrArg Except.ok (hnone none (Or.inl rfl))
      · rw [h]
        exact congrArg Except.ok (hnone (some t) (Or.inr hwidens))

/-- Pairing variables with different names costs something, unless both are gaps. -/
theorem pairPrice_of_namesDiffer {d : Option Change} (hgaps : areGaps o u = false)
    (hnames : namesDiffer o.item u.item = true)
    (h : variableChange found siblings i o u = .ok d) : pairPrice d ≠ 0 := by
  have hprice : (3 : Int) ≠ 0 := by decide
  obtain ⟨type, rfl, -⟩ := variableChange_eq_gravestChange hgaps h
  unfold gravestChange
  dsimp only
  rw [hnames]
  split
  · exact hprice
  · exact hprice
  · rename_i hfalse
    cases hfalse
  · rename_i hfalse
    cases hfalse

theorem gravestChange_ne_resizeGap {type : Option TypeChange} {o' u' : Variable} {n : Option Int} :
    gravestChange siblings i o u type ≠ some (.resizeGap o' u' n) := by
  intro h
  unfold gravestChange at h
  dsimp only at h
  split at h
  · cases h
  · cases h
  · cases h
  · obtain ⟨_, -, h'⟩ := Option.map_eq_some_iff.mp h
    cases h'

/-- Only a pair of gaps is a resized gap. -/
theorem isGap_of_resizeGap {o' u' : Variable} {n : Option Int}
    (h : variableChange found siblings i o u = .ok (some (.resizeGap o' u' n))) :
    o' = o ∧ u' = u ∧ o.isGap = true ∧ u.isGap = true := by
  cases hgaps : areGaps o u with
  | false =>
    obtain ⟨type, h', -⟩ := variableChange_eq_gravestChange hgaps h
    exact absurd h'.symm gravestChange_ne_resizeGap
  | true =>
    unfold variableChange at h
    rw [← areGaps, hgaps, if_pos rfl] at h
    rw [areGaps, Bool.and_eq_true, Bool.and_eq_true] at hgaps
    split at h
    · cases h
    · cases h
      exact ⟨rfl, rfl, hgaps.1⟩

end Pair

/-! ## Runs -/

/-- Comparing all types afresh finds for two lists what plain recursion finds. -/
theorem listChanges_fresh_iff {leniency : Leniency} {og ug : TypeGraph} (hog : og.Keyed)
    (hug : ug.Keyed) {os us : List Item} {strict a : Bool} {ops : List Operation} :
    listChanges strict (freshChange leniency og ug) (os.map og.variable) (us.map ug.variable) a =
        .ok ops ↔
      listChanges strict (plainChange leniency og ug (pairBound og ug)) (os.map og.variable)
        (us.map ug.variable) a = .ok ops := by
  constructor
  · refine Transfer.found.listChanges strict a (fun v hv w hw b r hr => ?_) ops
    obtain ⟨i, -, rfl⟩ := List.mem_map.mp hv
    obtain ⟨j, -, rfl⟩ := List.mem_map.mp hw
    exact (freshChange_eq_ok_iff hog hug).mp hr
  · refine Transfer.found.listChanges strict a (fun v hv w hw b r hr => ?_) ops
    obtain ⟨i, -, rfl⟩ := List.mem_map.mp hv
    obtain ⟨j, -, rfl⟩ := List.mem_map.mp hw
    exact (freshChange_eq_ok_iff hog hug).mpr hr

/-- The types of two variables are compared afresh as plain recursion compares them. -/
theorem freshChange_vars_iff {leniency : Leniency} {former updated : Resolved}
    (hog : former.graph.Keyed) (hug : updated.graph.Keyed) {o u : Variable} (ho : o ∈ former.vars)
    (hu : u ∈ updated.vars) {a : Bool} {r : Option TypeChange} :
    freshChange leniency former.graph updated.graph o.type u.type a = .ok r ↔
      plainChange leniency former.graph updated.graph (pairBound former.graph updated.graph) o.type
        u.type a = .ok r := by
  obtain ⟨m, -, rfl⟩ := List.mem_map.mp ho
  obtain ⟨k, -, rfl⟩ := List.mem_map.mp hu
  exact freshChange_eq_ok_iff hog hug

/-- Two lists are aligned as plain recursion aligns them. -/
theorem alignment_fresh_of_plain {leniency : Leniency} {og ug : TypeGraph} (hog : og.Keyed)
    (hug : ug.Keyed) {os us : List Item} {a : Bool} {steps : List Alignment.Step}
    (h : alignment (plainChange leniency og ug (pairBound og ug)) (os.map og.variable)
      (us.map ug.variable) a = .ok steps) :
    alignment (freshChange leniency og ug) (os.map og.variable) (us.map ug.variable) a =
      .ok steps := by
  obtain ⟨rows, hrows, hsteps⟩ := bind_eq_ok_iff.mp h
  refine bind_eq_ok_iff.mpr ⟨rows, ?_, hsteps⟩
  refine Transfer.found.differences (fun v hv w hw b => ?_) rows hrows
  refine Transfer.found.checkedChange fun r hr => ?_
  obtain ⟨i, -, rfl⟩ := List.mem_map.mp hv
  obtain ⟨j, -, rfl⟩ := List.mem_map.mp hw
  exact (freshChange_eq_ok_iff hog hug).mpr hr

section Run

variable {leniency : Leniency} {C D : String → Prop} {og ug og' ug' : TypeGraph}
  (hog : og.Keyed) (hug : ug.Keyed) (ho : og.AgreeOn C og') (hu : ug.AgreeOn D ug')
  {os us : List Item} (hos : ∀ i ∈ os, C i.type) (hus : ∀ i ∈ us, D i.type)
include hog hug ho hu hos hus

/-- From a sound memory, a comparison of two lists finds what one finds that compares all types
afresh. -/
theorem run_listChanges {strict a : Bool} {fuel : Nat} {openPairs : List PairKey}
    {memory memory' : Memory} {ops : List Operation} (hI : memory.Sound leniency og' ug')
    (hrun : (listChanges strict (typeChange leniency og ug fuel openPairs) (os.map og.variable)
      (us.map ug.variable) a).run.run memory = (.ok ops, memory')) :
    memory'.Sound leniency og' ug' ∧
      listChanges strict (freshChange leniency og ug) (os.map og.variable) (us.map ug.variable) a =
        .ok ops := by
  have htrack : ∀ v ∈ os.map og.variable, ∀ w ∈ us.map ug.variable, ∀ b,
      (Transfer.tracks (Memory.Sound leniency og' ug')).rel
        (typeChange leniency og ug fuel openPairs v.type w.type b)
        (plainChange leniency og ug (pairBound og ug) v.type w.type b) := by
    intro v hv w hw b
    obtain ⟨i, hi, rfl⟩ := List.mem_map.mp hv
    obtain ⟨j, hj, rfl⟩ := List.mem_map.mp hw
    exact typeChange_tracks hog hug ho hu fuel openPairs (hos i hi) (hus j hj) b
  obtain ⟨hI', hplain⟩ := (Transfer.tracks (Memory.Sound leniency og' ug')).listChanges strict a
    htrack memory hI ops memory' hrun
  exact ⟨hI', (listChanges_fresh_iff hog hug).mpr hplain⟩

/-- What plain recursion finds for two lists, a comparison finds from a sound memory. -/
theorem run_listChanges_of_plain {strict a : Bool} {ops : List Operation}
    (h : listChanges strict (plainChange leniency og ug (pairBound og ug)) (os.map og.variable)
      (us.map ug.variable) a = .ok ops)
    {memory : Memory} (hI : memory.Sound leniency og' ug') :
    ∃ memory', (listChanges strict (typeChange leniency og ug (pairBound og ug) [])
        (os.map og.variable) (us.map ug.variable) a).run.run memory = (.ok ops, memory') ∧
      memory'.Sound leniency og' ug' :=
  (Transfer.attains (Memory.Sound leniency og' ug')).listChanges strict a (fun v hv w hw b => by
      obtain ⟨i, hi, rfl⟩ := List.mem_map.mp hv
      obtain ⟨j, hj, rfl⟩ := List.mem_map.mp hw
      exact typeChange_attains hog hug ho hu (Nat.le_refl _)
        (fun _ _ _ _ hmem => by cases hmem) (hos i hi) (hus j hj) b)
    ops h memory hI

end Run

end UpgradeSafety.Compare
