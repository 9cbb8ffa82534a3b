import UpgradeSafety.Proofs.Alignment.Diagonal
import UpgradeSafety.Proofs.Compare.AppendOnly

/-!
# Variables renamed in place

Variables of a list without gaps that get new names where they stand are recognised one by one,
whichever and however many they are and whatever is appended behind them (`layouts_renamed`). A new
name costs as much as any other difference, so it needs an argument that the pairs of equal index
are cheapest: every step away from them costs at least two and has to be undone by another one, and
every pair off the diagonal has different names, too (`RenamedDifferences.steep`).

Three things can stand in the way (`renamed_counterexample`): a number in a type id with too many
digits, an appended type that is not well formed, and gaps in structs of which the size that would
fit cannot be told.
-/

namespace UpgradeSafety.Compare

open UpgradeSafety.Alignment (Step Filled difference)

/-! ## Pairs -/

/-- The pairs of equal index that have different names. -/
def renamedPairs (former updated : List Variable) : List (Variable × Variable) :=
  (former.zip updated).filter fun p => p.1.item.label != p.2.item.label

/-- The operations for the pairs of equal index that have different names: errors with strict renames,
and notes without. -/
def renameOperations (strict : Bool) (id : Option String) (former updated : List Variable) :
    List Operation :=
  (renamedPairs former updated).map fun p => ⟨.rename p.1 p.2, !strict, id⟩

/-- The difference of a pair of which only the names may differ. -/
def nameChange (o u : Variable) : Option Change :=
  if o.item.label != u.item.label then some (.rename o u) else none

/-- The updated item is the former one, under its own label or another one. -/
def Relabels (o u : Item) : Prop := u = { o with label := u.label }

instance (o u : Item) : Decidable (Relabels o u) :=
  inferInstanceAs (Decidable (u = { o with label := u.label }))

namespace Relabels

variable {o u : Item} (h : Relabels o u)
include h

theorem type : u.type = o.type := by rw [h]
theorem slot : u.slot = o.slot := by rw [h]
theorem offset : u.offset = o.offset := by rw [h]
theorem renamedFrom : u.renamedFrom = o.renamedFrom := by rw [h]

end Relabels

/-- Of a variable that only got another label at most the names differ. -/
theorem variableChange_of_relabels {found : Except Obstacle (Option TypeChange)}
    (hfound : found = .ok none) {siblings : List Variable} {i : Nat} {o u : Variable}
    (hgap : o.isGap = false) (hname : o.item.renamedFrom = none) (h : Relabels o.item u.item) :
    variableChange found siblings i o u = .ok (nameChange o u) := by
  have hmove : move? o.item u.item = none := by
    rw [move?_eq_none_iff]
    intro s t hs ht
    rw [h.slot, hs] at ht
    exact ⟨Option.some.inj ht, by rw [h.offset]⟩
  have hnames : namesDiffer o.item u.item = (o.item.label != u.item.label) := by
    simp [namesDiffer, h.renamedFrom, hname, bne, Bool.beq_comm]
  have hgravest : gravestChange siblings i o u none = nameChange o u := by
    simp only [gravestChange, hnames, hmove, nameChange]
    cases o.item.label != u.item.label <;> rfl
  rw [variableChange, ← areGaps, areGaps_eq_false (Or.inl hgap), if_neg Bool.false_ne_true, hfound]
  split
  · exact congrArg Except.ok hgravest
  · exact congrArg Except.ok hgravest

/-! ## Lists -/

section Lists

variable {former updated : List Variable} {rows : List (List (Option Change))}

theorem flatMap_renamed (strict : Bool) (pairs : List (Variable × Variable)) :
    pairs.flatMap (fun p => if p.1.item.label != p.2.item.label then
      [(⟨.rename p.1 p.2, !strict, none⟩ : Operation)] else []) =
      (pairs.filter fun p => p.1.item.label != p.2.item.label).map
        fun p => ⟨.rename p.1 p.2, !strict, none⟩ := by
  induction pairs with
  | nil => rfl
  | cons p pairs ih =>
    rw [List.flatMap_cons, ih, List.filter_cons]
    split <;> rfl

/-- The differences of two lists of which at most the names of the pairs of equal index differ, while
the names of all other pairs do. -/
structure RenamedDifferences (former updated : List Variable) (rows : List (List (Option Change))) :
    Prop where
  gapFree : ∀ v ∈ former, v.isGap = false
  le : former.length ≤ updated.length
  same : ∀ i o u, former[i]? = some o → updated[i]? = some u → difference rows i i = nameChange o u
  other : ∀ i j o u, former[i]? = some o → updated[j]? = some u → i ≠ j →
    3 ≤ pairPrice (difference rows i j)

namespace RenamedDifferences

variable (h : RenamedDifferences former updated rows)
include h

/-- It does not pay to leave the pairs of equal index. -/
theorem steep : (prices former updated rows).Steep former.length updated.length where
  diagonal i hi := by
    have hle := h.le
    rw [prices_pair, h.same i _ _ (List.getElem?_eq_getElem hi)
      (List.getElem?_eq_getElem (by omega)), nameChange]
    split <;> simp [pairPrice]
  pair i j hi hj hij := h.other i j _ _ (List.getElem?_eq_getElem hi) (List.getElem?_eq_getElem hj) hij
  insert i j _ _ := by
    have hprice : (prices former updated rows).insert i (j + 1) = 0 ∨
        (prices former updated rows).insert i (j + 1) = 2 := by
      simp only [prices, Alignment.Tariff.prices, tariff]
      split
      · split <;> simp
      · simp
    rcases hprice with hprice | hprice
    · obtain ⟨_, g, -, hg, hgap, -⟩ := exists_gap_of_prices_insert hprice
      rw [h.gapFree g hg] at hgap
      cases hgap
    · omega
  delete i hi := by
    have hgap := h.gapFree _ (List.getElem_mem hi)
    simp [prices, Alignment.Tariff.prices, tariff, List.getElem?_eq_getElem hi, hgap]

/-- The script keeps or renames the variables of equal index and appends the rest. -/
theorem filled_script :
    List.Forall₂ (Filled former updated rows)
      (Alignment.diagonal former.length updated.length)
      ((former.zip updated).map (fun p => if p.1.item.label != p.2.item.label then
          .substitute p.1 p.2 (.rename p.1 p.2) else .equal p.1 p.2) ++
        (updated.drop former.length).map .append) := by
  have hle := h.le
  refine List.rel_append ?_ ?_
  · refine List.forall₂_iff_get.mpr ⟨by simp [hle], fun i hi hi' => ?_⟩
    have hif : i < former.length := by simpa using hi
    have ho := List.getElem?_eq_getElem hif
    have hu := List.getElem?_eq_getElem (show i < updated.length by omega)
    have hd := h.same i _ _ ho hu
    simp only [List.get_eq_getElem, List.getElem_map, List.getElem_range, List.getElem_zip]
    rw [nameChange] at hd
    split
    · rename_i hnames
      rw [if_pos hnames] at hd
      exact .substitute ho hu hd
    · rename_i hnames
      rw [if_neg hnames] at hd
      exact .equal ho hu hd
  · refine List.forall₂_iff_get.mpr ⟨by simp, fun i hi hi' => ?_⟩
    have hi'' : i < updated.length - former.length := by simpa using hi
    simp only [List.get_eq_getElem, List.getElem_map, List.getElem_range', List.getElem_drop,
      Nat.one_mul]
    exact .append (List.getElem?_eq_getElem _)

/-- The operations are the renamed pairs of equal index. -/
theorem listChanges_eq {tc : CompareTypes (Except Obstacle)} {strict : Bool}
    (hgaps : demandGaps former updated = .ok ())
    (hrows : differences (checkedChange tc) former updated true = .ok rows) :
    listChanges strict tc former updated true =
      .ok (renameOperations strict none former updated) := by
  refine listChanges_eq_ok_iff.mpr ⟨hgaps, rows, _, _, hrows, h.steep.script?_eq_diagonal h.le,
    h.filled_script, ?_⟩
  let operationsOf : VariableEdit → List Operation
    | .substitute _ _ c => [⟨c, !strict, none⟩]
    | _ => []
  rw [judge, judgeSteps_eq_flatMap operationsOf]
  · rw [List.flatMap_append, List.flatMap_map, List.flatMap_map, renameOperations, renamedPairs,
      ← flatMap_renamed]
    congr 1
    rw [List.flatMap_eq_nil_iff.mpr fun _ _ => rfl, List.append_nil]
    refine List.flatMap_congr fun p _ => ?_
    cases p.1.item.label != p.2.item.label <;> rfl
  · intro e he before rest
    rcases List.mem_append.mp he with he | he
    · obtain ⟨p, -, rfl⟩ := List.mem_map.mp he
      split <;> rfl
    · obtain ⟨u, -, rfl⟩ := List.mem_map.mp he
      rfl

end RenamedDifferences

end Lists

/-! ## Sections -/

/-- The former labels of a list. -/
abbrev labels (r : Resolved) : List String := r.items.map (·.label)

/-- An item in place: it only may have got a label that the former list does not have. -/
def InPlace (os : Resolved) (o u : Item) : Prop :=
  Relabels o u ∧ (u.label = o.label ∨ u.label ∉ labels os)

instance (os : Resolved) (o u : Item) : Decidable (InPlace os o u) :=
  inferInstanceAs (Decidable (Relabels o u ∧ (u.label = o.label ∨ u.label ∉ labels os)))

/-- An item behind all former ones: it declares no former name, and its label is none of theirs. -/
def Fresh (os : Resolved) (m : Item) : Prop := m.renamedFrom = none ∧ m.label ∉ labels os

instance (os : Resolved) (m : Item) : Decidable (Fresh os m) :=
  inferInstanceAs (Decidable (m.renamedFrom = none ∧ m.label ∉ labels os))

/-- The updated list holds the items of a list without gaps and with distinct labels in place, some of
them under new labels, and behind them fresh items. -/
structure RenamesTo (types types' : TypeTable) (os us : Resolved) : Prop where
  regular : os.Regular
  gapFree : ∀ v ∈ os.vars, v.isGap = false
  distinct : (labels os).Nodup
  length : os.items.length ≤ us.items.length
  inPlace : ∀ p ∈ os.items.zip us.items, InPlace os p.1 p.2
  fresh : ∀ m ∈ us.items.drop os.items.length, Fresh os m
  types : ∀ i, os.Reaches i → types'.lookup i = types.lookup i

/-- Nothing stops the comparison with the updated types: they are well formed, the numbers in their ids
can be read, and gaps in structs are measured where there are some on both sides. -/
structure Unhindered (os us : Resolved) : Prop where
  wellFormed : us.WellFormed
  measured : os.MeasuredWith us

theorem Unhindered.readable {os us : Resolved} (h : Unhindered os us) :
    ∀ v ∈ os.vars, v.type.Readable :=
  List.forall_mem_map.mpr fun _ hm => h.measured.readable _ (Resolved.reaches_item hm)

theorem Unhindered.readable' {os us : Resolved} (h : Unhindered os us) :
    ∀ v ∈ us.vars, v.type.Readable :=
  List.forall_mem_map.mpr fun _ hm => h.measured.readable' _ (Resolved.reaches_item hm)

theorem reaches_congr {g : TypeGraph} {items items' : List Item}
    (h : items'.map (·.type) = items.map (·.type)) {i : String} :
    Resolved.Reaches ⟨g, items'⟩ i ↔ Resolved.Reaches ⟨g, items⟩ i := by
  have hiff (items : List Item) : Resolved.Reaches ⟨g, items⟩ i ↔
      ∃ t ∈ items.map (·.type), Relation.ReflTransGen g.HasInside t i := by
    simp [Resolved.Reaches]
  rw [hiff, hiff, h]

theorem three_le_pairPrice {d : Option Change} (h : pairPrice d ≠ 0) : 3 ≤ pairPrice d := by
  unfold pairPrice at h ⊢
  split at h
  · exact absurd rfl h
  · exact absurd rfl h
  · exact absurd rfl h
  · omega

namespace RenamesTo

variable {leniency : Leniency} {types types' : TypeTable} {os us : Resolved}
  (h : RenamesTo types types' os us)
include h

/-- The items of one index are in place. -/
theorem getElem? {i : Nat} {o u : Item} (ho : os.items[i]? = some o) (hu : us.items[i]? = some u) :
    InPlace os o u :=
  h.inPlace (o, u) (List.mem_of_getElem? (List.getElem?_zip_eq_some.mpr ⟨ho, hu⟩))

/-- The names of all pairs of different indices differ. -/
theorem namesDiffer {i j : Nat} {o u : Item} (ho : os.items[i]? = some o)
    (hu : us.items[j]? = some u) (hij : i ≠ j) : namesDiffer o u = true := by
  have hlabel : o.label ∈ labels os := List.mem_map_of_mem (List.mem_of_getElem? ho)
  obtain ⟨hname, hne⟩ : u.renamedFrom = none ∧ u.label ≠ o.label := by
    rcases Nat.lt_or_ge j os.items.length with hj | hj
    · have ho' := List.getElem?_eq_getElem hj
      obtain ⟨hrelabels, hlabels⟩ := h.getElem? ho' hu
      refine ⟨hrelabels.renamedFrom.trans (h.regular.names _ (List.getElem_mem hj)), fun heq => ?_⟩
      rcases hlabels with hown | hnew
      · have hi : i < (labels os).length := by
          rw [List.length_map]
          exact (List.getElem?_eq_some_iff.mp ho).1
        refine hij ((List.getElem?_inj hi h.distinct).mp ?_)
        rw [List.getElem?_map, List.getElem?_map, ho, ho', Option.map_some, Option.map_some,
          ← heq, hown]
      · exact hnew (heq ▸ hlabel)
    · have hdrop : (us.items.drop os.items.length)[j - os.items.length]? = some u := by
        rw [List.getElem?_drop, Nat.add_sub_cancel' hj, hu]
      obtain ⟨hname, hnew⟩ := h.fresh u (List.mem_of_getElem? hdrop)
      exact ⟨hname, fun heq => hnew (heq ▸ hlabel)⟩
  rw [← Bool.not_eq_false, namesDiffer_eq_false_iff]
  rintro (hdeclared | ⟨-, hsame⟩)
  · rw [hname] at hdeclared
    cases hdeclared
  · exact hne hsame

/-- Every item in place under its new label comes from a former one. -/
theorem exists_relabels {m : Item} (hm : m ∈ us.items.take os.items.length) :
    ∃ o ∈ os.items, Relabels o m := by
  obtain ⟨k, hk⟩ := List.mem_iff_getElem?.mp hm
  rw [List.getElem?_take, Option.ite_none_right_eq_some] at hk
  have ho := List.getElem?_eq_getElem hk.1
  exact ⟨_, List.mem_of_getElem? ho, (h.getElem? ho hk.2).1⟩

end RenamesTo

/-- The former list under its new labels. -/
def relabelled (os us : Resolved) : Resolved := ⟨os.graph, us.items.take os.items.length⟩

namespace RenamesTo

variable {leniency : Leniency} {types types' : TypeTable} {os us : Resolved}
  (h : RenamesTo types types' os us)
include h

theorem reaches_relabelled {i : String} : (relabelled os us).Reaches i ↔ os.Reaches i := by
  refine reaches_congr (List.ext_getElem? fun k => ?_)
  rw [List.getElem?_map, List.getElem?_map]
  rcases Nat.lt_or_ge k os.items.length with hk | hk
  · have hu := List.getElem?_eq_getElem (Nat.lt_of_lt_of_le hk h.length)
    rw [List.getElem?_take_of_lt hk, hu, List.getElem?_eq_getElem hk, Option.map_some, Option.map_some,
      (h.getElem? (List.getElem?_eq_getElem hk) hu).1.type]
  · rw [List.getElem?_eq_none hk, List.getElem?_eq_none (by simpa using Or.inl hk)]

theorem joined_relabelled (ho : os.Joined types) : (relabelled os us).Joined types := by
  refine ⟨ho.graph, fun m hm => ?_⟩
  obtain ⟨o, hmem, hrelabels⟩ := h.exists_relabels hm
  rw [hrelabels.type]
  exact ho.items o hmem

theorem regular_relabelled : (relabelled os us).Regular where
  acyclic i hi := h.regular.acyclic i (h.reaches_relabelled.mp hi)
  complete i hi := h.regular.complete i (h.reaches_relabelled.mp hi)
  names m hm := by
    obtain ⟨o, hmem, hrelabels⟩ := h.exists_relabels hm
    rw [hrelabels.renamedFrom]
    exact h.regular.names o hmem
  memberNames i hi := h.regular.memberNames i (h.reaches_relabelled.mp hi)

theorem keeps_relabelled (ho : os.Joined types) (hu : us.Joined types') :
    us.Keeps (relabelled os us) :=
  Resolved.keeps_of_agree (h.joined_relabelled ho) hu (fun _ hm => List.mem_of_mem_take hm)
    fun i hi => h.types i (h.reaches_relabelled.mp hi)

theorem measured_relabelled (hm : os.MeasuredWith us) : (relabelled os us).MeasuredWith us :=
  ⟨fun i hi => hm.readable i (h.reaches_relabelled.mp hi), hm.readable',
    fun i hi => hm.gaps i (h.reaches_relabelled.mp hi)⟩

/-- The type of an item in place does not differ from the former one. -/
theorem plainChange_eq_none (leniency : Leniency) (ho : os.Joined types) (hu : us.Joined types')
    (hclear : Unhindered os us) {i : Nat} {m k : Item} (hm : os.items[i]? = some m)
    (hk : us.items[i]? = some k) (a : Bool) :
    plainChange leniency os.graph us.graph (pairBound os.graph us.graph) (os.graph.node m.type)
      (us.graph.node k.type) a = .ok none := by
  have hreaches := h.reaches_relabelled.mpr (Resolved.reaches_item (List.mem_of_getElem? hm))
  rw [(h.getElem? hm hk).1.type, (h.keeps_relabelled ho hu).node m.type hreaches]
  exact plainChange_self (h.joined_relabelled ho) h.regular_relabelled (h.keeps_relabelled ho hu)
    hclear.wellFormed (h.measured_relabelled hclear.measured) m.type hreaches a

/-- The differences of all pairs of a section. -/
theorem exists_differences (leniency : Leniency) (ho : os.Joined types) (hu : us.Joined types')
    (hclear : Unhindered os us) :
    ∃ rows, differences (checkedChange (plainChange leniency os.graph us.graph
        (pairBound os.graph us.graph))) os.vars us.vars true = .ok rows ∧
      RenamedDifferences os.vars us.vars rows := by
  obtain ⟨rows, hrows⟩ : ∃ rows, differences (checkedChange (plainChange leniency os.graph us.graph
      (pairBound os.graph us.graph))) os.vars us.vars true = .ok rows :=
    differences_total hclear.readable hclear.readable'
      (List.forall_mem_map.mpr fun m hm => List.forall_mem_map.mpr fun k hk =>
        plainChange_total leniency ho h.regular.acyclic h.regular.wellFormed hclear.wellFormed
          hclear.measured _ (Resolved.reaches_item hm) _ (Resolved.reaches_item hk))
  have hitem {r : Resolved} {i : Nat} {v : Variable} (hv : r.vars[i]? = some v) :
      ∃ m, r.items[i]? = some m ∧ r.graph.variable m = v :=
    Option.map_eq_some_iff.mp (List.getElem?_map .. ▸ hv)
  refine ⟨rows, hrows, h.gapFree, by simpa [Resolved.vars] using h.length, fun i o u hoi hui => ?_,
    fun i j o u hoi hui hij => ?_⟩
  · have hchange := variableChange_eq_difference hrows hoi hui
    have hgap := h.gapFree o (List.mem_of_getElem? hoi)
    obtain ⟨m, hm, rfl⟩ := hitem hoi
    obtain ⟨k, hk, rfl⟩ := hitem hui
    have hnone := checkedChange_eq_none (h.plainChange_eq_none leniency ho hu hclear hm hk
      (true && i + 1 == os.vars.length))
    exact Except.ok.inj (hchange.symm.trans (variableChange_of_relabels (u := us.graph.variable k)
      hnone hgap (h.regular.names m (List.mem_of_getElem? hm)) (h.getElem? hm hk).1))
  · have hgap := h.gapFree o (List.mem_of_getElem? hoi)
    have hchange := variableChange_eq_difference hrows hoi hui
    obtain ⟨m, hm, rfl⟩ := hitem hoi
    obtain ⟨k, hk, rfl⟩ := hitem hui
    exact three_le_pairPrice (pairPrice_of_namesDiffer (areGaps_eq_false (Or.inl hgap))
      (h.namesDiffer hm hk hij) hchange)

/-- Plain recursion finds the renamed variables of a section and nothing else. -/
theorem plainSection_eq (ho : os.Joined types) (hu : us.Joined types')
    (hclear : Unhindered os us) :
    plainSection leniency os us =
      .ok (renameOperations leniency.strictRenames none os.vars us.vars) := by
  obtain ⟨rows, hrows, hdifferences⟩ := h.exists_differences leniency ho hu hclear
  exact hdifferences.listChanges_eq (demandGaps_eq_ok hclear.readable hclear.readable') hrows

end RenamesTo

/-! ## Layouts -/

/-- The updated layout has the former variables in place, some of them under new labels, and behind them
fresh ones, in the storage and in every namespace. -/
structure RenamesInPlace (former updated : Layout) (os us : Resolved)
    (on un : List (String × Resolved)) : Prop where
  sections : Sections former updated os us on un
  storage : RenamesTo former.types updated.types os us
  namespaces : ∀ p ∈ on, ∃ u, un.lookup p.1 = some u ∧
    RenamesTo former.types updated.types p.2 u

/-- Nothing stops the comparison of any section. -/
structure UnhinderedSections (os us : Resolved) (on un : List (String × Resolved)) : Prop where
  storage : Unhindered os us
  namespaces : ∀ p ∈ on, ∀ u, un.lookup p.1 = some u → Unhindered p.2 u

/-- The renamed pairs of a namespace. -/
def namespaceRenames (strict : Bool) (un : List (String × Resolved)) (p : String × Resolved) :
    List Operation :=
  renameOperations strict (some p.1) p.2.vars (((un.lookup p.1).map Resolved.vars).getD [])

/-- The renamed pairs of all sections. -/
def allRenames (strict : Bool) (os us : Resolved) (on un : List (String × Resolved)) :
    List Operation :=
  renameOperations strict none os.vars us.vars ++ on.flatMap (namespaceRenames strict un)

theorem joined_of_mem {layout : Layout} {namespaces : List (String × Resolved)}
    (h : layout.resolveNamespaces = .ok namespaces) {p : String × Resolved} (hp : p ∈ namespaces) :
    p.2.Joined layout.types := by
  obtain ⟨g, hg, rfl, hitems⟩ := Layout.resolveNamespaces_joined h
  obtain ⟨q, hq, rfl⟩ := List.mem_map.mp hp
  exact ⟨hg, hitems q hq⟩

theorem note_of_mem_renameOperations {strict : Bool} {id : Option String}
    {former updated : List Variable} {op : Operation}
    (h : op ∈ renameOperations strict id former updated) : op.note = !strict := by
  obtain ⟨_, -, rfl⟩ := List.mem_map.mp h
  rfl

theorem note_of_mem_allRenames {strict : Bool} {os us : Resolved}
    {on un : List (String × Resolved)} {op : Operation} (h : op ∈ allRenames strict os us on un) :
    op.note = !strict := by
  rcases List.mem_append.mp h with h | h
  · exact note_of_mem_renameOperations h
  · obtain ⟨_, -, h⟩ := List.mem_flatMap.mp h
    exact note_of_mem_renameOperations h

/-- Variables that are renamed in place are reported one by one, and nothing else is: as notes, or with
strict renames as errors. -/
theorem layouts_renamed {former updated : Layout} {os us : Resolved}
    {on un : List (String × Resolved)} (h : RenamesInPlace former updated os us on un)
    (hclear : UnhinderedSections os us on un) (leniency : Leniency) :
    ∃ outcome, layouts leniency former updated = .ok outcome ∧
      outcome.operations = allRenames leniency.strictRenames os us on un ∧
      (leniency.strictRenames = false → (Report.mk outcome.operations).ok = true ∧
        (Report.mk outcome.operations).noteOperations = allRenames false os us on un) ∧
      (leniency.strictRenames = true → (Report.mk outcome.operations).noteOperations = [] ∧
        (Report.mk outcome.operations).errorOperations = allRenames true os us on un) := by
  obtain ⟨-, hos⟩ := Layout.resolveStorage_joined h.sections.os
  obtain ⟨-, hus⟩ := Layout.resolveStorage_joined h.sections.us
  have hstorage : freshSection leniency os us =
      .ok (renameOperations leniency.strictRenames none os.vars us.vars) :=
    (listChanges_fresh_iff hos.graph.keyed hus.graph.keyed).mpr
      (h.storage.plainSection_eq hos hus hclear.storage)
  have hparts : List.Forall₂ (fun p part => freshNamespace leniency un p = .ok part) on
      (on.map (namespaceRenames leniency.strictRenames un)) := by
    refine List.forall₂_map_right_iff.mpr (List.forall₂_same.mpr fun p hp => ?_)
    obtain ⟨u, hu, hrenames⟩ := h.namespaces p hp
    have hoJoined := joined_of_mem h.sections.on hp
    have huJoined := joined_of_mem h.sections.un (mem_of_lookup hu)
    rw [freshNamespace, namespaceRenames, hu]
    refine map_eq_ok_iff.mpr ⟨_, (listChanges_fresh_iff hoJoined.graph.keyed huJoined.graph.keyed).mpr
      (hrenames.plainSection_eq hoJoined huJoined (hclear.namespaces p hp u hu)), ?_⟩
    simp [renameOperations]
  obtain ⟨outcome, houtcome, hops⟩ := layouts_eq_ok_of_fresh h.sections hstorage hparts
  have hall : outcome.operations = allRenames leniency.strictRenames os us on un := by
    rw [hops, allRenames, List.flatMap_def]
  have hnote (op : Operation) (hop : op ∈ outcome.operations) :
      op.note = !leniency.strictRenames := note_of_mem_allRenames (hall ▸ hop)
  refine ⟨outcome, houtcome, hall, fun hlenient => ?_, fun hstrict => ?_⟩
  · rw [hlenient] at hall hnote
    refine ⟨List.isEmpty_iff.mpr (List.filter_eq_nil_iff.mpr fun op hop => ?_), ?_⟩
    · simp [hnote op hop]
    · rw [← hall]
      exact List.filter_eq_self.mpr hnote
  · rw [hstrict] at hall hnote
    refine ⟨List.filter_eq_nil_iff.mpr fun op hop => ?_, ?_⟩
    · simp [hnote op hop]
    · rw [← hall]
      exact List.filter_eq_self.mpr fun op hop => by simp [hnote op hop]

/-! ## Layouts that are checked -/

/-- What has to be known of two lists of which the updated one renames in place, beside their types. -/
def ItemsRenamed (os us : Resolved) : Prop :=
  os.Tame ∧ (∀ v ∈ os.vars, v.isGap = false) ∧ (labels os).Nodup ∧
    os.items.length ≤ us.items.length ∧ (∀ p ∈ os.items.zip us.items, InPlace os p.1 p.2) ∧
    ∀ m ∈ us.items.drop os.items.length, Fresh os m

instance (os us : Resolved) : Decidable (ItemsRenamed os us) :=
  inferInstanceAs (Decidable (os.Tame ∧ (∀ v ∈ os.vars, v.isGap = false) ∧ (labels os).Nodup ∧
    os.items.length ≤ us.items.length ∧ (∀ p ∈ os.items.zip us.items, InPlace os p.1 p.2) ∧
    ∀ m ∈ us.items.drop os.items.length, Fresh os m))

/-- The conditions for a layout that renames in place, checked type by type. -/
theorem renamesInPlace_of_items {former updated : Layout} {os us : Resolved}
    (h : Sections former updated os us [] []) (htypes : updated.types = former.types)
    (hitems : ItemsRenamed os us) : RenamesInPlace former updated os us [] [] where
  sections := h
  storage :=
    { regular := hitems.1.regular (Layout.resolveStorage_joined h.os).2
      gapFree := hitems.2.1
      distinct := hitems.2.2.1
      length := hitems.2.2.2.1
      inPlace := hitems.2.2.2.2.1
      fresh := hitems.2.2.2.2.2
      types := fun _ _ => by rw [htypes] }
  namespaces _ hp := absurd hp List.not_mem_nil

theorem renamesInPlace_of_any {former updated : Layout} (ho : former.namespaces = [])
    (hu : updated.namespaces = []) (htypes : updated.types = former.types)
    (h : (former.resolveStorage.toOption.any fun os =>
      updated.resolveStorage.toOption.any fun us => decide (ItemsRenamed os us)) = true) :
    ∃ os us, RenamesInPlace former updated os us [] [] := by
  obtain ⟨os, us, hsections, hitems⟩ := exists_sections_of_any former updated ItemsRenamed ho hu h
  exact ⟨os, us, renamesInPlace_of_items hsections htypes hitems⟩

/-- Of three addresses two are renamed, and another address is appended. -/
theorem layouts_renamed_addresses :
    ∃ outcome, layouts {} (addressLayout [address "owner" 0, address "admin" 1, address "guard" 2])
        (addressLayout [address "keeper" 0, address "admin" 1, address "sentry" 2,
          address "pauser" 3]) = .ok outcome ∧
      outcome.operations =
        [⟨.rename (address "owner" 0) (address "keeper" 0), true, none⟩,
          ⟨.rename (address "guard" 2) (address "sentry" 2), true, none⟩] ∧
      (Report.mk outcome.operations).ok = true := by
  obtain ⟨os, us, hsections, hitems, htame, hom, hum, hall⟩ := exists_sections_of_any
    (addressLayout [address "owner" 0, address "admin" 1, address "guard" 2])
    (addressLayout [address "keeper" 0, address "admin" 1, address "sentry" 2, address "pauser" 3])
    (fun os us => ItemsRenamed os us ∧ us.Tame ∧
      (∀ p ∈ os.graph, p.2.Readable ∧ os.graph.GapsMeasured p.2) ∧
      (∀ p ∈ us.graph, p.2.Readable ∧ us.graph.GapsMeasured p.2) ∧
      os.vars = [address "owner" 0, address "admin" 1, address "guard" 2] ∧
      us.vars = [address "keeper" 0, address "admin" 1, address "sentry" 2, address "pauser" 3])
    rfl rfl (by decide +kernel)
  have hos := (Layout.resolveStorage_joined hsections.os).2
  have hus := (Layout.resolveStorage_joined hsections.us).2
  have hmeasured := (Resolved.measured_of_graph hos hom).measuredWith
    (Resolved.measured_of_graph hus hum)
  obtain ⟨outcome, houtcome, hops, hlenient, -⟩ := layouts_renamed
    (renamesInPlace_of_items hsections rfl hitems)
    ⟨⟨(htame.regular hus).wellFormed, hmeasured⟩, fun _ hp => absurd hp List.not_mem_nil⟩ {}
  refine ⟨outcome, houtcome, ?_, (hlenient rfl).1⟩
  rw [hops, allRenames, hall.1, hall.2]
  rfl

/-! ## What stands in the way -/

/-- Structs of which the type of the second one is not well formed: it has names for members. -/
def misshapen (added : List Item) : Layout where
  layoutVersion := some Layout.currentVersion
  storage := [{ label := "box", type := "t_struct(Box)1_storage" }] ++ added
  types :=
    [("t_uint256", { label := "uint256", numberOfBytes := some 32 }),
      ("t_struct(Box)1_storage", { label := "struct Box", members := some (.items [word "limit" 0]) }),
      ("t_struct(Crate)2_storage", { label := "struct Crate", members := some (.names ["limit"]) })]

/-- Two structs that consist of a gap each. The elements of the second gap take less than a byte. -/
def unmeasured : Layout :=
  { reservations 0 1 [] with storage := (reservations 0 1 []).storage.take 2 }

theorem items_uintStorage (digits : Nat) : ItemsRenamed (uintStorage digits) (uintStorage digits) := by
  refine ⟨(tame_uintStorage digits).1, ?_, ?_, Nat.le_refl _, ?_, by simp⟩
  · rw [vars_uintStorage]
    exact List.forall_mem_cons.mpr ⟨rfl, List.forall_mem_singleton.mpr rfl⟩
  · show ["owner", "limit"].Nodup
    decide
  · exact List.forall_mem_cons.mpr
      ⟨⟨rfl, Or.inl rfl⟩, List.forall_mem_singleton.mpr ⟨rfl, Or.inl rfl⟩⟩

/-- Each of the further conditions is needed. The comparison is stopped by an integer with too many
digits, by an appended struct with names for members, and by gaps in structs of which the elements take
no byte. -/
theorem renamed_counterexample :
    (∃ os us, RenamesInPlace (uintLayout 4301) (uintLayout 4301) os us [] []) ∧
    (∀ outcome, layouts {} (uintLayout 4301) (uintLayout 4301) ≠ .ok outcome) ∧
    (∃ os us, RenamesInPlace (misshapen [])
      (misshapen [{ label := "crate", type := "t_struct(Crate)2_storage" }]) os us [] []) ∧
    (∀ outcome, layouts {} (misshapen [])
      (misshapen [{ label := "crate", type := "t_struct(Crate)2_storage" }]) ≠ .ok outcome) ∧
    (∃ os us, RenamesInPlace unmeasured unmeasured os us [] []) ∧
    ∀ outcome, layouts {} unmeasured unmeasured ≠ .ok outcome := by
  refine ⟨?_, layouts_uint_ne_ok (by decide), ?_, ?_, ?_, ?_⟩
  · have hresolve := resolveStorage_uintLayout 4301
    exact ⟨_, _, renamesInPlace_of_items ⟨hresolve, hresolve, rfl, rfl⟩ rfl (items_uintStorage 4301)⟩
  · exact renamesInPlace_of_any rfl rfl rfl (by decide +kernel)
  · exact layouts_ne_ok_of_plainStorage rfl rfl (by decide +kernel)
  · exact renamesInPlace_of_any rfl rfl rfl (by decide +kernel)
  · exact layouts_ne_ok_of_plainStorage rfl rfl (by decide +kernel)

end UpgradeSafety.Compare
