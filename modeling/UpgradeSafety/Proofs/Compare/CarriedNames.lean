import UpgradeSafety.Proofs.Compare.CarriedOver
import UpgradeSafety.Proofs.Compare.RenamedInPlace
import UpgradeSafety.Proofs.Tables

/-!
# Former names that stay declared

A variable keeps the declaration of the name that it had before an upgrade. When its layout is the
former one of the next upgrade, nobody renames it any more, but the declared name is still compared
with the label of its partner: the variable is taken for renamed unless it declares no name or the
one that it has.

* `layouts_self_iff`: a layout compared with itself has no operations just when every variable that
  is no gap declares no former name or its own, and with strict renames it has no errors just then.

When no name is declared in vain, equal indices are paired for nothing. For the converse it has to
be shown that a script without errors pairs equal indices also where there are gaps, which may be
removed and inserted for nothing: a removed gap has to be filled by a variable inserted next to it,
and there the pair of the gap with itself would have been preferred (`diagonal_of_clean`).
-/

namespace UpgradeSafety

namespace Compare

open UpgradeSafety.Alignment (Step Leads Filled difference)

/-! ## Variables and lists -/

/-- The variable declares no former name, or its own. -/
def DeclaresOwn (v : Variable) : Prop :=
  ∀ name, v.item.renamedFrom = some name → name = v.item.label

theorem namesDiffer_self {v : Variable} :
    namesDiffer v.item v.item = false ↔ DeclaresOwn v := by
  rw [namesDiffer_eq_false_iff, DeclaresOwn]
  cases v.item.renamedFrom <;> simp

theorem move?_self (m : Item) : move? m m = none := by
  cases hslot : m.slot <;> simp [move?, hslot]

/-- A gap is compared as a gap with itself. -/
theorem areGaps_self {v : Variable} (hgap : v.isGap = true) (hwell : v.type.WellFormed) :
    areGaps v v = true := by
  obtain ⟨-, hkind, -⟩ := isGap_iff.mp hgap
  obtain ⟨a, rest, hargs⟩ := hwell.array hkind
  simp [areGaps, hgap, sameGapElement, hargs]

/-- A gap does not differ from itself, whatever it declares. -/
theorem variableChange_gap_self {found : Except Obstacle (Option TypeChange)}
    {siblings : List Variable} {i : Nat} {v : Variable} (h : areGaps v v = true) :
    variableChange found siblings i v v = .ok none := by
  rw [variableChange, ← areGaps, if_pos h, if_pos (by simp)]
  rfl

section Lists

variable {tc : CompareTypes (Except Obstacle)} {l : List Variable}
  {rows : List (List (Option Change))} {strict : Bool} {ops : List Operation}

/-- Comparing a list with itself finds nothing when no name is declared in vain. -/
theorem listChanges_self_of_own (strict : Bool) (hgaps : demandGaps l l = .ok ())
    (hrows : differences (checkedChange tc) l l true = .ok rows)
    (hareGaps : ∀ v ∈ l, v.isGap = true → areGaps v v = true)
    (hself : ∀ v ∈ l, ∀ a, checkedChange tc v.type v.type a = .ok none)
    (hown : ∀ v ∈ l, v.isGap = false → DeclaresOwn v) :
    listChanges strict tc l l true = .ok [] := by
  refine listChanges_eq_nil hgaps hrows (Nat.le_refl _) (Or.inl rfl) (fun i hi => ?_)
    fun i j _ _ _ => by omega
  have hv := List.getElem?_eq_getElem hi
  have hmem := List.getElem_mem hi
  have hchange := variableChange_eq_difference hrows hv hv
  cases hgap : l[i].isGap with
  | true =>
    rw [variableChange_gap_self (hareGaps _ hmem hgap)] at hchange
    exact (Except.ok.inj hchange).symm
  | false =>
    refine Except.ok.inj (hchange.symm.trans ?_)
    exact (variableChange_eq_none_iff (areGaps_eq_false (Or.inl hgap))).mpr
      ⟨namesDiffer_self.mpr (hown _ hmem hgap), move?_self _, Or.inr (Or.inl (hself _ hmem _))⟩

/-- Without operations a step is harmless, with or without strict renames. -/
theorem judgeSteps_eq_nil_of_nil {a : Bool} {gaps : List Variable}
    {before script : List VariableEdit} (h : judgeSteps strict a gaps before script = .ok []) :
    judgeSteps true a gaps before script = .ok [] := by
  induction script generalizing before with
  | nil => rfl
  | cons step rest ih =>
    rw [judgeSteps, bind_eq_ok_iff] at h
    obtain ⟨here, hhere, h⟩ := h
    obtain ⟨later, hlater, h⟩ := bind_eq_ok_iff.mp h
    obtain ⟨rfl, rfl⟩ := List.append_eq_nil_iff.mp (Except.ok.inj h)
    have hstep : judgeStep true a gaps before step rest = .ok [] := by
      cases step with
      | substitute o u c =>
        rw [judgeStep] at hhere
        cases hpair : judgePair strict c with
        | error e =>
          rw [hpair] at hhere
          cases hhere
        | ok op =>
          rw [hpair] at hhere
          cases hhere
      | equal | insert | append | delete => exact hhere
    rw [judgeSteps, hstep, ok_bind, ih hlater]
    rfl

/-- A step that adds the last of some variables comes last. -/
theorem exists_insert_before {n i' j' : Nat} {front : List Step} {before : List VariableEdit}
    (hleads : Leads n 0 0 front i' j') (hj : j' ≤ n)
    (hfilled : List.Forall₂ (Filled l l rows) front before)
    (hadded : leadingAdded before.reverse ≠ []) : ∃ j front', front = front' ++ [.insert j] := by
  rcases List.eq_nil_or_concat before with rfl | ⟨before, e, rfl⟩
  · exact absurd rfl hadded
  rw [List.concat_eq_append] at hfilled hadded
  obtain ⟨front, s, back, rfl, -, hs, hback⟩ := split_of_forall₂ hfilled
  cases hback
  rw [List.reverse_append, List.reverse_singleton, List.singleton_append] at hadded
  cases hs with
  | insert => exact ⟨_, front, rfl⟩
  | @append j =>
    have hn := hleads.le_of_append (b := j) (by simp)
    have hin := (hleads.exists_column_iff (b := j)).mp ⟨.append j, by simp, rfl⟩
    omega
  | equal | substitute | delete => exact absurd rfl hadded

/-- A step that adds the first of some variables comes first. -/
theorem exists_insert_behind {n i j i' j' : Nat} {back : List Step} {rest : List VariableEdit}
    (hleads : Leads n i j back i' j') (hj : j' ≤ n)
    (hfilled : List.Forall₂ (Filled l l rows) back rest)
    (hadded : leadingAdded rest ≠ []) : ∃ j back', back = .insert j :: back' := by
  cases hfilled with
  | nil => exact absurd rfl hadded
  | @cons s e back rest hs =>
    cases hs with
    | insert => exact ⟨_, back, rfl⟩
    | @append b =>
      have hn := hleads.le_of_append (b := b) (by simp)
      have hin := (hleads.exists_column_iff (b := b)).mp ⟨.append b, by simp, rfl⟩
      omega
    | equal | substitute | delete => exact absurd rfl hadded

/-- A script of a list with itself that has no errors pairs equal indices only. -/
theorem diagonal_of_clean {steps : List Step} {script : List VariableEdit}
    (hareGaps : ∀ v ∈ l, v.isGap = true → areGaps v v = true)
    (hrows : differences (checkedChange tc) l l true = .ok rows)
    (hsteps : Alignment.script? (prices l l rows) l.length l.length = some steps)
    (hfilled : List.Forall₂ (Filled l l rows) steps script)
    (hjudge : judge true true l script = .ok ops) (hclean : ∀ op ∈ ops, op.note = true) :
    ∀ s ∈ steps, ∃ i, s = .pair i i := by
  obtain ⟨steps', hsteps', hleads⟩ :=
    Alignment.script?_leads (prices l l rows) l.length l.length
  rw [hsteps] at hsteps'
  cases hsteps'
  refine Alignment.pair_of_adjacent (prices_nonneg l l rows) hsteps fun front d back hsplit => ?_
  subst hsplit
  obtain ⟨before, e, rest, rfl, hfront, he, hback⟩ := split_of_forall₂ hfilled.flip
  obtain ⟨k, j, hleadsFront, hleadsBack⟩ := hleads.split
  have hpasses := passes_of_clean hjudge hclean rfl
  rw [List.append_nil] at hpasses
  cases he with
  | @delete _ g hg =>
    cases hpasses with
    | delete hgap hfills =>
      constructor
      · have hchange := variableChange_eq_difference hrows hg hg
        rw [variableChange_gap_self (hareGaps g (List.mem_of_getElem? hg) hgap)] at hchange
        rw [prices_pair, ← Except.ok.inj hchange]
        rfl
      · obtain ⟨_, _, _, v, hv, -⟩ := hfills.ends
        rcases List.mem_append.mp hv with hv | hv
        · exact Or.inl (exists_insert_before hleadsFront hleadsBack.le.2 hfront.flip
            (List.ne_nil_of_mem (List.mem_reverse.mp hv)))
        · cases hleadsBack with
          | delete hleadsBack =>
            exact Or.inr (exists_insert_behind hleadsBack (Nat.le_refl _) hback.flip
              (List.ne_nil_of_mem hv))

/-- A list that is compared with itself without errors, with strict renames, declares no name in
vain. -/
theorem own_of_clean (hareGaps : ∀ v ∈ l, v.isGap = true → areGaps v v = true)
    (h : listChanges true tc l l true = .ok ops) (hclean : ∀ op ∈ ops, op.note = true) :
    ∀ v ∈ l, v.isGap = false → DeclaresOwn v := by
  obtain ⟨-, rows, steps, script, hrows, hsteps, hfilled, hjudge⟩ := listChanges_eq_ok_iff.mp h
  obtain ⟨steps', hsteps', hleads⟩ :=
    Alignment.script?_leads (prices l l rows) l.length l.length
  rw [hsteps] at hsteps'
  cases hsteps'
  intro v hv hgap
  obtain ⟨i, hi⟩ := List.mem_iff_getElem?.mp hv
  obtain ⟨j, hij⟩ := exists_pair_of_not_isGap hleads hfilled hjudge hclean hi hgap
  obtain ⟨k, hk⟩ := diagonal_of_clean hareGaps hrows hsteps hfilled hjudge hclean _ hij
  cases hk
  obtain ⟨o, u, ho, hu, hchange⟩ := variableChange_of_pair hrows hfilled hjudge hclean hij
  rw [hi] at ho hu
  cases ho
  cases hu
  rcases hchange with hchange | ⟨hgap', -⟩
  · exact namesDiffer_self.mp ((variableChange_eq_none_iff (areGaps_eq_false (Or.inl hgap))).mp
      hchange).1
  · rw [hgap] at hgap'
    cases hgap'

end Lists

end Compare

/-! ## Sections -/

/-- The list without the former names that its items declare. -/
def Resolved.withoutNames (r : Resolved) : Resolved :=
  ⟨r.graph, r.items.map fun m => { m with renamedFrom := none }⟩

namespace Compare

/-- Apart from the names that its items declare, nothing is known of the list that could differ from
itself, and nothing stops the comparison with itself: its types are complete and do not contain
themselves, their numbers can be read, and its gaps are measured. -/
structure Steady (r : Resolved) : Prop where
  regular : r.withoutNames.Regular
  measured : r.MeasuredWith r
  gaps : ∀ v ∈ r.vars, v.isGap = true → v.Measured

/-- Every variable that is no gap declares no former name, or its own. -/
def AllOwn (r : Resolved) : Prop := ∀ v ∈ r.vars, v.isGap = false → DeclaresOwn v

namespace Steady

variable {leniency : Leniency} {types : TypeTable} {r : Resolved} (h : Steady r)
include h

omit h in
theorem reaches_withoutNames {i : String} : r.withoutNames.Reaches i ↔ r.Reaches i :=
  reaches_congr (by rw [List.map_map]; rfl)

theorem acyclic : r.Acyclic := fun i hi => h.regular.acyclic i (reaches_withoutNames.mpr hi)

theorem wellFormed : r.WellFormed := fun i hi =>
  h.regular.wellFormed i (reaches_withoutNames.mpr hi)

theorem readable : ∀ v ∈ r.vars, v.type.Readable :=
  List.forall_mem_map.mpr fun _ hm => h.measured.readable _ (Resolved.reaches_item hm)

theorem areGaps_self : ∀ v ∈ r.vars, v.isGap = true → areGaps v v = true :=
  List.forall_mem_map.mpr fun _ hm hgap =>
    Compare.areGaps_self hgap (h.wellFormed _ (Resolved.reaches_item hm))

/-- No type differs from itself. -/
theorem plainChange_self (leniency : Leniency) (hr : r.Joined types) :
    ∀ v ∈ r.vars, ∀ a, plainChange leniency r.graph r.graph (pairBound r.graph r.graph) v.type
      v.type a = .ok none := by
  refine List.forall_mem_map.mpr fun m hm a => ?_
  have hjoined : r.withoutNames.Joined types :=
    ⟨hr.graph, List.forall_mem_map.mpr fun m hm => hr.items m hm⟩
  have hmeasured : r.withoutNames.MeasuredWith r.withoutNames :=
    ⟨fun i hi => h.measured.readable i (reaches_withoutNames.mp hi),
      fun i hi => h.measured.readable i (reaches_withoutNames.mp hi),
      fun i hi j hj => h.measured.gaps i (reaches_withoutNames.mp hi) j (reaches_withoutNames.mp hj)⟩
  exact Compare.plainChange_self hjoined h.regular ⟨fun _ hm => hm, fun _ _ => rfl⟩
    h.regular.wellFormed hmeasured m.type (reaches_withoutNames.mpr (Resolved.reaches_item hm)) a

theorem plainChange_total (leniency : Leniency) (hr : r.Joined types) :
    ∀ o ∈ r.vars, ∀ u ∈ r.vars, ∀ a, ∃ found, plainChange leniency r.graph r.graph
      (pairBound r.graph r.graph) o.type u.type a = .ok found :=
  List.forall_mem_map.mpr fun _ hm => List.forall_mem_map.mpr fun _ hk =>
    Compare.plainChange_total leniency hr h.acyclic h.wellFormed h.wellFormed h.measured _
      (Resolved.reaches_item hm) _ (Resolved.reaches_item hk)

end Steady

/-- What the operations of a list compared with itself tell of the names that it declares. -/
structure Tells (leniency : Leniency) (r : Resolved) (ops : List Operation) : Prop where
  nil : ops = [] ↔ AllOwn r
  clean : leniency.strictRenames = true → ((∀ op ∈ ops, op.note = true) ↔ AllOwn r)

/-- Plain recursion finds something for a list that is compared with itself, and nothing just when no
name is declared in vain. -/
theorem exists_plainSection_self (leniency : Leniency) {types : TypeTable} {r : Resolved}
    (hr : r.Joined types) (h : Steady r) :
    ∃ ops, plainSection leniency r r = .ok ops ∧ Tells leniency r ops := by
  have hread := h.readable
  have htotal := h.plainChange_total leniency hr
  have hself (v : Variable) (hv : v ∈ r.vars) (a : Bool) := checkedChange_total (hread v hv)
    (hread v hv) (h.plainChange_self leniency hr v hv a)
  obtain ⟨ops, hops⟩ : ∃ ops, plainSection leniency r r = .ok ops :=
    listChanges_total hread hread htotal
      fun o ho hgap u hu hgap' => ⟨h.gaps o ho hgap, h.gaps u hu hgap'⟩
  obtain ⟨rows, hrows⟩ := differences_total (a := true) hread hread htotal
  have hnil (hown : AllOwn r) : ops = [] := by
    have hnone := listChanges_self_of_own leniency.strictRenames
      (demandGaps_eq_ok hread hread) hrows h.areGaps_self hself hown
    exact Except.ok.inj (hops.symm.trans hnone)
  refine ⟨ops, hops, ⟨?_, hnil⟩, fun hstrict => ⟨fun hclean => ?_, fun hown => ?_⟩⟩
  · rintro rfl
    obtain ⟨hgaps, rows, steps, script, hrows, hsteps, hfilled, hjudge⟩ :=
      listChanges_eq_ok_iff.mp hops
    exact own_of_clean h.areGaps_self (listChanges_eq_ok_iff.mpr ⟨hgaps, rows, steps, script, hrows,
      hsteps, hfilled, judgeSteps_eq_nil_of_nil hjudge⟩) fun _ hop => absurd hop List.not_mem_nil
  · rw [plainSection, hstrict] at hops
    exact own_of_clean h.areGaps_self hops hclean
  · rw [hnil hown]
    exact fun _ hop => absurd hop List.not_mem_nil

/-! ## Layouts -/

theorem forall_mem_iff_of_forall₂ {α β : Type} {R : α → β → Prop} {P : α → Prop} {Q : β → Prop}
    {l : List α} {l' : List β} (h : List.Forall₂ R l l') (hR : ∀ a b, R a b → (Q b ↔ P a)) :
    (∀ b ∈ l', Q b) ↔ ∀ a ∈ l, P a := by
  induction h with
  | nil => simp
  | cons hr _ ih => rw [List.forall_mem_cons, List.forall_mem_cons, hR _ _ hr, ih]

/-- The operations of a namespace that is compared with itself. -/
theorem exists_freshNamespace_self (leniency : Leniency) {layout : Layout}
    {namespaces : List (String × Resolved)} (h : layout.resolveNamespaces = .ok namespaces)
    (hkeys : (namespaces.map (·.1)).Nodup) {p : String × Resolved} (hp : p ∈ namespaces)
    (hsteady : Steady p.2) :
    ∃ ops, freshNamespace leniency namespaces p = .ok ops ∧ Tells leniency p.2 ops := by
  have hr := joined_of_mem h hp
  obtain ⟨ops, hops, htells⟩ := exists_plainSection_self leniency hr hsteady
  refine ⟨ops.map fun op => { op with namespaceId := some p.1 }, ?_, ?_⟩
  · rw [freshNamespace, lookup_of_mem hkeys hp]
    exact map_eq_ok_iff.mpr
      ⟨ops, (listChanges_fresh_iff hr.graph.keyed hr.graph.keyed).mpr hops, rfl⟩
  · refine ⟨List.map_eq_nil_iff.trans htells.nil, fun hstrict => ?_⟩
    rw [List.forall_mem_map]
    exact htells.clean hstrict

/-- No variable of a layout declares a name in vain. -/
def OwnNames (storage : Resolved) (namespaces : List (String × Resolved)) : Prop :=
  AllOwn storage ∧ ∀ p ∈ namespaces, AllOwn p.2

/-- A layout that is compared with itself has no operations just when no name is declared in vain: every
variable that is no gap declares no former name or its own. With strict renames it has no errors just
then. -/
theorem layouts_self_iff {layout : Layout} {storage : Resolved}
    {namespaces : List (String × Resolved)} (hs : layout.resolveStorage = .ok storage)
    (hn : layout.resolveNamespaces = .ok namespaces) (hkeys : (namespaces.map (·.1)).Nodup)
    (hstorage : Steady storage) (hnamespaces : ∀ p ∈ namespaces, Steady p.2)
    (leniency : Leniency) :
    ∃ outcome, layouts leniency layout layout = .ok outcome ∧
      (outcome.operations = [] ↔ OwnNames storage namespaces) ∧
      (leniency.strictRenames = true →
        ((Report.mk outcome.operations).ok = true ↔ OwnNames storage namespaces)) := by
  obtain ⟨-, hr⟩ := Layout.resolveStorage_joined hs
  obtain ⟨ops, hops, htells⟩ := exists_plainSection_self leniency hr hstorage
  obtain ⟨parts, hparts⟩ := exists_forall₂ fun p hp =>
    exists_freshNamespace_self leniency hn hkeys hp (hnamespaces p hp)
  obtain ⟨outcome, houtcome, hall⟩ := layouts_eq_ok_of_fresh ⟨hs, hs, hn, hn⟩
    ((listChanges_fresh_iff hr.graph.keyed hr.graph.keyed).mpr hops) (hparts.imp fun _ _ h => h.1)
  refine ⟨outcome, houtcome, ?_, fun hstrict => ?_⟩
  · rw [hall, List.append_eq_nil_iff, List.flatten_eq_nil_iff]
    exact and_congr htells.nil (forall_mem_iff_of_forall₂ hparts fun _ _ h => h.2.nil)
  · have hclean : (Report.mk outcome.operations).ok = true ↔
        (∀ op ∈ ops, op.note = true) ∧ ∀ part ∈ parts, ∀ op ∈ part, op.note = true := by
      rw [hall]
      simp [Report.ok, Report.errorOperations]
    rw [hclean]
    exact and_congr (htells.clean hstrict)
      (forall_mem_iff_of_forall₂ hparts fun _ _ h => h.2.clean hstrict)

/-! ## Layouts that are checked -/

/-- What has to be known of a list to be steady, checked type by type. -/
def SteadyTypes (r : Resolved) : Prop :=
  r.withoutNames.Tame ∧ (∀ p ∈ r.graph, p.2.Readable ∧ r.graph.GapsMeasured p.2) ∧
    ∀ v ∈ r.vars, v.isGap = true → v.Measured

instance (r : Resolved) : Decidable (SteadyTypes r) :=
  inferInstanceAs (Decidable (r.withoutNames.Tame ∧
    (∀ p ∈ r.graph, p.2.Readable ∧ r.graph.GapsMeasured p.2) ∧
    ∀ v ∈ r.vars, v.isGap = true → v.Measured))

theorem SteadyTypes.steady {types : TypeTable} {r : Resolved} (h : SteadyTypes r)
    (hr : r.Joined types) : Steady r where
  regular := h.1.regular ⟨hr.graph, List.forall_mem_map.mpr fun m hm => hr.items m hm⟩
  measured := (Resolved.measured_of_graph hr h.2.1).measuredWith
    (Resolved.measured_of_graph hr h.2.1)
  gaps := h.2.2

theorem exists_steady_of_any (layout : Layout) (P : Resolved → Prop) [DecidablePred P]
    (h : (layout.resolveStorage.toOption.any fun r => decide (SteadyTypes r ∧ P r)) = true) :
    ∃ r, layout.resolveStorage = .ok r ∧ Steady r ∧ P r := by
  obtain ⟨r, hr, h⟩ := (Option.any_eq_true _ _).mp h
  obtain ⟨hsteady, hP⟩ := of_decide_eq_true h
  have hok := eq_ok_of_toOption hr
  exact ⟨r, hok, hsteady.steady (Layout.resolveStorage_joined hok).2, hP⟩

/-- A word that declares a former name. -/
def formerlyNamed (name label : String) (slot : Int) : Item :=
  { word label slot with renamedFrom := some name }

/-- A word that was renamed before, and a gap. -/
theorem layouts_self_iff_words :
    ∃ storage outcome,
      layouts { strictRenames := true } (wordLayout [formerlyNamed "admin" "owner" 0, gap 2 1])
        (wordLayout [formerlyNamed "admin" "owner" 0, gap 2 1]) = .ok outcome ∧
      ((Report.mk outcome.operations).ok = true ↔ OwnNames storage []) := by
  obtain ⟨storage, hs, hsteady, -⟩ := exists_steady_of_any
    (wordLayout [formerlyNamed "admin" "owner" 0, gap 2 1]) (fun _ => True) (by decide +kernel)
  obtain ⟨outcome, houtcome, -, hok⟩ := layouts_self_iff hs rfl List.nodup_nil hsteady
    (fun _ hp => absurd hp List.not_mem_nil) { strictRenames := true }
  exact ⟨storage, outcome, houtcome, hok rfl⟩

/-- A word that still declares its former name is taken for renamed once more, and the layout is refused
as its own update. -/
theorem carried_name_refused :
    (∃ storage, (wordLayout [formerlyNamed "admin" "owner" 0]).resolveStorage = .ok storage ∧
      Steady storage) ∧
    ∃ outcome, layouts { strictRenames := true } (wordLayout [formerlyNamed "admin" "owner" 0])
        (wordLayout [formerlyNamed "admin" "owner" 0]) = .ok outcome ∧
      outcome.operations =
        [⟨.rename ⟨formerlyNamed "admin" "owner" 0, wordType⟩
          ⟨formerlyNamed "admin" "owner" 0, wordType⟩, false, none⟩] ∧
      (Report.mk outcome.operations).ok = false := by
  constructor
  · obtain ⟨storage, hs, hsteady, -⟩ := exists_steady_of_any
      (wordLayout [formerlyNamed "admin" "owner" 0]) (fun _ => True) (by decide +kernel)
    exact ⟨storage, hs, hsteady⟩
  · have hplain : plainStorage { strictRenames := true }
        (wordLayout [formerlyNamed "admin" "owner" 0])
        (wordLayout [formerlyNamed "admin" "owner" 0]) =
          some [⟨.rename ⟨formerlyNamed "admin" "owner" 0, wordType⟩
            ⟨formerlyNamed "admin" "owner" 0, wordType⟩, false, none⟩] := by
      with_unfolding_all rfl
    obtain ⟨outcome, houtcome, hops⟩ := (layouts_iff_plainStorage rfl rfl).mpr hplain
    exact ⟨outcome, houtcome, hops, by rw [hops]; rfl⟩

end Compare

end UpgradeSafety
