import UpgradeSafety.Proofs.Compare.Judgement
import UpgradeSafety.Proofs.Compare.Sections

/-!
# What a comparison without errors guarantees

With strict renames, a comparison of two layouts without errors means that the storage of the
former layout lives on in the updated one (`CarriedOver`): every variable that is no gap is found
again, in order, with its name, its position and a type that fits; a gap lives on, or variables
take exactly its room; and what is new stands in a former gap or behind everything.

The map is that of the script: a former variable goes to the updated one with which it is paired.
It increases because pairs do not cross. A step without errors is harmless, and each kind of
harmless step gives one part of the guarantee: pairs keep a variable or resize a gap, a deletion is
that of a gap whose room is taken by the variables added around it, and additions stand in a gap or
behind everything.

* `carriedOver_of_listChanges`: for two lists, whatever compares their types.
* `sections_carriedOver`: for the storage and the namespaces of two layouts.
-/

namespace UpgradeSafety.Compare

open UpgradeSafety.Alignment (Step Leads Filled difference)

/-! ## Variables that live on -/

/-- The updated variable has the name, the position and the type of the former one, as far as they
are known, or declares a former name or type. `found` is what a comparison of the types finds. -/
structure LivesOn (found : Except Obstacle (Option TypeChange)) (former : List Variable) (i : Nat)
    (o u : Variable) : Prop where
  name : u.item.renamedFrom = some o.item.label ∨
    (u.item.renamedFrom = none ∧ u.item.label = o.item.label)
  position : ∀ s t, o.item.slot = some s → u.item.slot = some t →
    s = t ∧ o.item.offset.getD 0 = u.item.offset.getD 0
  type : TypeFits found former i o u

/-- What becomes of a former gap: it stays, it is resized and still ends where it ended, or updated
variables that are no partners of others take its room. -/
inductive GapLivesOn (found : Variable → Except Obstacle (Option TypeChange))
    (former updated : List Variable) (image : Nat → Option Nat) (i : Nat) (g : Variable) : Prop where
  | unchanged {j : Nat} {u : Variable} : image i = some j → updated[j]? = some u →
      variableChange (found u) former i g u = .ok none →
      GapLivesOn found former updated image i g
  | resized {j : Nat} {u : Variable} : image i = some j → updated[j]? = some u →
      u.isGap = true → EndsAlike g u → GapLivesOn found former updated image i g
  | replaced {p q : Nat} : image i = none → p < q → q ≤ updated.length →
      (∀ k b, p ≤ b → b < q → image k ≠ some b) →
      (∀ k b, k < i → image k = some b → b < p) → (∀ k b, i < k → image k = some b → q ≤ b) →
      Fills g (updated.extract p q) → GapLivesOn found former updated image i g

/-- The former variables live on in the updated list, each at the index of its image. -/
structure CarriedOver (tc : CompareTypes (Except Obstacle)) (former updated : List Variable)
    (a : Bool) (image : Nat → Option Nat) : Prop where
  bounds : ∀ i j, image i = some j → i < former.length ∧ j < updated.length
  increasing : ∀ i j k l, image i = some j → image k = some l → i < k → j < l
  kept : ∀ i o, former[i]? = some o → o.isGap = false → ∃ j u, image i = some j ∧
    updated[j]? = some u ∧
    LivesOn (tc o.type u.type (a && i + 1 == former.length)) former i o u
  gaps : ∀ i g, former[i]? = some g → g.isGap = true →
    GapLivesOn (fun u => checkedChange tc g.type u.type (a && i + 1 == former.length)) former
      updated image i g
  new : ∀ j u, updated[j]? = some u → (∀ i, image i ≠ some j) →
    (∃ g ∈ former, g.isGap = true ∧ u.startsIn g = true) ∨ (a = true ∧ former.length ≤ j)

/-! ## From differences to guarantees -/

theorem TypeFits.mono {found found' : Except Obstacle (Option TypeChange)}
    {siblings : List Variable} {i : Nat} {o u : Variable} (h : TypeFits found siblings i o u)
    (hfound : ∀ t, found = .ok t → found' = .ok t) : TypeFits found' siblings i o u :=
  h.imp_right (Or.imp (hfound none) fun ⟨hwidens, t, ht⟩ => ⟨hwidens, t, hfound _ ht⟩)

/-- A variable that is no gap lives on in a partner from which it does not differ. -/
theorem livesOn_of_variableChange {tc : CompareTypes (Except Obstacle)} {former : List Variable}
    {i : Nat} {o u : Variable} {a : Bool} (hgap : o.isGap = false)
    (h : variableChange (checkedChange tc o.type u.type a) former i o u = .ok none) :
    LivesOn (tc o.type u.type a) former i o u := by
  obtain ⟨hnames, hmove, htype⟩ :=
    (variableChange_eq_none_iff (areGaps_eq_false (Or.inl hgap))).mp h
  exact ⟨namesDiffer_eq_false_iff.mp hnames, move?_eq_none_iff.mp hmove,
    htype.mono fun _ => checkedChange_eq_ok⟩

/-! ## Two lists -/

section Lists

variable {former updated : List Variable} {rows : List (List (Option Change))}

/-- The steps that pair a former variable either leave it as it is or resize a gap. -/
theorem difference_of_passes {a : Bool} {gaps : List Variable} {before rest : List VariableEdit}
    {i j : Nat} {e : VariableEdit} (hfilled : Filled former updated rows (.pair i j) e)
    (hpasses : Passes a gaps before rest e) :
    ∃ o u, former[i]? = some o ∧ updated[j]? = some u ∧ (difference rows i j = none ∨
      ∃ v w n, difference rows i j = some (.resizeGap v w n) ∧ EndsAlike v w) := by
  cases hfilled with
  | equal ho hu hd => exact ⟨_, _, ho, hu, Or.inl hd⟩
  | substitute ho hu hd =>
    cases hpasses with
    | resizeGap hends => exact ⟨_, _, ho, hu, Or.inr ⟨_, _, _, hd, hends⟩⟩

theorem mem_extract_iff {p q : Nat} {v : Variable} :
    v ∈ updated.extract p q ↔ ∃ b, p ≤ b ∧ b < q ∧ updated[b]? = some v := by
  rw [List.extract_eq_take_drop, List.mem_iff_getElem?]
  simp only [List.getElem?_take, List.getElem?_drop]
  constructor
  · rintro ⟨k, hk⟩
    split at hk
    · exact ⟨p + k, by omega, by omega, hk⟩
    · cases hk
  · rintro ⟨b, hpb, hbq, hb⟩
    exact ⟨b - p, by rw [if_pos (by omega), Nat.add_sub_cancel' hpb]; exact hb⟩

theorem Fills.congr {g : Variable} {l l' : List Variable} (h : Fills g l)
    (hmem : ∀ v, v ∈ l ↔ v ∈ l') : Fills g l' := by
  obtain ⟨⟨first, hfirst, hstarts⟩, last, hlast, hends, v, hv, hv'⟩ := h
  exact ⟨⟨first, hfirst, fun w hw => hstarts w ((hmem w).mpr hw)⟩, last, hlast,
    fun w hw => hends w ((hmem w).mpr hw), v, (hmem v).mp hv, hv'⟩

section Script

variable {tc : CompareTypes (Except Obstacle)} {a : Bool} {ops : List Operation}
  {steps : List Step} {script : List VariableEdit}
  (hrows : differences (checkedChange tc) former updated a = .ok rows)
  (hleads : Leads former.length 0 0 steps former.length updated.length)
  (hfilled : List.Forall₂ (Filled former updated rows) steps script)
  (hjudge : judge true a former script = .ok ops) (hclean : ∀ op ∈ ops, op.note = true)
include hfilled hjudge hclean

theorem exists_passes {s : Step} (hs : s ∈ steps) :
    ∃ front back before e rest, steps = front ++ s :: back ∧
      List.Forall₂ (Filled former updated rows) front before ∧ Filled former updated rows s e ∧
      List.Forall₂ (Filled former updated rows) back rest ∧
      Passes a (former.filter Variable.isGap) before.reverse rest e := by
  obtain ⟨front, back, rfl⟩ := List.append_of_mem hs
  obtain ⟨before, e, rest, rfl, hfront, he, hback⟩ := split_of_forall₂ hfilled.flip
  refine ⟨front, back, before, e, rest, rfl, hfront.flip, he, hback.flip, ?_⟩
  have hpasses := passes_of_clean hjudge hclean rfl
  rwa [List.append_nil] at hpasses

include hleads

/-- A script without errors keeps every variable that is no gap. -/
theorem exists_pair_of_not_isGap {i : Nat} {o : Variable} (ho : former[i]? = some o)
    (hgap : o.isGap = false) : ∃ j, .pair i j ∈ steps := by
  obtain ⟨s, hs, hrow⟩ := hleads.exists_row_iff.mpr
    ⟨Nat.zero_le i, (List.getElem?_eq_some_iff.mp ho).1⟩
  cases s with
  | pair k j =>
    cases hrow
    exact ⟨j, hs⟩
  | insert j => cases hrow
  | append j => cases hrow
  | delete k =>
    cases hrow
    obtain ⟨_, _, _, _, _, _, _, hdelete, _, hpasses⟩ := exists_passes hfilled hjudge hclean hs
    cases hdelete with
    | delete ho' =>
      cases hpasses with
      | delete hgap' =>
        rw [ho] at ho'
        cases ho'
        rw [hgap] at hgap'
        cases hgap'

/-- What a script without errors adds stands in a former gap or behind everything. -/
theorem new_of_clean {j : Nat} {u : Variable} (hu : updated[j]? = some u)
    (hnew : ∀ i, .pair i j ∉ steps) :
    (∃ g ∈ former, g.isGap = true ∧ u.startsIn g = true) ∨ (a = true ∧ former.length ≤ j) := by
  obtain ⟨s, hs, hcolumn⟩ := hleads.exists_column_iff.mpr
    ⟨Nat.zero_le j, (List.getElem?_eq_some_iff.mp hu).1⟩
  cases s with
  | pair i k =>
    cases hcolumn
    exact absurd hs (hnew i)
  | insert k =>
    cases hcolumn
    obtain ⟨_, _, _, _, _, _, _, he, _, hpasses⟩ := exists_passes hfilled hjudge hclean hs
    cases he with
    | insert hu' =>
      rw [hu] at hu'
      cases hu'
      cases hpasses with
      | insert hg hstarts =>
        obtain ⟨hmem, hgap⟩ := List.mem_filter.mp hg
        exact Or.inl ⟨_, hmem, hgap, hstarts⟩
  | append k =>
    cases hcolumn
    obtain ⟨_, _, _, _, _, _, _, he, _, hpasses⟩ := exists_passes hfilled hjudge hclean hs
    cases he with
    | append hu' =>
      cases hpasses with
      | append _ ha => exact Or.inr ⟨ha, hleads.le_of_append hs⟩
  | delete k => cases hcolumn

include hrows

omit hleads in
/-- What a script without errors does with a pair. -/
theorem variableChange_of_pair {i j : Nat} (hpair : .pair i j ∈ steps) :
    ∃ o u, former[i]? = some o ∧ updated[j]? = some u ∧
      (variableChange (checkedChange tc o.type u.type (a && i + 1 == former.length)) former i o u =
        .ok none ∨ o.isGap = true ∧ u.isGap = true ∧ EndsAlike o u) := by
  obtain ⟨_, _, _, _, _, _, _, he, _, hpasses⟩ := exists_passes hfilled hjudge hclean hpair
  obtain ⟨o, u, ho, hu, hd⟩ := difference_of_passes he hpasses
  have hchange := variableChange_eq_difference hrows ho hu
  refine ⟨o, u, ho, hu, ?_⟩
  rcases hd with hd | ⟨v, w, n, hd, hends⟩
  · rw [hd] at hchange
    exact Or.inl hchange
  · rw [hd] at hchange
    obtain ⟨rfl, rfl, hog, hug⟩ := isGap_of_resizeGap hchange
    exact Or.inr ⟨hog, hug, hends⟩

/-- A script without errors keeps a gap or puts variables into its room. -/
theorem gapLivesOn_of_clean {i : Nat} {g : Variable} (hg : former[i]? = some g) :
    GapLivesOn (fun u => checkedChange tc g.type u.type (a && i + 1 == former.length)) former
      updated (Alignment.partner? steps) i g := by
  obtain ⟨s, hs, hrow⟩ := hleads.exists_row_iff.mpr
    ⟨Nat.zero_le i, (List.getElem?_eq_some_iff.mp hg).1⟩
  cases s with
  | pair k j =>
    cases hrow
    have himage := hleads.partner?_eq_some_iff.mpr hs
    obtain ⟨o, u, ho, hu, hchange⟩ := variableChange_of_pair hrows hfilled hjudge hclean hs
    rw [hg] at ho
    cases ho
    rcases hchange with hchange | ⟨-, hug, hends⟩
    · exact .unchanged himage hu hchange
    · exact .resized himage hu hug hends
  | insert j => cases hrow
  | append j => cases hrow
  | delete k =>
    cases hrow
    obtain ⟨front, back, before, _, rest, hsteps, hfront, hdelete, hback, hpasses⟩ :=
      exists_passes hfilled hjudge hclean hs
    cases hdelete with
    | delete ho =>
      rw [hg] at ho
      cases ho
      cases hpasses with
      | delete _ hfills =>
        rw [hsteps] at hleads
        obtain ⟨p, q, hblock, hpq, hqm, hbefore, hbehind⟩ :=
          exists_block_around hleads hfront hback
        rw [← hsteps] at hleads hblock hbefore hbehind
        have hfills' : Fills g (updated.extract p q) :=
          hfills.congr fun v => (hblock.mem_iff v).trans mem_extract_iff.symm
        have hne : p < q := by
          obtain ⟨-, -, -, v, hv, -⟩ := hfills'.ends
          obtain ⟨b, hpb, hbq, -⟩ := mem_extract_iff.mp hv
          omega
        refine .replaced ?_ hne hqm (fun k b hpb hbq hk => ?_) (fun k b hki hk => ?_)
          (fun k b hik hk => ?_) hfills'
        · cases himage : Alignment.partner? steps i with
          | none => rfl
          | some b =>
            cases hleads.eq_of_row (hleads.partner?_eq_some_iff.mp himage) hs rfl rfl
        · exact Leads.not_adds_of_pair hleads (hleads.partner?_eq_some_iff.mp hk)
            (hblock.adds b hpb hbq)
        · exact hbefore k b hki (hleads.partner?_eq_some_iff.mp hk)
        · exact hbehind k b hik (hleads.partner?_eq_some_iff.mp hk)

end Script

end Lists

/-- With strict renames, the former variables live on in an updated list without errors. -/
theorem carriedOver_of_listChanges {tc : CompareTypes (Except Obstacle)}
    {former updated : List Variable} {a : Bool} {ops : List Operation}
    (h : listChanges true tc former updated a = .ok ops) (hclean : ∀ op ∈ ops, op.note = true) :
    ∃ image, CarriedOver tc former updated a image := by
  obtain ⟨-, rows, steps, script, hrows, hsteps, hfilled, hjudge⟩ := listChanges_eq_ok_iff.mp h
  obtain ⟨steps', hsteps', hleads⟩ :=
    Alignment.script?_leads (prices former updated rows) former.length updated.length
  rw [hsteps] at hsteps'
  cases hsteps'
  have hpair {i j : Nat} : Alignment.partner? steps i = some j ↔ .pair i j ∈ steps :=
    hleads.partner?_eq_some_iff
  refine ⟨Alignment.partner? steps, ?_, ?_, ?_, ?_, ?_⟩
  · intro i j hij
    have hmem := hpair.mp hij
    exact ⟨(hleads.exists_row_iff.mp ⟨_, hmem, rfl⟩).2,
      (hleads.exists_column_iff.mp ⟨_, hmem, rfl⟩).2⟩
  · intro i j k l hij hkl hik
    exact hleads.pair_lt (hpair.mp hij) (hpair.mp hkl) hik
  · intro i o ho hgap
    obtain ⟨j, hj⟩ := exists_pair_of_not_isGap hleads hfilled hjudge hclean ho hgap
    obtain ⟨o', u, ho', hu, hchange⟩ :=
      variableChange_of_pair hrows hfilled hjudge hclean hj
    rw [ho] at ho'
    cases ho'
    rcases hchange with hchange | ⟨hgap', -⟩
    · exact ⟨j, u, hpair.mpr hj, hu, livesOn_of_variableChange hgap hchange⟩
    · rw [hgap] at hgap'
      cases hgap'
  · intro i g hg _
    exact gapLivesOn_of_clean hrows hleads hfilled hjudge hclean hg
  · intro j u hu hnew
    exact new_of_clean hleads hfilled hjudge hclean hu fun i hi => hnew i (hpair.mpr hi)

/-! ## Layouts -/

/-- The operations of a list belong to no namespace yet. -/
theorem namespaceId_of_listChanges {strict : Bool} {tc : CompareTypes (Except Obstacle)}
    {former updated : List Variable} {a : Bool} {ops : List Operation}
    (h : listChanges strict tc former updated a = .ok ops) :
    ∀ op ∈ ops, op.namespaceId = none := by
  obtain ⟨-, _, _, _, -, -, -, hjudge⟩ := listChanges_eq_ok_iff.mp h
  exact namespaceId_of_judgeSteps hjudge

/-- With strict renames, the storage lives on when no operation on it is an error, and so does every
namespace. -/
theorem sections_carriedOver {leniency : Leniency} {former updated : Layout} {outcome : Outcome}
    (hstrict : leniency.strictRenames = true)
    (h : layouts leniency former updated = .ok outcome) :
    ∃ os us on un, Sections former updated os us on un ∧
      ((∀ op ∈ outcome.operations, op.namespaceId = none → op.note = true) →
        ∃ image, CarriedOver (freshChange leniency os.graph us.graph) os.vars us.vars true image) ∧
      ∀ id o, (id, o) ∈ on →
        (∀ op ∈ outcome.operations, op.namespaceId = some id → op.note = true) →
        ∃ u, un.lookup id = some u ∧
          ∃ image, CarriedOver (freshChange leniency o.graph u.graph) o.vars u.vars true image := by
  obtain ⟨os, us, on, un, hsections, storage, parts, hstorage, hparts, hops⟩ := layouts_eq_ok h
  refine ⟨os, us, on, un, hsections, fun hclean => ?_, fun id o hmem hclean => ?_⟩
  · rw [freshSection, hstrict] at hstorage
    refine carriedOver_of_listChanges hstorage fun op hop => ?_
    refine hclean op ?_ (namespaceId_of_listChanges hstorage op hop)
    rw [hops]
    exact List.mem_append_left _ hop
  · obtain ⟨k, hk⟩ := List.mem_iff_getElem?.mp hmem
    obtain ⟨part, hpart, hfresh⟩ := getElem?_of_forall₂ hparts hk
    have hpart' (op : Operation) (hop : op ∈ part) (hid : op.namespaceId = some id) :
        op.note = true := by
      refine hclean op ?_ hid
      rw [hops]
      exact List.mem_append_right _ (List.mem_flatten_of_mem (List.mem_of_getElem? hpart) hop)
    rw [freshNamespace] at hfresh
    dsimp only at hfresh
    split at hfresh
    · cases hfresh
      exact absurd (hpart' _ List.mem_cons_self rfl) Bool.false_ne_true
    · rename_i u hu
      cases hsection : freshSection leniency o u with
      | error e =>
        rw [hsection] at hfresh
        cases hfresh
      | ok ops =>
        rw [hsection] at hfresh
        cases hfresh
        refine ⟨u, hu, ?_⟩
        rw [freshSection, hstrict] at hsection
        exact carriedOver_of_listChanges hsection fun op hop =>
          hpart' { op with namespaceId := some id } (List.mem_map_of_mem hop) rfl

/-- A word takes the first half of a gap. -/
theorem sections_carriedOver_half_gap :
    ∃ os us, (wordLayout [word "owner" 0, gap 2 1]).resolveStorage = .ok os ∧
      (wordLayout [word "owner" 0, word "limit" 1, gap 1 2]).resolveStorage = .ok us ∧
      ∃ image, CarriedOver (freshChange { strictRenames := true } os.graph us.graph) os.vars us.vars
        true image := by
  have hnotes : (plainStorage { strictRenames := true } (wordLayout [word "owner" 0, gap 2 1])
      (wordLayout [word "owner" 0, word "limit" 1, gap 1 2])).map (·.map (·.note)) =
        some [true] := by
    decide +kernel
  obtain ⟨ops, hops, hnotes⟩ := Option.map_eq_some_iff.mp hnotes
  obtain ⟨outcome, houtcome, rfl⟩ := (layouts_iff_plainStorage rfl rfl).mpr hops
  obtain ⟨os, us, _, _, hsections, hstorage, -⟩ := sections_carriedOver rfl houtcome
  refine ⟨os, us, hsections.os, hsections.us, hstorage fun op hop _ => ?_⟩
  have hmem : op.note ∈ [true] := hnotes ▸ List.mem_map_of_mem hop
  exact List.mem_singleton.mp hmem

end UpgradeSafety.Compare
