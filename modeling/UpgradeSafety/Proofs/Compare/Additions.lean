import UpgradeSafety.Proofs.Compare.Judgement
import UpgradeSafety.Proofs.Compare.Sections

/-!
# Variables that are added

An updated variable without a partner is added by a step of the alignment. The index of the
variable alone decides what is reported of it (`additions_reported`): up to the length of the
former list it is inserted, which is an error unless it starts in a former gap, and from there on
it is appended, which is an error only where appending is forbidden.

The script leads through the updated list, so each of its variables is taken by exactly one step,
and a step is judged without a look at the others, as long as it removes no gap. What is reported
of the whole is therefore put together step by step (`StepAdditionReported`).

The steps behind play no part. So a variable may count as appended although former variables
follow, and then it is not reported at all: of two addresses before an admin only the first one is
(`appended_before_kept_unreported`).
-/

namespace UpgradeSafety.Compare

open UpgradeSafety.Alignment (Step Leads Filled)

/-- Whether a variable starts inside a gap of the former list. -/
def StartsInGap (former : List Variable) (u : Variable) : Prop :=
  ∃ g ∈ former, g.isGap = true ∧ u.startsIn g = true

/-- What is reported of an updated variable that has no partner, by its index. -/
structure AdditionReported (former : List Variable) (a : Bool) (j : Nat) (u : Variable)
    (part : List Operation) : Prop where
  inGap : j < former.length → StartsInGap former u → part = []
  inserted : j < former.length → ¬ StartsInGap former u → part = [⟨.insert u, false, none⟩]
  appended : former.length ≤ j → part = if a then [] else [⟨.append u, false, none⟩]

/-- What is reported of a step that takes an updated variable and no former one. -/
def StepAdditionReported (former updated : List Variable) (a : Bool) (s : Step)
    (part : List Operation) : Prop :=
  ∀ j u, s.row? = none → s.column? = some j → updated[j]? = some u →
    AdditionReported former a j u part

section Lists

variable {strict a : Bool} {former updated : List Variable} {rows : List (List (Option Change))}
  {before rest : List VariableEdit}

theorem any_startsIn_iff {u : Variable} :
    ((former.filter Variable.isGap).any fun g => u.startsIn g) = true ↔ StartsInGap former u := by
  simp [StartsInGap]

theorem stepAdditionReported_of_judgeStep {s : Step} {e : VariableEdit} {part : List Operation}
    (hinsert : ∀ j, s = .insert j → j < former.length)
    (happend : ∀ j, s = .append j → former.length ≤ j) (hfilled : Filled former updated rows s e)
    (hpart : judgeStep strict a (former.filter Variable.isGap) before e rest = .ok part) :
    StepAdditionReported former updated a s part := by
  intro j u hrow hcolumn hu
  cases hfilled with
  | equal => cases hrow
  | substitute => cases hrow
  | delete => cases hrow
  | insert hu' =>
    cases hcolumn
    rw [hu] at hu'
    cases hu'
    have hlt := hinsert j rfl
    rw [judgeStep] at hpart
    refine ⟨fun _ hgap => ?_, fun _ hgap => ?_, fun hle => by omega⟩
    · rw [if_pos (any_startsIn_iff.mpr hgap)] at hpart
      exact (Except.ok.inj hpart).symm
    · rw [if_neg (mt any_startsIn_iff.mp hgap)] at hpart
      exact (Except.ok.inj hpart).symm
  | append hu' =>
    cases hcolumn
    rw [hu] at hu'
    cases hu'
    have hle := happend j rfl
    rw [judgeStep] at hpart
    exact ⟨fun hlt => by omega, fun hlt => by omega, fun _ => (Except.ok.inj hpart).symm⟩

theorem stepAdditionReported_of_judged {script : List VariableEdit} {steps : List Step}
    {parts : List (List Operation)} (hinsert : ∀ j, .insert j ∈ steps → j < former.length)
    (happend : ∀ j, .append j ∈ steps → former.length ≤ j)
    (hfilled : List.Forall₂ (Filled former updated rows) steps script)
    (hjudged : Judged strict a (former.filter Variable.isGap) before script parts) :
    List.Forall₂ (StepAdditionReported former updated a) steps parts := by
  refine forall₂_of_judged hfilled hjudged fun s hmem e front rest part hs hpart => ?_
  refine stepAdditionReported_of_judgeStep ?_ ?_ hs hpart
  · rintro j rfl
    exact hinsert j hmem
  · rintro j rfl
    exact happend j hmem

end Lists

/-- Every updated variable is taken by a step of the alignment, and every step has operations of its
own. Of a variable without a partner they are an error of its insertion, an error of its being
appended, or none, as its index and the former gaps decide. -/
theorem additions_reported {leniency : Leniency} {former updated : Resolved}
    {memory memory' : Memory} {fuel : Nat} {openPairs : List PairKey} {a : Bool}
    {ops : List Operation} (hunderway : Underway leniency former updated memory)
    (hrun : (listChanges leniency.strictRenames
      (typeChange leniency former.graph updated.graph fuel openPairs) former.vars updated.vars
      a).run.run memory = (.ok ops, memory')) :
    ∃ steps parts, alignment (freshChange leniency former.graph updated.graph) former.vars
        updated.vars a = .ok steps ∧
      (∀ j < updated.vars.length, ∃ s ∈ steps, s.column? = some j) ∧
      List.Forall₂ (StepAdditionReported former.vars updated.vars a) steps parts ∧
      parts.flatten = ops := by
  have hfresh := (hunderway.run hrun).2
  obtain ⟨-, rows, steps, script, hrows, hsteps, hfilled, hjudge⟩ :=
    listChanges_eq_ok_iff.mp hfresh
  obtain ⟨steps', hsteps', hleads⟩ :=
    Alignment.script?_leads (prices former.vars updated.vars rows) former.vars.length
      updated.vars.length
  rw [hsteps] at hsteps'
  cases hsteps'
  obtain ⟨parts, hjudged, hflatten⟩ := judgeSteps_eq_ok_iff.mp hjudge
  refine ⟨steps, parts, alignment_eq_ok hrows hsteps, fun j hj => ?_, ?_, hflatten⟩
  · exact hleads.exists_column_iff.mpr ⟨Nat.zero_le j, hj⟩
  · exact stepAdditionReported_of_judged (fun _ => hleads.lt_of_insert)
      (fun _ => hleads.le_of_append) hfilled hjudged

/-! ## Variables added before one that is kept -/

/-- An owner and an admin, and the same with two addresses between them. -/
abbrev ownerAdmin : List Variable := [address "owner" 0, address "admin" 1]

abbrev ownerOthersAdmin : List Variable :=
  [address "owner" 0, address "guardian" 1, address "treasurer" 2, address "admin" 3]

theorem ownerOthersAdmin_sections : Sections (addressLayout ownerAdmin)
    (addressLayout ownerOthersAdmin) (addressStorage ownerAdmin) (addressStorage ownerOthersAdmin)
      [] [] :=
  ⟨by with_unfolding_all rfl, by with_unfolding_all rfl, rfl, rfl⟩

/-- The operations: the first of the two is inserted, and the admin has moved. -/
def ownerOthersAdminChanges : List Operation :=
  [⟨.insert (address "guardian" 1), false, none⟩,
    ⟨.move (address "admin" 1) (address "admin" 3) ⟨some (1, 3), none⟩, false, none⟩]

theorem ownerOthersAdmin_plain : plainSection {} (addressStorage ownerAdmin)
    (addressStorage ownerOthersAdmin) = .ok ownerOthersAdminChanges := by
  with_unfolding_all rfl

/-- The comparison of an owner and an admin with two addresses between them. -/
theorem additions_reported_address :
    ∃ steps parts,
      alignment (freshChange {} (addressStorage ownerAdmin).graph
        (addressStorage ownerOthersAdmin).graph) ownerAdmin ownerOthersAdmin true = .ok steps ∧
      (∀ j < ownerOthersAdmin.length, ∃ s ∈ steps, s.column? = some j) ∧
      List.Forall₂ (StepAdditionReported ownerAdmin ownerOthersAdmin true) steps parts ∧
      parts.flatten = ownerOthersAdminChanges := by
  have hunderway := ownerOthersAdmin_sections.underway {}
  obtain ⟨memory', hrun⟩ := hunderway.run_of_plain ownerOthersAdmin_plain
  exact additions_reported hunderway hrun

theorem vars_addressStorage (addresses : List Variable)
    (h : ∀ v ∈ addresses, v.item.type = "t_address" ∧ v.type = addressType) :
    (addressStorage addresses).vars = addresses := by
  have hself : ∀ v ∈ addresses, (addressStorage addresses).graph.variable v.item = v := by
    intro v hv
    obtain ⟨hid, htype⟩ := h v hv
    rw [TypeGraph.variable, TypeGraph.node, hid, addressStorage, List.lookup_cons_self,
      Option.getD_some, ← htype]
  rw [Resolved.vars, addressStorage, List.map_map]
  exact (List.map_congr_left hself).trans (List.map_id' addresses)

theorem ownerOthersAdmin_alignment :
    alignment (freshChange {} (addressStorage ownerAdmin).graph
      (addressStorage ownerOthersAdmin).graph) ownerAdmin ownerOthersAdmin true =
        .ok [.pair 0 0, .insert 1, .append 2, .pair 1 3] := by
  obtain ⟨-, hos⟩ := Layout.resolveStorage_joined ownerOthersAdmin_sections.os
  obtain ⟨-, hus⟩ := Layout.resolveStorage_joined ownerOthersAdmin_sections.us
  have hplain : (alignment (plainChange {} (addressStorage ownerAdmin).graph
      (addressStorage ownerOthersAdmin).graph (pairBound (addressStorage ownerAdmin).graph
        (addressStorage ownerOthersAdmin).graph)) (addressStorage ownerAdmin).vars
      (addressStorage ownerOthersAdmin).vars true).toOption =
        some [.pair 0 0, .insert 1, .append 2, .pair 1 3] := by
    decide +kernel
  have hfresh := alignment_fresh_of_plain hos.graph.keyed hus.graph.keyed
    (eq_ok_of_toOption hplain)
  rwa [← Resolved.vars, ← Resolved.vars, vars_addressStorage ownerAdmin (by decide +kernel),
    vars_addressStorage ownerOthersAdmin (by decide +kernel)] at hfresh

/-- The second of the two addresses comes before the admin in the alignment and starts in no gap,
but it counts as appended and nothing is reported of it. -/
theorem appended_before_kept_unreported :
    (∃ front back, alignment (freshChange {} (addressStorage ownerAdmin).graph
        (addressStorage ownerOthersAdmin).graph) ownerAdmin ownerOthersAdmin true =
          .ok (front ++ .append 2 :: back) ∧ .pair 1 3 ∈ back) ∧
    ¬ StartsInGap ownerAdmin (address "treasurer" 2) ∧
    ∃ outcome, layouts {} (addressLayout ownerAdmin) (addressLayout ownerOthersAdmin) =
        .ok outcome ∧ outcome.operations = ownerOthersAdminChanges := by
  refine ⟨⟨[.pair 0 0, .insert 1], [.pair 1 3], ownerOthersAdmin_alignment,
    List.mem_singleton_self _⟩, ?_, ?_⟩
  · rintro ⟨g, hg, hgap, -⟩
    rw [(by decide +kernel : ∀ g ∈ ownerAdmin, g.isGap = false) g hg] at hgap
    cases hgap
  · exact layouts_eq_ok_of_plain ownerOthersAdmin_sections ownerOthersAdmin_plain
      fun _ hp => by cases hp

end UpgradeSafety.Compare
