import UpgradeSafety.Proofs.Compare.Pairs

/-!
# Judging a script

A script is judged step by step, and a step adds operations of its own (`Judged`). With strict
renames a step without errors is harmless: it keeps a variable, resizes a gap that still ends where
it ended, appends where that is allowed, inserts into a gap, or removes a gap whose room is taken
by the variables added around it (`Passes`).

Only the removal of a gap is judged by the steps around it, those before it being given last one
first. For all others the operations can be put together without looking around
(`judgeSteps_eq_flatMap`). A step that adds takes the next updated variable, so the variables that
are added one after the other, with no pair between them, are neighbours in the updated list
(`IsBlock`).

* `passes_of_clean`: the steps without errors are harmless.
* `exists_block_around`: the variables added around a step are neighbours in the updated list.
* `listChanges_eq_nil`: lists that start alike have no operations.
-/

namespace UpgradeSafety.Compare

open UpgradeSafety.Alignment (Step Leads Filled difference)

/-! ## Operations of the steps -/

/-- The operations of the steps of a script, one list for each step. -/
inductive Judged (strict a : Bool) (gaps : List Variable) :
    List VariableEdit → List VariableEdit → List (List Operation) → Prop where
  | nil (before : List VariableEdit) : Judged strict a gaps before [] []
  | cons {before rest : List VariableEdit} {step : VariableEdit} {here : List Operation}
      {parts : List (List Operation)} :
      judgeStep strict a gaps before step rest = .ok here →
      Judged strict a gaps (step :: before) rest parts →
      Judged strict a gaps before (step :: rest) (here :: parts)

section

variable {strict a : Bool} {gaps : List Variable} {before script : List VariableEdit}
  {ops : List Operation} {parts : List (List Operation)}

/-- The operations of a script are those of its steps. -/
theorem judgeSteps_eq_ok_iff :
    judgeSteps strict a gaps before script = .ok ops ↔
      ∃ parts, Judged strict a gaps before script parts ∧ parts.flatten = ops := by
  induction script generalizing before ops with
  | nil =>
    constructor
    · intro h
      cases h
      exact ⟨[], .nil before, rfl⟩
    · rintro ⟨parts, ⟨⟩, rfl⟩
      rfl
  | cons step rest ih =>
    rw [judgeSteps, bind_eq_ok_iff]
    constructor
    · rintro ⟨here, hhere, h⟩
      obtain ⟨later, hlater, h'⟩ := bind_eq_ok_iff.mp h
      cases h'
      obtain ⟨parts, hparts, rfl⟩ := ih.mp hlater
      exact ⟨here :: parts, .cons hhere hparts, rfl⟩
    · rintro ⟨_, hjudged, rfl⟩
      cases hjudged with
      | cons hhere hparts =>
        exact ⟨_, hhere, bind_eq_ok_iff.mpr ⟨_, ih.mpr ⟨_, hparts, rfl⟩, rfl⟩⟩

/-- Every operation of a script is one of a step. -/
theorem exists_step_of_mem (h : judgeSteps strict a gaps before script = .ok ops) {op : Operation}
    (hop : op ∈ ops) : ∃ step ∈ script, ∃ front rest here,
      judgeStep strict a gaps front step rest = .ok here ∧ op ∈ here := by
  obtain ⟨parts, hjudged, rfl⟩ := judgeSteps_eq_ok_iff.mp h
  clear h
  induction hjudged with
  | nil => cases hop
  | cons hhere _ ih =>
    rcases List.mem_append.mp hop with hop | hop
    · exact ⟨_, List.mem_cons_self, _, _, _, hhere, hop⟩
    · obtain ⟨step, hstep, hjudged⟩ := ih hop
      exact ⟨step, List.mem_cons_of_mem _ hstep, hjudged⟩

theorem Judged.split {front rest : List VariableEdit} {step : VariableEdit}
    (h : Judged strict a gaps before (front ++ step :: rest) parts) :
    ∃ here ∈ parts, judgeStep strict a gaps (front.reverse ++ before) step rest = .ok here := by
  induction front generalizing before parts with
  | nil =>
    cases h with
    | cons hhere _ => exact ⟨_, List.mem_cons_self, hhere⟩
  | cons e front ih =>
    cases h with
    | cons _ hparts =>
      obtain ⟨here, hmem, hhere⟩ := ih hparts
      refine ⟨here, List.mem_cons_of_mem _ hmem, ?_⟩
      rw [List.reverse_cons, List.append_assoc]
      exact hhere

theorem errorChanges_eq_nil_iff : errorChanges ops = [] ↔ ∀ op ∈ ops, op.note = true := by
  simp [errorChanges]

/-! ## Steps without errors -/

/-- Variables that take the room of a gap: none starts before it or ends behind it, and one ends
where it ended. -/
structure Fills (gap : Variable) (added : List Variable) : Prop where
  starts : ∃ first, gap.position? = some first ∧
    ∀ v ∈ added, ∃ start, v.position? = some start ∧ first ≤ start
  ends : ∃ last, gap.end? = some last ∧
    (∀ v ∈ added, ∃ stop, v.end? = some stop ∧ stop ≤ last) ∧ ∃ v ∈ added, v.end? = some last

theorem fills_of_judgeRemovedGap {gap : Variable} {added : List Variable}
    (h : (judgeRemovedGap gap added).note = true) : Fills gap added := by
  unfold judgeRemovedGap at h
  dsimp only at h
  split at h
  · rename_i first last s starts e ends hfirst hlast hstarts hends
    obtain ⟨hmin, hmax⟩ := Bool.and_eq_true_iff.mp h
    have hstarts' := mapM_eq_some_iff.mp hstarts
    have hends' := mapM_eq_some_iff.mp hends
    have hle := (List.le_min?_iff List.min?_cons').mp (of_decide_eq_true hmin)
    have hge := List.max?_eq_some_iff.mp
      (show (e :: ends).max? = some (ends.foldl max e) from List.max?_cons')
    rw [beq_iff_eq.mp hmax] at hge
    constructor
    · refine ⟨first, hfirst, fun v hv => ?_⟩
      obtain ⟨k, hk⟩ := List.mem_iff_getElem?.mp hv
      obtain ⟨start, hstart, hv'⟩ := getElem?_of_forall₂ hstarts' hk
      exact ⟨start, hv', hle start (List.mem_of_getElem? hstart)⟩
    · refine ⟨last, hlast, fun v hv => ?_, ?_⟩
      · obtain ⟨k, hk⟩ := List.mem_iff_getElem?.mp hv
        obtain ⟨stop, hstop, hv'⟩ := getElem?_of_forall₂ hends' hk
        exact ⟨stop, hv', hge.2 stop (List.mem_of_getElem? hstop)⟩
      · obtain ⟨k, hk⟩ := List.mem_iff_getElem?.mp hge.1
        obtain ⟨v, hv, hv'⟩ := getElem?_of_forall₂ hends'.flip hk
        exact ⟨v, List.mem_of_getElem? hv, hv'⟩
  · cases h

/-- The room of a gap ends right: the two gaps end at the same byte. -/
def EndsAlike (o u : Variable) : Prop := ∃ stop, o.end? = some stop ∧ u.end? = some stop

/-- The operation of a resized gap is no error only when the gap ends right. -/
theorem judgeResizedGap_eq_ok {o u : Variable} {op : Operation}
    (h : judgeResizedGap o u = .ok op) :
    ∃ n note, op = ⟨.resizeGap o u n, note, none⟩ ∧ (note = true → EndsAlike o u) := by
  unfold judgeResizedGap at h
  split at h
  · rename_i oEnd uEnd _ ho hu _
    split at h
    · rename_i heq
      cases h
      exact ⟨_, _, rfl, fun _ => ⟨oEnd, ho, heq ▸ hu⟩⟩
    · split at h
      · extract_lets element fitting at h
        split at h
        · cases h
        · split at h
          · cases h
            exact ⟨_, _, rfl, Bool.noConfusion⟩
          · cases h
      · cases h
        exact ⟨_, _, rfl, Bool.noConfusion⟩
  · cases h
    exact ⟨_, _, rfl, Bool.noConfusion⟩

/-- With strict renames only a resized gap that ends right is no error. -/
theorem judgePair_note {c : Change} {op : Operation} (h : judgePair true c = .ok op)
    (hnote : op.note = true) : ∃ o u n, c = .resizeGap o u n ∧ EndsAlike o u := by
  unfold judgePair at h
  split at h
  · obtain ⟨n, note, rfl, hends⟩ := judgeResizedGap_eq_ok h
    exact ⟨_, _, _, rfl, hends hnote⟩
  · cases h
    cases hnote
  · cases h
    cases hnote

/-- A step that does no harm, between the steps before it, last first, and those behind it. -/
inductive Passes (a : Bool) (gaps : List Variable) (before rest : List VariableEdit) :
    VariableEdit → Prop where
  | equal (o u : Variable) : Passes a gaps before rest (.equal o u)
  | resizeGap {v w o u : Variable} {n : Option Int} : EndsAlike o u →
      Passes a gaps before rest (.substitute v w (.resizeGap o u n))
  | append (u : Variable) : a = true → Passes a gaps before rest (.append u)
  | insert {u g : Variable} : g ∈ gaps → u.startsIn g = true → Passes a gaps before rest (.insert u)
  | delete {g : Variable} : g.isGap = true →
      Fills g ((leadingAdded before).reverse ++ leadingAdded rest) →
      Passes a gaps before rest (.delete g)

/-- With strict renames a step without errors does no harm. -/
theorem passes_of_judgeStep {rest : List VariableEdit} {step : VariableEdit}
    {here : List Operation} (h : judgeStep true a gaps before step rest = .ok here)
    (hclean : ∀ op ∈ here, op.note = true) : Passes a gaps before rest step := by
  cases step with
  | equal o u => exact .equal o u
  | substitute v w c =>
    cases hjudge : judgePair true c with
    | error e =>
      rw [judgeStep, hjudge] at h
      cases h
    | ok op =>
      rw [judgeStep, hjudge] at h
      cases h
      obtain ⟨o, u, n, rfl, hends⟩ := judgePair_note hjudge (hclean op List.mem_cons_self)
      exact .resizeGap hends
  | append u =>
    cases a with
    | true => exact .append u rfl
    | false =>
      cases h
      exact Bool.noConfusion (hclean _ List.mem_cons_self)
  | insert u =>
    rw [judgeStep] at h
    split at h
    · rename_i hinside
      obtain ⟨g, hg, hstarts⟩ := List.any_eq_true.mp hinside
      exact .insert hg hstarts
    · cases h
      exact Bool.noConfusion (hclean _ List.mem_cons_self)
  | delete g =>
    rw [judgeStep] at h
    split at h
    · rename_i hgap
      obtain ⟨_, -, h'⟩ := bind_eq_ok_iff.mp h
      cases h'
      exact .delete hgap (fills_of_judgeRemovedGap (hclean _ List.mem_cons_self))
    · cases h
      exact Bool.noConfusion (hclean _ List.mem_cons_self)

/-- With strict renames the steps of a script without errors do no harm. -/
theorem passes_of_clean (h : judgeSteps true a gaps before script = .ok ops)
    (hclean : ∀ op ∈ ops, op.note = true) {front rest : List VariableEdit} {step : VariableEdit}
    (hsplit : script = front ++ step :: rest) :
    Passes a gaps (front.reverse ++ before) rest step := by
  obtain ⟨parts, hjudged, rfl⟩ := judgeSteps_eq_ok_iff.mp h
  subst hsplit
  obtain ⟨here, hmem, hhere⟩ := hjudged.split
  exact passes_of_judgeStep hhere fun op hop => hclean op (List.mem_flatten_of_mem hmem hop)

/-! ## Namespaces -/

theorem namespaceId_of_judgePair {c : Change} {op : Operation} (h : judgePair strict c = .ok op) :
    op.namespaceId = none := by
  unfold judgePair at h
  split at h
  · obtain ⟨_, _, rfl, -⟩ := judgeResizedGap_eq_ok h
    rfl
  · cases h
    rfl
  · cases h
    rfl

theorem namespaceId_of_judgeStep {rest : List VariableEdit} {step : VariableEdit}
    (h : judgeStep strict a gaps before step rest = .ok ops) :
    ∀ op ∈ ops, op.namespaceId = none := by
  cases step with
  | equal o u =>
    cases h
    simp
  | substitute o u c =>
    cases hpair : judgePair strict c with
    | error e =>
      rw [judgeStep, hpair] at h
      cases h
    | ok op =>
      rw [judgeStep, hpair] at h
      cases h
      intro op' hop
      rw [List.mem_singleton.mp hop]
      exact namespaceId_of_judgePair hpair
  | append u =>
    cases h
    split <;> simp
  | insert u =>
    cases h
    split <;> simp
  | delete o =>
    rw [judgeStep] at h
    split at h
    · obtain ⟨_, -, h⟩ := bind_eq_ok_iff.mp h
      cases h
      simp [judgeRemovedGap]
    · cases h
      simp

/-- The operations of a script belong to no namespace yet. -/
theorem namespaceId_of_judgeSteps (h : judgeSteps strict a gaps before script = .ok ops) :
    ∀ op ∈ ops, op.namespaceId = none := by
  intro op hop
  obtain ⟨_, -, _, _, _, hhere, hop⟩ := exists_step_of_mem h hop
  exact namespaceId_of_judgeStep hhere op hop

end

/-! ## Variables added side by side -/

section Blocks

variable {n : Nat} {former updated : List Variable} {rows : List (List (Option Change))}

/-- Whether a script adds the updated variable of an index. -/
def Adds (steps : List Step) (b : Nat) : Prop := .insert b ∈ steps ∨ .append b ∈ steps

/-- Every step of a script is judged, and its operations are among those of the script. -/
theorem exists_judgeStep {strict a : Bool} {gaps : List Variable}
    {before script : List VariableEdit} {steps : List Step} {ops : List Operation}
    (hfilled : List.Forall₂ (Filled former updated rows) steps script)
    (hjudge : judgeSteps strict a gaps before script = .ok ops) {s : Step} (hs : s ∈ steps) :
    ∃ e front rest here, Filled former updated rows s e ∧
      judgeStep strict a gaps front e rest = .ok here ∧ ∀ op ∈ here, op ∈ ops := by
  obtain ⟨front, back, rfl⟩ := List.append_of_mem hs
  obtain ⟨front', e, back', rfl, -, he, -⟩ := split_of_forall₂ hfilled.flip
  obtain ⟨parts, hjudged, rfl⟩ := judgeSteps_eq_ok_iff.mp hjudge
  obtain ⟨here, hhere, hstep⟩ := hjudged.split
  exact ⟨e, _, _, here, he, hstep, fun op hop => List.mem_flatten_of_mem hhere hop⟩

/-- A pair of variables that differ has its operation among all of them. -/
theorem exists_judgePair {strict a : Bool} {gaps : List Variable}
    {before script : List VariableEdit} {steps : List Step} {ops : List Operation}
    (hfilled : List.Forall₂ (Filled former updated rows) steps script)
    (hjudge : judgeSteps strict a gaps before script = .ok ops) {i j : Nat} {c : Change}
    (hs : .pair i j ∈ steps) (hc : difference rows i j = some c) :
    ∃ op ∈ ops, judgePair strict c = .ok op := by
  obtain ⟨e, _, _, here, hpair, hstep, hops⟩ := exists_judgeStep hfilled hjudge hs
  cases hpair with
  | equal _ _ hnone =>
    rw [hc] at hnone
    cases hnone
  | substitute _ _ hd =>
    rw [hc] at hd
    cases hd
    rw [judgeStep] at hstep
    cases hop : judgePair strict c with
    | error _ =>
      rw [hop] at hstep
      cases hstep
    | ok op =>
      rw [hop] at hstep
      cases hstep
      exact ⟨op, hops op List.mem_cons_self, rfl⟩

theorem forall₂_of_judged {strict a : Bool} {gaps : List Variable}
    {before script : List VariableEdit} {steps : List Step} {parts : List (List Operation)}
    {R : Step → List Operation → Prop}
    (hfilled : List.Forall₂ (Filled former updated rows) steps script)
    (hjudged : Judged strict a gaps before script parts)
    (h : ∀ s ∈ steps, ∀ e front rest part, Filled former updated rows s e →
      judgeStep strict a gaps front e rest = .ok part → R s part) :
    List.Forall₂ R steps parts := by
  induction hjudged generalizing steps with
  | nil =>
    cases hfilled
    exact .nil
  | cons hhere _ ih =>
    obtain ⟨s, steps, hs, hrest, rfl⟩ := List.forall₂_cons_right_iff.mp hfilled
    refine .cons (h s List.mem_cons_self _ _ _ _ hs hhere) (ih hrest fun t ht => ?_)
    exact h t (List.mem_cons_of_mem s ht)

/-- The variables are the updated ones from one index to another, all of them added. -/
structure IsBlock (updated : List Variable) (steps : List Step) (p q : Nat)
    (added : List Variable) : Prop where
  mem_iff : ∀ v, v ∈ added ↔ ∃ b, p ≤ b ∧ b < q ∧ updated[b]? = some v
  adds : ∀ b, p ≤ b → b < q → Adds steps b

theorem IsBlock.nil (updated : List Variable) (steps : List Step) (p : Nat) :
    IsBlock updated steps p p [] where
  mem_iff v := by
    constructor
    · intro h
      cases h
    · rintro ⟨b, hpb, hbp, -⟩
      omega
  adds b hpb hbp := by omega

theorem IsBlock.append {steps steps' : List Step} {p k q : Nat} {added added' : List Variable}
    (h : IsBlock updated steps p k added) (h' : IsBlock updated steps' k q added') (hpk : p ≤ k)
    (hkq : k ≤ q) : IsBlock updated (steps ++ steps') p q (added ++ added') where
  mem_iff v := by
    rw [List.mem_append, h.mem_iff, h'.mem_iff]
    constructor
    · rintro (⟨b, hpb, hbk, hb⟩ | ⟨b, hkb, hbq, hb⟩)
      · exact ⟨b, hpb, by omega, hb⟩
      · exact ⟨b, by omega, hbq, hb⟩
    · rintro ⟨b, hpb, hbq, hb⟩
      rcases Nat.lt_or_ge b k with hbk | hkb
      · exact Or.inl ⟨b, hpb, hbk, hb⟩
      · exact Or.inr ⟨b, hkb, hbq, hb⟩
  adds b hpb hbq := by
    rcases Nat.lt_or_ge b k with hbk | hkb
    · exact (h.adds b hpb hbk).imp (List.mem_append_left steps') (List.mem_append_left steps')
    · exact (h'.adds b hkb hbq).imp (List.mem_append_right steps) (List.mem_append_right steps)

theorem IsBlock.single {steps : List Step} {b : Nat} {u : Variable} (hu : updated[b]? = some u)
    (hadds : Adds steps b) : IsBlock updated steps b (b + 1) [u] where
  mem_iff v := by
    rw [List.mem_singleton]
    constructor
    · rintro rfl
      exact ⟨b, Nat.le_refl b, Nat.lt_succ_self b, hu⟩
    · rintro ⟨c, hbc, hcb, hc⟩
      obtain rfl : c = b := by omega
      exact Option.some.inj (hc.symm.trans hu)
  adds c hbc hcb := by
    obtain rfl : c = b := by omega
    exact hadds

theorem IsBlock.perm {steps : List Step} {p q : Nat} {added added' : List Variable}
    (h : IsBlock updated steps p q added) (hmem : ∀ v, v ∈ added' ↔ v ∈ added) :
    IsBlock updated steps p q added' :=
  ⟨fun v => (hmem v).trans (h.mem_iff v), h.adds⟩

/-- The variables added next in a script are neighbours. -/
theorem exists_block_ahead {i j i' j' : Nat} {steps : List Step} {script : List VariableEdit}
    (h : Leads n i j steps i' j')
    (hfilled : List.Forall₂ (Filled former updated rows) steps script) :
    ∃ q, j ≤ q ∧ q ≤ j' ∧ IsBlock updated steps j q (leadingAdded script) := by
  induction h generalizing script with
  | done i j =>
    cases hfilled
    exact ⟨j, Nat.le_refl j, Nat.le_refl j, .nil updated [] j⟩
  | @pair i j i' j' steps h ih =>
    obtain ⟨e, script', he, -, rfl⟩ := List.forall₂_cons_left_iff.mp hfilled
    have hj := h.le.2
    refine ⟨j, Nat.le_refl j, by omega, ?_⟩
    cases he <;> exact .nil updated _ j
  | @insert i j i' j' steps hjn h ih =>
    obtain ⟨e, script', he, hrest, rfl⟩ := List.forall₂_cons_left_iff.mp hfilled
    obtain ⟨q, hjq, hqj, hblock⟩ := ih hrest
    refine ⟨q, by omega, hqj, ?_⟩
    cases he with
    | insert hu =>
      exact (IsBlock.single hu (Or.inl (List.mem_singleton_self _))).append hblock (by omega) hjq
  | @append i j i' j' steps hjn h ih =>
    obtain ⟨e, script', he, hrest, rfl⟩ := List.forall₂_cons_left_iff.mp hfilled
    obtain ⟨q, hjq, hqj, hblock⟩ := ih hrest
    refine ⟨q, by omega, hqj, ?_⟩
    cases he with
    | append hu =>
      exact (IsBlock.single hu (Or.inr (List.mem_singleton_self _))).append hblock (by omega) hjq
  | @delete i j i' j' steps h ih =>
    obtain ⟨e, script', he, -, rfl⟩ := List.forall₂_cons_left_iff.mp hfilled
    refine ⟨j, Nat.le_refl j, h.le.2, ?_⟩
    cases he
    exact .nil updated _ j

/-- The variables added last in a script are neighbours. -/
theorem exists_block_behind {i j i' j' : Nat} {steps : List Step} {script : List VariableEdit}
    (h : Leads n i j steps i' j')
    (hfilled : List.Forall₂ (Filled former updated rows) steps script) :
    ∃ p, j ≤ p ∧ p ≤ j' ∧ IsBlock updated steps p j' (leadingAdded script.reverse) := by
  induction script using List.reverseRecOn generalizing steps i' j' with
  | nil =>
    cases hfilled
    exact ⟨j', h.le.2, Nat.le_refl j', .nil updated [] j'⟩
  | append_singleton script e ih =>
    obtain ⟨steps, s, back, rfl, hfront, hs, hback⟩ := split_of_forall₂ hfilled
    cases hback
    obtain ⟨k, l, hsteps, hlast⟩ := h.split
    obtain ⟨p, hjp, hpl, hblock⟩ := ih hsteps hfront
    have hl := hlast.le.2
    rw [List.reverse_append, List.reverse_singleton, List.singleton_append]
    have hmem (u v : Variable) : v ∈ u :: leadingAdded script.reverse ↔
        v ∈ leadingAdded script.reverse ++ [u] := by
      rw [List.mem_append, List.mem_singleton, List.mem_cons, or_comm]
    cases hs with
    | insert hu =>
      cases hlast with
      | insert _ hrest =>
        cases hrest
        exact ⟨p, hjp, by omega, (hblock.append (.single hu (Or.inl (List.mem_singleton_self _)))
          hpl (by omega)).perm (hmem _)⟩
    | append hu =>
      cases hlast with
      | append _ hrest =>
        cases hrest
        exact ⟨p, hjp, by omega, (hblock.append (.single hu (Or.inr (List.mem_singleton_self _)))
          hpl (by omega)).perm (hmem _)⟩
    | equal => exact ⟨j', by omega, Nat.le_refl j', .nil updated _ j'⟩
    | substitute => exact ⟨j', by omega, Nat.le_refl j', .nil updated _ j'⟩
    | delete => exact ⟨j', by omega, Nat.le_refl j', .nil updated _ j'⟩

theorem Leads.not_adds_of_pair {i j i' j' a b : Nat} {steps : List Step}
    (h : Leads n i j steps i' j') (hpair : .pair a b ∈ steps) : ¬ Adds steps b := by
  rintro (hadds | hadds)
  · cases h.eq_of_column hpair hadds rfl rfl
  · cases h.eq_of_column hpair hadds rfl rfl

/-- The variables added around a removed one are neighbours, and the pairs before and behind it
stand before and behind them. -/
theorem exists_block_around {i j i' j' d : Nat} {front back : List Step}
    {before rest : List VariableEdit} (h : Leads n i j (front ++ .delete d :: back) i' j')
    (hfront : List.Forall₂ (Filled former updated rows) front before)
    (hback : List.Forall₂ (Filled former updated rows) back rest) :
    ∃ p q, IsBlock updated (front ++ .delete d :: back) p q
        ((leadingAdded before.reverse).reverse ++ leadingAdded rest) ∧
      p ≤ q ∧ q ≤ j' ∧ (∀ a b, a < d → .pair a b ∈ front ++ .delete d :: back → b < p) ∧
      ∀ a b, d < a → .pair a b ∈ front ++ .delete d :: back → q ≤ b := by
  obtain ⟨k, l, hf, hdb⟩ := h.split
  cases hdb with
  | delete hb =>
    obtain ⟨p, hjp, hpl, hbehind⟩ := exists_block_behind hf hfront
    obtain ⟨q, hlq, hqj, hahead⟩ := exists_block_ahead hb hback
    have hbehind' := hbehind.perm fun v =>
      show v ∈ (leadingAdded before.reverse).reverse ↔ v ∈ leadingAdded before.reverse from
        List.mem_reverse
    have hahead' := (IsBlock.nil updated [.delete d] l).append hahead (Nat.le_refl l) hlq
    have hblock := hbehind'.append hahead' hpl hlq
    refine ⟨p, q, hblock, by omega, hqj, fun a b had hab => ?_, fun a b hda hab => ?_⟩
    · have hab' : .pair a b ∈ front := by
        rcases List.mem_append.mp hab with hab | hab
        · exact hab
        · rcases List.mem_cons.mp hab with hab | hab
          · cases hab
          · have := (hb.exists_row_iff.mp ⟨_, hab, rfl⟩).1
            omega
      have hbl := (hf.exists_column_iff.mp ⟨_, hab', rfl⟩).2
      by_contra hpb
      exact Leads.not_adds_of_pair hf hab' (hbehind.adds b (by omega) hbl)
    · have hab' : .pair a b ∈ back := by
        rcases List.mem_append.mp hab with hab | hab
        · have := (hf.exists_row_iff.mp ⟨_, hab, rfl⟩).2
          omega
        · rcases List.mem_cons.mp hab with hab | hab
          · cases hab
          · exact hab
      have hlb := (hb.exists_column_iff.mp ⟨_, hab', rfl⟩).1
      by_contra hqb
      exact Leads.not_adds_of_pair hb hab' (hahead.adds b hlb (by omega))

end Blocks

/-! ## Lists that start alike -/

/-- Where no step is judged by those around it, the operations are put together step by step. -/
theorem judgeSteps_eq_flatMap {strict a : Bool} {gaps : List Variable}
    {before script : List VariableEdit} (f : VariableEdit → List Operation)
    (h : ∀ e ∈ script, ∀ before rest, judgeStep strict a gaps before e rest = .ok (f e)) :
    judgeSteps strict a gaps before script = .ok (script.flatMap f) := by
  induction script generalizing before with
  | nil => rfl
  | cons e script ih =>
    have hrest : judgeSteps strict a gaps (e :: before) script = .ok (script.flatMap f) :=
      ih fun e' he' => h e' (List.mem_cons_of_mem e he')
    rw [judgeSteps, h e List.mem_cons_self, hrest]
    rfl

/-- A script that keeps and appends, where that is allowed, has no operations. -/
theorem judgeSteps_eq_nil {strict a : Bool} {gaps : List Variable}
    {before script : List VariableEdit}
    (h : ∀ e ∈ script, (∃ o u, e = .equal o u) ∨ a = true ∧ ∃ u, e = .append u) :
    judgeSteps strict a gaps before script = .ok [] := by
  rw [judgeSteps_eq_flatMap fun _ => []]
  · simp
  · intro e he before rest
    rcases h e he with ⟨o, u, rfl⟩ | ⟨rfl, u, rfl⟩ <;> rfl

/-- Lists that start alike have no operations, unless a variable behind the end of the former list
could take the place of the last former one for nothing. -/
theorem listChanges_eq_nil {strict a : Bool} {tc : CompareTypes (Except Obstacle)}
    {former updated : List Variable} {rows : List (List (Option Change))}
    (hgaps : demandGaps former updated = .ok ())
    (hrows : differences (checkedChange tc) former updated a = .ok rows)
    (hle : former.length ≤ updated.length) (ha : a = true ∨ updated.length = former.length)
    (hdiag : ∀ i < former.length, difference rows i i = none)
    (hlast : ∀ i j, former.length = i + 1 → former.length ≤ j → j < updated.length →
      pairPrice (difference rows i j) ≠ 0 ∨
        0 < Alignment.least (prices former updated rows) former.length i j) :
    listChanges strict tc former updated a = .ok [] := by
  obtain ⟨script, hscript, hkept⟩ := Alignment.edits?_of_diagonal
    (t := tariff former.toArray updated.toArray) (prices_nonneg former updated rows) hle hdiag rfl
    hlast
  obtain ⟨steps, hsteps, hfilled⟩ := Alignment.edits?_eq_some_iff.mp hscript
  refine listChanges_eq_ok_iff.mpr ⟨hgaps, rows, steps, script, hrows, hsteps, hfilled, ?_⟩
  refine judgeSteps_eq_nil fun e he => (hkept e he).imp_right fun ⟨hlt, happend⟩ => ?_
  exact ⟨ha.resolve_right (by omega), happend⟩

end UpgradeSafety.Compare
