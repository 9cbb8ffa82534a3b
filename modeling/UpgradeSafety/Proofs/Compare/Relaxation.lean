import UpgradeSafety.Proofs.Alignment.Lowered
import UpgradeSafety.Proofs.Compare.GapFree
import UpgradeSafety.Proofs.Compare.Independence
import UpgradeSafety.Proofs.Compare.Total

/-!
# Relaxed options

Two options make a comparison overlook what is an error otherwise: new names, and structs and enums
of which nothing is known. What fits under the strict options fits under the relaxed ones as well,
but a pair of variables that did not fit may become free, and then the lists may be aligned
otherwise.

* `layouts_relaxed`: an upgrade that strict options accept is accepted by relaxed ones, unless some
  of the lists that are compared on the way is aligned otherwise (`Misaligned`): the strict
  comparison has no errors there, the relaxed one has, and it pairs variables of the same name
  whose types fit for it alone. With strict renames the former list then has a gap.
* `relaxed_refuses_appended`: the exception is real. A gap that is kept is taken for an appended
  one.

As long as no pair becomes cheaper that the relaxed script takes, both scripts are the same
(`Alignment.script?_lowered`), and a script without errors has none under relaxed options.
-/

namespace UpgradeSafety.Compare

open UpgradeSafety.Alignment (Step Leads Filled difference edit?_eq_some_iff)

/-- The second options overlook all that the first ones do. -/
structure Leniency.Relaxes (strict relaxed : Leniency) : Prop where
  customTypes : strict.customTypes = true → relaxed.customTypes = true
  strictRenames : relaxed.strictRenames = true → strict.strictRenames = true

/-! ## Pairs -/

/-- Types that fit for the first comparison fit for the second one. -/
def FitsStill (found found' : Except Obstacle (Option TypeChange)) : Prop :=
  found = .ok none → ∀ r, found' = .ok r → r = none

/-- Two variables keep the name, and their types fit only for the second comparison. -/
structure FitsNow (found found' : Except Obstacle (Option TypeChange)) (siblings : List Variable)
    (i : Nat) (o u : Variable) : Prop where
  gaps : areGaps o u = false
  names : namesDiffer o.item u.item = false
  declares : declaresType o u = false
  widens : widens siblings i o u = false
  before : ∃ t, found = .ok (some t)
  now : found' = .ok none

section Pair

variable {found found' : Except Obstacle (Option TypeChange)} {siblings : List Variable} {i : Nat}
  {o u : Variable} {d d' : Option Change}

theorem pairPrice_le (d : Option Change) : pairPrice d ≤ 3 := by
  unfold pairPrice
  split <;> decide

/-- A pair differs as before, or it was an error; then its price fell only when the types fit now. -/
theorem variableChange_relaxed (hfits : FitsStill found found')
    (h : variableChange found siblings i o u = .ok d)
    (h' : variableChange found' siblings i o u = .ok d') :
    d' = d ∨ (∃ t, d = some (.replace o u t) ∨ d = some (.retype o u t)) ∧
      (pairPrice d' = pairPrice d ∨ FitsNow found found' siblings i o u) := by
  cases hgaps : areGaps o u with
  | true =>
    left
    unfold variableChange at h h'
    rw [← areGaps, hgaps, if_pos rfl] at h h'
    exact Except.ok.inj (h'.symm.trans h)
  | false =>
    obtain ⟨type, rfl, htype⟩ := variableChange_eq_gravestChange hgaps h
    obtain ⟨type', rfl, htype'⟩ := variableChange_eq_gravestChange hgaps h'
    rcases htype with ⟨hdeclares, rfl⟩ | ⟨hdeclares, hfound⟩
    · rcases htype' with ⟨-, rfl⟩ | ⟨hnot, -⟩
      · exact Or.inl rfl
      · rw [hdeclares] at hnot
        cases hnot
    · have hfound' : found' = .ok type' := by
        rcases htype' with ⟨hnot, -⟩ | ⟨-, hfound'⟩
        · rw [hdeclares] at hnot
          cases hnot
        · exact hfound'
      cases type with
      | none =>
        cases hfits hfound type' hfound'
        exact Or.inl rfl
      | some t =>
        cases hwidens : widens siblings i o u with
        | true =>
          left
          cases type' <;> simp [gravestChange, hwidens]
        | false =>
          right
          cases hnames : namesDiffer o.item u.item with
          | true =>
            refine ⟨⟨t, Or.inl (by simp [gravestChange, hwidens, hnames])⟩, Or.inl ?_⟩
            cases type' <;> simp [gravestChange, hwidens, hnames, pairPrice]
          | false =>
            refine ⟨⟨t, Or.inr (by simp [gravestChange, hwidens, hnames])⟩, ?_⟩
            cases type' with
            | none => exact Or.inr ⟨hgaps, hnames, hdeclares, hwidens, ⟨t, hfound⟩, hfound'⟩
            | some t' => exact Or.inl (by simp [gravestChange, hwidens, hnames, pairPrice])

end Pair

/-! ## Judging -/

section Judging

variable {strict relaxed a : Bool} (hrelax : relaxed = true → strict = true)
include hrelax

theorem judgePair_relaxed {c : Change} {op op' : Operation} (h : judgePair strict c = .ok op)
    (h' : judgePair relaxed c = .ok op') (hnote : op.note = true) : op'.note = true := by
  unfold judgePair at h h'
  split at h
  · cases h.symm.trans h'
    exact hnote
  · cases h
    cases h'
    cases relaxed with
    | false => rfl
    | true => rw [hrelax rfl] at hnote; cases hnote
  · cases h
    cases hnote

theorem judgeStep_relaxed {gaps : List Variable} {before rest : List VariableEdit}
    {step : VariableEdit} {here here' : List Operation}
    (h : judgeStep strict a gaps before step rest = .ok here)
    (h' : judgeStep relaxed a gaps before step rest = .ok here')
    (hclean : ∀ op ∈ here, op.note = true) : ∀ op ∈ here', op.note = true := by
  cases step with
  | substitute x y c =>
    obtain ⟨op, hop, rfl⟩ := map_eq_ok_iff.mp h
    obtain ⟨op', hop', rfl⟩ := map_eq_ok_iff.mp h'
    have hnote := judgePair_relaxed hrelax hop hop' (hclean op List.mem_cons_self)
    exact fun q hq => by rwa [List.mem_singleton.mp hq]
  | equal | append | insert | delete =>
    rw [judgeStep] at h h'
    cases h.symm.trans h'
    exact hclean

/-- Relaxed judging of a script without errors finds none. -/
theorem judgeSteps_relaxed {gaps : List Variable} {before script : List VariableEdit}
    {ops ops' : List Operation} (h : judgeSteps strict a gaps before script = .ok ops)
    (h' : judgeSteps relaxed a gaps before script = .ok ops')
    (hclean : ∀ op ∈ ops, op.note = true) : ∀ op ∈ ops', op.note = true := by
  induction script generalizing before ops ops' with
  | nil =>
    cases h'
    exact fun op hop => by cases hop
  | cons step rest ih =>
    rw [judgeSteps, bind_eq_ok_iff] at h h'
    obtain ⟨here, hhere, h⟩ := h
    obtain ⟨later, hlater, h⟩ := bind_eq_ok_iff.mp h
    cases h
    obtain ⟨here', hhere', h'⟩ := h'
    obtain ⟨later', hlater', h'⟩ := bind_eq_ok_iff.mp h'
    cases h'
    rw [List.forall_mem_append] at hclean ⊢
    exact ⟨judgeStep_relaxed hrelax hhere hhere' hclean.1, ih hlater hlater' hclean.2⟩

end Judging

/-! ## Lists -/

/-- The relaxed comparison refuses two lists that the strict one accepts, since it aligns them
otherwise: it pairs variables of the same name whose types fit for it alone. With strict renames the
former list has a gap. -/
structure Misaligned (strict relaxed : Bool) (tc tc' : CompareTypes (Except Obstacle))
    (former updated : List Variable) (a : Bool) : Prop where
  accepted : ∃ ops, listChanges strict tc former updated a = .ok ops ∧ ∀ op ∈ ops, op.note = true
  refused : ∃ ops, listChanges relaxed tc' former updated a = .ok ops ∧ ∃ op ∈ ops, op.note = false
  realigned : ∃ steps steps' i j o u, alignment tc former updated a = .ok steps ∧
    alignment tc' former updated a = .ok steps' ∧ .pair i j ∉ steps ∧ .pair i j ∈ steps' ∧
    former[i]? = some o ∧ updated[j]? = some u ∧
    FitsNow (checkedChange tc o.type u.type (a && i + 1 == former.length))
      (checkedChange tc' o.type u.type (a && i + 1 == former.length)) former i o u
  gap : strict = true → ∃ g ∈ former, g.isGap = true

section Lists

variable {strict relaxed a : Bool} {tc tc' : CompareTypes (Except Obstacle)}
  {former updated : List Variable} {rows rows' : List (List (Option Change))}
  {ops ops' : List Operation}

theorem FitsStill.checked {o u : TypeNode} {b : Bool} (h : FitsStill (tc o u b) (tc' o u b)) :
    FitsStill (checkedChange tc o u b) (checkedChange tc' o u b) :=
  fun hnone r hr => h (checkedChange_eq_ok hnone) r (checkedChange_eq_ok hr)

/-- The pairs of an error-free script have no other type. -/
theorem difference_ne_of_clean {steps : List Step} {script : List VariableEdit}
    (hfilled : List.Forall₂ (Filled former updated rows) steps script)
    (hjudge : judge strict a former script = .ok ops) (hclean : ∀ op ∈ ops, op.note = true)
    {i j : Nat} (hs : .pair i j ∈ steps) {o u : Variable} {t : TypeChange} :
    ¬ (difference rows i j = some (.replace o u t) ∨ difference rows i j = some (.retype o u t)) := by
  rintro (hd | hd)
  all_goals
    obtain ⟨op, hop, hpair⟩ := exists_judgePair hfilled hjudge hs hd
    have hnote := hclean op hop
    cases hpair
    cases hnote

variable (hfits : ∀ o ∈ former, ∀ u ∈ updated, ∀ b,
    FitsStill (tc o.type u.type b) (tc' o.type u.type b))
  (hrows : differences (checkedChange tc) former updated a = .ok rows)
  (hrows' : differences (checkedChange tc') former updated a = .ok rows')
include hfits hrows hrows'

theorem difference_relaxed {i j : Nat} {o u : Variable} (ho : former[i]? = some o)
    (hu : updated[j]? = some u) :
    difference rows' i j = difference rows i j ∨
      (∃ t, difference rows i j = some (.replace o u t) ∨
        difference rows i j = some (.retype o u t)) ∧
      (pairPrice (difference rows' i j) = pairPrice (difference rows i j) ∨
        FitsNow (checkedChange tc o.type u.type (a && i + 1 == former.length))
          (checkedChange tc' o.type u.type (a && i + 1 == former.length)) former i o u) :=
  variableChange_relaxed (hfits o (List.mem_of_getElem? ho) u (List.mem_of_getElem? hu) _).checked
    (variableChange_eq_difference hrows ho hu) (variableChange_eq_difference hrows' ho hu)

theorem prices_lowers : (prices former updated rows).Lowers former.length updated.length
    (prices former updated rows') where
  pair i hi j hj := by
    have hle := pairPrice_le (difference rows' i j)
    rw [prices_pair, prices_pair]
    rcases difference_relaxed hfits hrows hrows' (List.getElem?_eq_getElem hi)
      (List.getElem?_eq_getElem hj) with hsame | ⟨⟨t, hd | hd⟩, -⟩
    · rw [hsame]
    · rw [hd]
      exact hle
    · rw [hd]
      exact hle
  insert := rfl
  delete := rfl

/-- An error-free script is filled as before. -/
theorem filled_relaxed {steps : List Step} {script : List VariableEdit}
    (hfilled : List.Forall₂ (Filled former updated rows) steps script)
    (hjudge : judge strict a former script = .ok ops) (hclean : ∀ op ∈ ops, op.note = true) :
    List.Forall₂ (Filled former updated rows') steps script := by
  have hkeep {i j : Nat} {o u : Variable} (hs : .pair i j ∈ steps) (ho : former[i]? = some o)
      (hu : updated[j]? = some u) : difference rows' i j = difference rows i j := by
    rcases difference_relaxed hfits hrows hrows' ho hu with hsame | ⟨⟨t, hd⟩, -⟩
    · exact hsame
    · exact absurd hd (difference_ne_of_clean hfilled hjudge hclean hs)
  refine ((List.forall₂_and_left _ _).mpr ⟨fun s hs => hs, hfilled⟩).imp fun s e h => ?_
  obtain ⟨hs, hse⟩ := h
  cases hse with
  | equal ho hu hd => exact .equal ho hu ((hkeep hs ho hu).trans hd)
  | substitute ho hu hd => exact .substitute ho hu ((hkeep hs ho hu).trans hd)
  | insert hu => exact .insert hu
  | append hu => exact .append hu
  | delete ho => exact .delete ho

omit hrows hrows' in
/-- Where the relaxed comparison refuses what the strict one accepts, it aligns the lists
otherwise. -/
theorem misaligned_of_refused (hrelax : relaxed = true → strict = true)
    (h : listChanges strict tc former updated a = .ok ops) (hclean : ∀ op ∈ ops, op.note = true)
    (h' : listChanges relaxed tc' former updated a = .ok ops')
    (hdirty : ∃ op ∈ ops', op.note = false) :
    Misaligned strict relaxed tc tc' former updated a := by
  obtain ⟨-, rows, steps, script, hrows, hsteps, hfilled, hjudge⟩ := listChanges_eq_ok_iff.mp h
  obtain ⟨hgaps, rows', steps', script', hrows', hsteps', hfilled', hjudge'⟩ :=
    listChanges_eq_ok_iff.mp h'
  obtain ⟨op, hop, hnote⟩ := hdirty
  refine ⟨⟨ops, h, hclean⟩, ⟨ops', h', op, hop, hnote⟩, ?_, ?_⟩
  · by_cases hsame : ∀ k l, .pair k l ∈ steps' →
        (prices former updated rows').pair (k + 1) (l + 1) =
          (prices former updated rows).pair (k + 1) (l + 1)
    · -- then both follow one script, and it has no errors
      have hscript := Alignment.script?_lowered (prices_lowers hfits hrows hrows') hsteps' hsame
      rw [hsteps] at hscript
      cases hscript
      have hkept := filled_relaxed hfits hrows hrows' hfilled hjudge hclean
      have heq : some script' = some script :=
        (mapM_eq_some_iff.mpr (hfilled'.imp fun _ _ => edit?_eq_some_iff.mpr)).symm.trans
          (mapM_eq_some_iff.mpr (hkept.imp fun _ _ => edit?_eq_some_iff.mpr))
      cases heq
      rw [judgeSteps_relaxed hrelax hjudge hjudge' hclean op hop] at hnote
      cases hnote
    · simp only [not_forall] at hsame
      obtain ⟨k, l, hmem, hprice⟩ := hsame
      obtain ⟨_, hsteps'', hleads⟩ :=
        Alignment.script?_leads (prices former updated rows') former.length updated.length
      rw [hsteps'] at hsteps''
      cases hsteps''
      have ho := List.getElem?_eq_getElem (hleads.exists_row_iff.mp ⟨_, hmem, rfl⟩).2
      have hu := List.getElem?_eq_getElem (hleads.exists_column_iff.mp ⟨_, hmem, rfl⟩).2
      rw [prices_pair, prices_pair] at hprice
      rcases difference_relaxed hfits hrows hrows' ho hu with hd | ⟨⟨t, hd⟩, hd' | hnow⟩
      · exact absurd (congrArg pairPrice hd) hprice
      · exact absurd hd' hprice
      · exact ⟨steps, steps', k, l, _, _, alignment_eq_ok hrows hsteps,
          alignment_eq_ok hrows' hsteps',
          fun hs => difference_ne_of_clean hfilled hjudge hclean hs hd, hmem, ho, hu, hnow⟩
  · rintro rfl
    by_contra hnone
    have hgapFree : ∀ v ∈ former, v.isGap = false := fun v hv =>
      Bool.eq_false_iff.mpr fun hgap => hnone ⟨v, hv, hgap⟩
    obtain ⟨hle, ha, hequal⟩ := variableChange_of_clean hgapFree h hclean
    have hnil : listChanges relaxed tc' former updated a = .ok [] := by
      refine listChanges_eq_nil_of_gapFree hgapFree relaxed hgaps hrows' hle ha
        fun i o u ho hu => ?_
      have hd := variableChange_eq_difference hrows ho hu
      rw [hequal i o u ho hu] at hd
      rcases difference_relaxed hfits hrows hrows' ho hu with hsame | ⟨⟨t, hd' | hd'⟩, -⟩
      · rw [variableChange_eq_difference hrows' ho hu, hsame, ← Except.ok.inj hd]
      · cases (Except.ok.inj hd).trans hd'
      · cases (Except.ok.inj hd).trans hd'
    rw [h'] at hnil
    cases hnil
    cases hop

end Lists

/-! ## Types -/

theorem FitsStill.refl (found : Except Obstacle (Option TypeChange)) : FitsStill found found := by
  intro hnone r hr
  rw [hnone] at hr
  exact (Except.ok.inj hr).symm

theorem FitsStill.bind {α : Type} (x : Except Obstacle α)
    {f g : α → Except Obstacle (Option TypeChange)} (h : ∀ a, FitsStill (f a) (g a)) :
    FitsStill (x >>= f) (x >>= g) := by
  intro hnone r hr
  obtain ⟨a, ha, hnone⟩ := bind_eq_ok_iff.mp hnone
  obtain ⟨a', ha', hr⟩ := bind_eq_ok_iff.mp hr
  rw [ha] at ha'
  cases ha'
  exact h a hnone r hr

/-- Types fit still when the types inside them do. -/
theorem FitsStill.map {found found' : Except Obstacle (Option TypeChange)}
    (h : FitsStill found found') (f : TypeChange → TypeChange) :
    FitsStill (do return (← found).map f) (do return (← found').map f) := by
  intro hnone r hr
  obtain ⟨type, htype, hnone⟩ := bind_eq_ok_iff.mp hnone
  obtain ⟨type', htype', hr⟩ := bind_eq_ok_iff.mp hr
  cases type with
  | none =>
    cases h htype type' htype'
    exact (Except.ok.inj hr).symm
  | some t => cases hnone

section Types

variable {strict relaxed : Leniency} {og ug : TypeGraph}
  {inner inner' : CompareTypes (Except Obstacle)} {o u : TypeNode}

theorem unknownMembers_relaxed (hrelax : strict.Relaxes relaxed) :
    FitsStill (unknownMembers strict (pure ()) o u) (unknownMembers relaxed (pure ()) o u) := by
  intro hnone r hr
  unfold unknownMembers at hnone hr
  split at hnone
  · rename_i hcustom
    rw [if_pos (hrelax.customTypes hcustom)] at hr
    exact (Except.ok.inj hr).symm
  · cases hnone

theorem enumChange_relaxed (hrelax : strict.Relaxes relaxed) :
    FitsStill (enumChange strict (pure ()) o u) (enumChange relaxed (pure ()) o u) := by
  unfold enumChange
  split
  · exact FitsStill.refl _
  · exact unknownMembers_relaxed hrelax

theorem structChange_relaxed (hrelax : strict.Relaxes relaxed) {a : Bool}
    (hmembers : ∀ ops ops', listChanges strict.strictRenames inner
        (o.memberItems.map og.variable) (u.memberItems.map ug.variable) a = .ok ops →
      (∀ op ∈ ops, op.note = true) → listChanges relaxed.strictRenames inner'
        (o.memberItems.map og.variable) (u.memberItems.map ug.variable) a = .ok ops' →
      ∀ op ∈ ops', op.note = true) :
    FitsStill (structChange strict (pure ()) og ug inner o u a)
      (structChange relaxed (pure ()) og ug inner' o u a) := by
  unfold structChange
  split
  · rename_i om um hom hum
    split
    · rename_i os us hos hus
      intro hnone r hr
      obtain ⟨ops, hops, hnone⟩ := bind_eq_ok_iff.mp hnone
      obtain ⟨ops', hops', hr⟩ := bind_eq_ok_iff.mp hr
      rw [memberItems_eq hom hos, memberItems_eq hum hus] at hmembers
      split at hnone
      · rename_i hnil
        have hclean := hmembers ops ops' hops (errorChanges_eq_nil_iff.mp hnil) hops'
        rw [errorChanges_eq_nil_iff.mpr hclean] at hr
        exact (Except.ok.inj hr).symm
      · cases hnone
    · exact FitsStill.refl _
  · exact unknownMembers_relaxed hrelax

variable (hinner : ∀ i ∈ o.inside, ∀ j ∈ u.inside, ∀ b,
  FitsStill (inner (og.node i) (ug.node j) b) (inner' (og.node i) (ug.node j) b))
include hinner

theorem mappingChange_relaxed {oArgs uArgs : List String} (hok : o.kind = .mapping)
    (huk : u.kind = .mapping) (hoArgs : o.args = some oArgs) (huArgs : u.args = some uArgs) :
    FitsStill (mappingChange og ug inner o u oArgs uArgs)
      (mappingChange og ug inner' o u oArgs uArgs) := by
  unfold mappingChange
  split
  · rename_i i j hi hj
    exact (hinner i (mem_inside_of_mapping hok hoArgs hi) j
      (mem_inside_of_mapping huk huArgs hj) true).map _
  · exact FitsStill.refl _

theorem arrayChange_relaxed {oArgs uArgs : List String} (hok : o.kind = .array)
    (huk : u.kind = .array) (hoArgs : o.args = some oArgs) (huArgs : u.args = some uArgs)
    (a : Bool) : FitsStill (arrayChange og ug inner o u oArgs uArgs a)
      (arrayChange og ug inner' o u oArgs uArgs a) := by
  have helement : FitsStill (elementChange og ug inner o u oArgs uArgs)
      (elementChange og ug inner' o u oArgs uArgs) := by
    unfold elementChange
    split
    · exact (hinner _ (mem_inside_of_array hok hoArgs) _ (mem_inside_of_array huk huArgs)
        false).map _
    · exact FitsStill.refl _
  unfold arrayChange
  refine .bind _ fun _ => .bind _ fun _ => ?_
  split
  · exact FitsStill.refl _
  · exact FitsStill.refl _
  · exact helement
  · split
    · exact FitsStill.refl _
    · split
      · exact FitsStill.refl _
      · exact helement
  · exact FitsStill.refl _

theorem typeChangeWith_relaxed (hrelax : strict.Relaxes relaxed) {a : Bool}
    (hmembers : o.kind = .struct → u.kind = .struct → ∀ ops ops',
      listChanges strict.strictRenames inner (o.memberItems.map og.variable)
        (u.memberItems.map ug.variable) a = .ok ops →
      (∀ op ∈ ops, op.note = true) → listChanges relaxed.strictRenames inner'
        (o.memberItems.map og.variable) (u.memberItems.map ug.variable) a = .ok ops' →
      ∀ op ∈ ops', op.note = true) :
    FitsStill (typeChangeWith strict (pure ()) og ug inner o u a)
      (typeChangeWith relaxed (pure ()) og ug inner' o u a) := by
  unfold typeChangeWith
  split
  · exact FitsStill.refl _
  · rename_i hhead
    have hkind : u.kind = o.kind := by
      rw [TypeNode.kind, TypeNode.kind, Decidable.not_not.mp hhead]
    split
    · rename_i oArgs uArgs hoArgs huArgs
      split
      · exact FitsStill.refl _
      · exact FitsStill.refl _
      · rename_i hk
        exact structChange_relaxed hrelax (hmembers hk (hkind.trans hk))
      · exact enumChange_relaxed hrelax
      · rename_i hk
        exact mappingChange_relaxed hinner hk (hkind.trans hk) hoArgs huArgs
      · rename_i hk
        exact arrayChange_relaxed hinner hk (hkind.trans hk) hoArgs huArgs a
      · exact FitsStill.refl _
    · exact FitsStill.refl _
    · exact FitsStill.refl _
    · exact FitsStill.refl _

end Types

/-! ## Comparisons that find more -/

section Found

variable {a : Bool} {former updated : List Variable} {tc tc₁ : CompareTypes (Except Obstacle)}

theorem alignment_of_found (h : ∀ o ∈ former, ∀ u ∈ updated, ∀ b r,
      tc o.type u.type b = .ok r → tc₁ o.type u.type b = .ok r) {steps : List Step}
    (hsteps : alignment tc former updated a = .ok steps) :
    alignment tc₁ former updated a = .ok steps := by
  obtain ⟨rows, hrows, hsteps⟩ := bind_eq_ok_iff.mp hsteps
  refine bind_eq_ok_iff.mpr ⟨rows, ?_, hsteps⟩
  exact Transfer.found.differences (fun o ho u hu b => Transfer.found.checkedChange (h o ho u hu b))
    rows hrows

theorem Misaligned.mono {strict relaxed : Bool} {tc' tc₁' : CompareTypes (Except Obstacle)}
    (h : Misaligned strict relaxed tc tc' former updated a)
    (htc : ∀ o ∈ former, ∀ u ∈ updated, ∀ b r,
      tc o.type u.type b = .ok r → tc₁ o.type u.type b = .ok r)
    (htc' : ∀ o ∈ former, ∀ u ∈ updated, ∀ b r,
      tc' o.type u.type b = .ok r → tc₁' o.type u.type b = .ok r) :
    Misaligned strict relaxed tc₁ tc₁' former updated a where
  accepted := by
    obtain ⟨ops, hops, hclean⟩ := h.accepted
    exact ⟨ops, Transfer.found.listChanges strict a htc ops hops, hclean⟩
  refused := by
    obtain ⟨ops, hops, hdirty⟩ := h.refused
    exact ⟨ops, Transfer.found.listChanges relaxed a htc' ops hops, hdirty⟩
  realigned := by
    obtain ⟨steps, steps', i, j, o, u, hsteps, hsteps', hnot, hmem, ho, hu, hnow⟩ := h.realigned
    have hom := List.mem_of_getElem? ho
    have hum := List.mem_of_getElem? hu
    obtain ⟨t, ht⟩ := hnow.before
    exact ⟨steps, steps', i, j, o, u, alignment_of_found htc hsteps, alignment_of_found htc' hsteps',
      hnot, hmem, ho, hu, { hnow with
        before := ⟨t, Transfer.found.checkedChange (htc o hom u hum _) _ ht⟩
        now := Transfer.found.checkedChange (htc' o hom u hum _) _ hnow.now }⟩
  gap := h.gap

end Found

/-! ## Compared lists -/

end UpgradeSafety.Compare

namespace UpgradeSafety.Resolved

/-- Two types that are compared when two lists are: those of their variables, and those inside two
types that are compared. -/
inductive Meets (former updated : Resolved) : String → String → Prop where
  | items {m k : Item} : m ∈ former.items → k ∈ updated.items →
      Meets former updated m.type k.type
  | inside {i j i' j' : String} : Meets former updated i j → i' ∈ (former.graph.node i).inside →
      j' ∈ (updated.graph.node j).inside → Meets former updated i' j'

/-- Two lists that are compared when two lists are: they themselves, and the members of two structs
that are compared. -/
inductive ListsMeet (former updated : Resolved) : List Variable → List Variable → Prop where
  | self : ListsMeet former updated former.vars updated.vars
  | members {i j : String} : Meets former updated i j → (former.graph.node i).kind = .struct →
      (updated.graph.node j).kind = .struct →
      ListsMeet former updated ((former.graph.node i).memberItems.map former.graph.variable)
        ((updated.graph.node j).memberItems.map updated.graph.variable)

end UpgradeSafety.Resolved

namespace UpgradeSafety.Compare

section Sections

variable {strict relaxed : Leniency} {former updated : Resolved}

/-- Some lists that are compared on the way are aligned otherwise by the relaxed comparison. -/
def MisalignedInside (strict relaxed : Leniency) (former updated : Resolved) : Prop :=
  ∃ os us a, former.ListsMeet updated os us ∧
    Misaligned strict.strictRenames relaxed.strictRenames
      (freshChange strict former.graph updated.graph)
      (freshChange relaxed former.graph updated.graph) os us a

theorem freshChange_of_plain (ho : former.graph.Keyed) (hu : updated.graph.Keyed)
    (leniency : Leniency) (depth : Nat) (os us : List Item) :
    ∀ o ∈ os.map former.graph.variable, ∀ u ∈ us.map updated.graph.variable, ∀ b r,
      plainChange leniency former.graph updated.graph depth o.type u.type b = .ok r →
        freshChange leniency former.graph updated.graph o.type u.type b = .ok r := by
  intro o hom u hum b r h
  obtain ⟨m, -, rfl⟩ := List.mem_map.mp hom
  obtain ⟨k, -, rfl⟩ := List.mem_map.mp hum
  exact (freshChange_eq_ok_iff ho hu).mpr (plainChange_pairBound h)

variable (ho : former.graph.Keyed) (hu : updated.graph.Keyed) (hrelax : strict.Relaxes relaxed)
  (hnone : ¬ MisalignedInside strict relaxed former updated)
include ho hu hrelax hnone

/-- Types that fit under the strict options fit under the relaxed ones, if no lists are aligned
otherwise. -/
theorem plainChange_relaxed {depth : Nat} {i j : String} (h : former.Meets updated i j) (b : Bool) :
    FitsStill
      (plainChange strict former.graph updated.graph depth (former.graph.node i)
        (updated.graph.node j) b)
      (plainChange relaxed former.graph updated.graph depth (former.graph.node i)
        (updated.graph.node j) b) := by
  induction depth generalizing i j b with
  | zero =>
    intro hfits
    cases hfits
  | succ depth ih =>
    refine typeChangeWith_relaxed (fun i' hi j' hj b => ih (h.inside hi hj) b) hrelax
      fun hok huk ops ops' hops hclean hops' => ?_
    by_contra hdirty
    simp only [not_forall, Bool.not_eq_true] at hdirty
    obtain ⟨op, hop, hnote⟩ := hdirty
    have hfits : ∀ o ∈ (former.graph.node i).memberItems.map former.graph.variable,
        ∀ u ∈ (updated.graph.node j).memberItems.map updated.graph.variable, ∀ b,
        FitsStill (plainChange strict former.graph updated.graph depth o.type u.type b)
          (plainChange relaxed former.graph updated.graph depth o.type u.type b) := by
      intro o hom u hum b
      obtain ⟨m, hm, rfl⟩ := List.mem_map.mp hom
      obtain ⟨k, hk, rfl⟩ := List.mem_map.mp hum
      refine ih (h.inside ?_ ?_) b
      · rw [inside_eq_of_struct hok]
        exact List.mem_map_of_mem hm
      · rw [inside_eq_of_struct huk]
        exact List.mem_map_of_mem hk
    have hmisaligned := misaligned_of_refused hfits hrelax.strictRenames hops hclean hops'
      ⟨op, hop, hnote⟩
    exact hnone ⟨_, _, b, .members h hok huk, hmisaligned.mono
      (freshChange_of_plain ho hu strict depth _ _) (freshChange_of_plain ho hu relaxed depth _ _)⟩

/-- A section without errors under the strict options has none under the relaxed ones, if no lists
are aligned otherwise. -/
theorem freshSection_relaxed {ops ops' : List Operation}
    (h : freshSection strict former updated = .ok ops) (hclean : ∀ op ∈ ops, op.note = true)
    (h' : freshSection relaxed former updated = .ok ops') : ∀ op ∈ ops', op.note = true := by
  by_contra hdirty
  simp only [not_forall, Bool.not_eq_true] at hdirty
  obtain ⟨op, hop, hnote⟩ := hdirty
  have hfits : ∀ o ∈ former.vars, ∀ u ∈ updated.vars, ∀ b,
      FitsStill (freshChange strict former.graph updated.graph o.type u.type b)
        (freshChange relaxed former.graph updated.graph o.type u.type b) := by
    intro o hom u hum b hfound r hr
    rw [freshChange_vars_iff ho hu hom hum] at hfound hr
    obtain ⟨m, hm, rfl⟩ := List.mem_map.mp hom
    obtain ⟨k, hk, rfl⟩ := List.mem_map.mp hum
    exact plainChange_relaxed ho hu hrelax hnone (.items hm hk) b hfound r hr
  exact hnone ⟨_, _, true, .self,
    misaligned_of_refused hfits hrelax.strictRenames h hclean h' ⟨op, hop, hnote⟩⟩

end Sections

/-! ## Layouts -/

theorem ok_iff {ops : List Operation} : (Report.mk ops).ok = true ↔ ∀ op ∈ ops, op.note = true := by
  simp [Report.ok, Report.errorOperations]

/-- What strict options accept, relaxed ones accept, unless they align some of the compared lists
otherwise. -/
theorem layouts_relaxed {strict relaxed : Leniency} (hrelax : strict.Relaxes relaxed)
    {former updated : Layout} {os us : Resolved} {on un : List (String × Resolved)}
    (hsections : Sections former updated os us on un) {outcome outcome' : Outcome}
    (h : layouts strict former updated = .ok outcome)
    (h' : layouts relaxed former updated = .ok outcome')
    (hok : (Report.mk outcome.operations).ok = true) :
    (Report.mk outcome'.operations).ok = true ∨ MisalignedInside strict relaxed os us ∨
      ∃ id o u, (id, o) ∈ on ∧ un.lookup id = some u ∧ MisalignedInside strict relaxed o u := by
  obtain ⟨og, hog, hogs⟩ := exists_within hsections.os hsections.on
  obtain ⟨ug, hug, hugs⟩ := exists_within hsections.us hsections.un
  obtain ⟨os₁, us₁, on₁, un₁, hsections₁, storage, parts, hstorage, hparts, hops⟩ :=
    layouts_eq_ok h
  obtain ⟨os₂, us₂, on₂, un₂, hsections₂, storage', parts', hstorage', hparts', hops'⟩ :=
    layouts_eq_ok h'
  obtain ⟨rfl, rfl, rfl, rfl⟩ := hsections.unique hsections₁
  obtain ⟨rfl, rfl, rfl, rfl⟩ := hsections.unique hsections₂
  by_contra hnone
  rw [not_or, not_or] at hnone
  obtain ⟨hrefused, hfirst, hothers⟩ := hnone
  rw [ok_iff, hops, List.forall_mem_append] at hok
  refine hrefused ?_
  rw [ok_iff, hops', List.forall_mem_append]
  refine ⟨freshSection_relaxed hog.keyed hug.keyed hrelax hfirst hstorage hok.1 hstorage', ?_⟩
  intro op hop
  obtain ⟨part', hpart', hop⟩ := List.mem_flatten.mp hop
  obtain ⟨k, hk⟩ := List.mem_iff_getElem?.mp hpart'
  obtain ⟨⟨id, o⟩, hko, hnamespace'⟩ := getElem?_of_forall₂ hparts'.flip hk
  obtain ⟨part, hkp, hnamespace⟩ := getElem?_of_forall₂ hparts hko
  have hclean : ∀ op ∈ part, op.note = true := fun op hop =>
    hok.2 op (List.mem_flatten_of_mem (List.mem_of_getElem? hkp) hop)
  have hmem := List.mem_of_getElem? hko
  rw [freshNamespace] at hnamespace hnamespace'
  dsimp only at hnamespace hnamespace'
  split at hnamespace
  · -- a deleted namespace is an error for both
    cases hnamespace
    cases hclean _ List.mem_cons_self
  · rename_i u hlookup
    rw [hlookup] at hnamespace'
    obtain ⟨ops, hsection, rfl⟩ := map_eq_ok_iff.mp hnamespace
    obtain ⟨ops', hsection', rfl⟩ := map_eq_ok_iff.mp hnamespace'
    obtain ⟨op', hop', rfl⟩ := List.mem_map.mp hop
    exact freshSection_relaxed (hogs _ hmem).keyed (hugs (id, u) (mem_of_lookup hlookup)).keyed
      hrelax (fun hin => hothers ⟨id, o, u, hmem, hlookup, hin⟩) hsection
      (fun q hq => hclean { q with namespaceId := some id } (List.mem_map_of_mem hq)) hsection' op'
      hop'

/-! ## Gaps of boxes -/

/-- A gap of two boxes. Boxes are structs, of which there are two types. -/
def boxGap (box : Nat) (slot : Int) : Item where
  label := "__gap"
  type := s!"t_array(t_struct(Box){box}_storage)2_storage"
  slot := some slot

/-- The layout that stores words and gaps of boxes, the members of the two structs being given. -/
def boxLayout (members : Nat → Option Members) (storage : List Item) : Layout where
  layoutVersion := some Layout.currentVersion
  storage := storage
  types :=
    [("t_uint256", { label := "uint256", numberOfBytes := some 32 }),
      ("t_struct(Box)1_storage",
        { label := "struct Box", numberOfBytes := some 32, members := members 1 }),
      ("t_struct(Box)2_storage",
        { label := "struct Box", numberOfBytes := some 32, members := members 2 }),
      ("t_array(t_struct(Box)1_storage)2_storage",
        { label := "struct Box[2]", numberOfBytes := some 64 }),
      ("t_array(t_struct(Box)2_storage)2_storage",
        { label := "struct Box[2]", numberOfBytes := some 64 })]

/-- The boxes have a member each, of another name. -/
def namedBoxes : Nat → Option Members
  | 1 => some (.items [word "width" 0])
  | _ => some (.items [word "size" 0])

/-- An owner and a gap, and the same with a word and a gap of other boxes behind them. -/
abbrev ownerGap (members : Nat → Option Members) : Layout :=
  boxLayout members [word "owner" 0, boxGap 1 1]

abbrev ownerGapLimitGap (members : Nat → Option Members) : Layout :=
  boxLayout members [word "owner" 0, boxGap 1 1, word "limit" 3, boxGap 2 4]

theorem ownerGapLimitGap_accepted :
    ∃ outcome, layouts { strictRenames := true } (ownerGap namedBoxes)
        (ownerGapLimitGap namedBoxes) = .ok outcome ∧ (Report.mk outcome.operations).ok = true :=
  exists_outcome_of_plainStorage rfl rfl (by decide +kernel)

theorem ownerGapLimitGap_refused :
    ∃ outcome, layouts {} (ownerGap namedBoxes) (ownerGapLimitGap namedBoxes) = .ok outcome ∧
      (Report.mk outcome.operations).ok = false :=
  exists_outcome_of_plainStorage rfl rfl (by decide +kernel)

/-- The two gaps are paired when a new name of a member is not an error. -/
theorem layouts_relaxed_boxes :
    ∃ os us, Sections (ownerGap namedBoxes) (ownerGapLimitGap namedBoxes) os us [] [] ∧
      MisalignedInside { strictRenames := true } {} os us := by
  obtain ⟨outcome, h, hok⟩ := ownerGapLimitGap_accepted
  obtain ⟨outcome', h', hrefused⟩ := ownerGapLimitGap_refused
  obtain ⟨os, us, on, un, hsections, -⟩ := layouts_eq_ok h
  cases hsections.on.symm.trans (resolveNamespaces_nil rfl)
  cases hsections.un.symm.trans (resolveNamespaces_nil rfl)
  refine ⟨os, us, hsections, ?_⟩
  have hrelax : Leniency.Relaxes { strictRenames := true } {} := ⟨fun h => h, fun _ => rfl⟩
  rcases layouts_relaxed hrelax hsections h h' hok with hok' | hinside | ⟨_, _, _, hmem, -⟩
  · rw [hrefused] at hok'
    cases hok'
  · exact hinside
  · cases hmem

/-- Nothing that was there has changed, but the relaxed comparison refuses the upgrade that the
strict one accepts: where a member of the appended boxes has another name, and where nothing is
known of the members. -/
theorem relaxed_refuses_appended :
    ((∃ outcome, layouts { strictRenames := true } (ownerGap namedBoxes)
        (ownerGapLimitGap namedBoxes) = .ok outcome ∧ (Report.mk outcome.operations).ok = true) ∧
      ∃ outcome, layouts { strictRenames := false } (ownerGap namedBoxes)
        (ownerGapLimitGap namedBoxes) = .ok outcome ∧ (Report.mk outcome.operations).ok = false) ∧
    (∃ outcome, layouts { customTypes := false } (ownerGap fun _ => none)
        (ownerGapLimitGap fun _ => none) = .ok outcome ∧
        (Report.mk outcome.operations).ok = true) ∧
      ∃ outcome, layouts { customTypes := true } (ownerGap fun _ => none)
        (ownerGapLimitGap fun _ => none) = .ok outcome ∧
        (Report.mk outcome.operations).ok = false :=
  ⟨⟨ownerGapLimitGap_accepted, ownerGapLimitGap_refused⟩,
    exists_outcome_of_plainStorage rfl rfl (by decide +kernel),
    exists_outcome_of_plainStorage rfl rfl (by decide +kernel)⟩

end UpgradeSafety.Compare
