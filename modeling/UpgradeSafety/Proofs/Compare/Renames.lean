import UpgradeSafety.Proofs.Compare.Judgement
import UpgradeSafety.Proofs.Compare.Sections

/-!
# Renamed variables that moved

Name, type and position of a pair are compared independently, but only the gravest difference is
reported, and a new name is graver than a new position. Without strict renames a new name is only
noted. So a variable that moved is reported as an error just when its name is kept or declared or
its type does not fit (`moved_pairs_reported`); a variable that was renamed and moved is only noted
as renamed (`renamed_and_moved_is_noted`).

This is a statement about every step of the alignment that pairs two variables, other than two
gaps, at different known positions, for lists of any kind: those of a storage, of a namespace, and
the members of a struct. A pair is judged on its own, so the operations of the list are collected
step by step (`StepReported`), and of each such step it is told which of the two, a note or one
error, its operations are. The alignment itself plays no part in it.
-/

namespace UpgradeSafety.Compare

open UpgradeSafety.Alignment (Step Leads Filled difference)

section Pair

variable {former updated : List Variable} {rows : List (List (Option Change))} {i : Nat}
  {o u : Variable}

/-- An integer may be wider only in its place. -/
theorem widens_eq_false_of_move {siblings : List Variable} (h : move? o.item u.item ≠ none) :
    widens siblings i o u = false := by
  rw [← Bool.not_eq_true]
  intro hwidens
  apply h
  unfold widens at hwidens
  split at hwidens
  · rename_i slot _ _ hslot
    simp only [Bool.and_eq_true, beq_iff_eq] at hwidens
    obtain ⟨⟨⟨⟨-, hslot'⟩, hoffset⟩, -⟩, -⟩ := hwidens
    simp [move?, hslot, hslot', hoffset]
  · cases hwidens

/-- The difference of a variable that moved: a new name hides the new position. -/
theorem gravestChange_of_move (former : List Variable) (i : Nat) (type : Option TypeChange)
    (h : move? o.item u.item ≠ none) :
    (namesDiffer o.item u.item = true ∧ type = none →
      gravestChange former i o u type = some (.rename o u)) ∧
    (¬ (namesDiffer o.item u.item = true ∧ type = none) →
      ∃ c, gravestChange former i o u type = some c ∧ c.former? = some o ∧ c.updated? = some u ∧
        judgePair false c = .ok ⟨c, false, none⟩) := by
  have hwidens : widens former i o u = false := widens_eq_false_of_move h
  obtain ⟨m, hm⟩ := Option.ne_none_iff_exists'.mp h
  unfold gravestChange
  rw [hwidens]
  cases type with
  | none =>
    cases namesDiffer o.item u.item with
    | true => simp
    | false => simp [hm, Change.former?, Change.updated?, judgePair]
  | some t =>
    cases namesDiffer o.item u.item <;> simp [Change.former?, Change.updated?, judgePair]

/-- Whether a renamed variable of a fitting type is taken for no more than renamed. -/
def OnlyRenamed (found : Except Obstacle (Option TypeChange)) (former : List Variable) (i : Nat)
    (o u : Variable) : Prop :=
  namesDiffer o.item u.item = true ∧ TypeFits found former i o u

/-- What is reported of a pair that moved: a note of the new name, or one error. -/
def MoveReported (found : Except Obstacle (Option TypeChange)) (former : List Variable) (i : Nat)
    (o u : Variable) (part : List Operation) : Prop :=
  (OnlyRenamed found former i o u → part = [⟨.rename o u, true, none⟩]) ∧
    (¬ OnlyRenamed found former i o u →
      ∃ c, part = [⟨c, false, none⟩] ∧ c.former? = some o ∧ c.updated? = some u)

/-- A pair that moved adds a note of the new name or one error. -/
theorem moveReported_of_judgeStep {tc : CompareTypes (Except Obstacle)} {a : Bool} {j : Nat}
    {gaps : List Variable} {before rest : List VariableEdit} {e : VariableEdit}
    {part : List Operation}
    (hrows : differences (checkedChange tc) former updated a = .ok rows)
    (hfilled : Filled former updated rows (.pair i j) e)
    (hpart : judgeStep false a gaps before e rest = .ok part) (ho : former[i]? = some o)
    (hu : updated[j]? = some u) (hgaps : areGaps o u = false) (hmove : move? o.item u.item ≠ none) :
    MoveReported (tc o.type u.type (a && i + 1 == former.length)) former i o u part := by
  obtain ⟨type, htype, hfound⟩ := variableChange_eq_gravestChange hgaps
    (variableChange_eq_difference hrows ho hu)
  obtain ⟨hrenamed, hother⟩ := gravestChange_of_move former i type hmove
  have hfits : OnlyRenamed (tc o.type u.type (a && i + 1 == former.length)) former i o u ↔
      namesDiffer o.item u.item = true ∧ type = none := by
    refine and_congr_right fun _ => ?_
    rw [TypeFits, widens_eq_false_of_move hmove]
    rcases hfound with ⟨hdeclares, rfl⟩ | ⟨hdeclares, hfound⟩
    · simp [hdeclares]
    · simp [hdeclares, checkedChange_eq_ok hfound]
  -- the step carries the difference of the pair, which is not none
  obtain ⟨c, hc, rfl⟩ : ∃ c, difference rows i j = some c ∧ e = .substitute o u c := by
    cases hfilled with
    | equal ho' hu' hd =>
      rw [hd] at htype
      by_cases hnames : namesDiffer o.item u.item = true ∧ type = none
      · rw [hrenamed hnames] at htype
        cases htype
      · obtain ⟨c, hc, -⟩ := hother hnames
        rw [hc] at htype
        cases htype
    | substitute ho' hu' hd =>
      rw [ho] at ho'
      rw [hu] at hu'
      cases ho'
      cases hu'
      exact ⟨_, hd, rfl⟩
  rw [hc] at htype
  rw [judgeStep] at hpart
  constructor
  · intro h
    rw [hrenamed (hfits.mp h)] at htype
    cases htype
    cases hpart
    rfl
  · intro h
    obtain ⟨c', hc', hformer, hupdated, hjudge⟩ := hother (fun h' => h (hfits.mpr h'))
    rw [hc'] at htype
    cases htype
    rw [hjudge] at hpart
    cases hpart
    exact ⟨c, rfl, hformer, hupdated⟩

end Pair

/-! ## Lists -/

/-- What is reported of a step that pairs two variables, other than two gaps, of which the updated
one stands at a different known position. -/
def StepReported (tc : CompareTypes (Except Obstacle)) (former updated : List Variable) (a : Bool)
    (s : Step) (part : List Operation) : Prop :=
  ∀ i j o u, s = .pair i j → former[i]? = some o → updated[j]? = some u →
    areGaps o u = false → move? o.item u.item ≠ none →
    MoveReported (tc o.type u.type (a && i + 1 == former.length)) former i o u part

theorem stepReported_of_judged {tc : CompareTypes (Except Obstacle)}
    {former updated : List Variable} {a : Bool} {rows : List (List (Option Change))}
    {gaps : List Variable} {before script : List VariableEdit} {steps : List Step}
    {parts : List (List Operation)}
    (hrows : differences (checkedChange tc) former updated a = .ok rows)
    (hfilled : List.Forall₂ (Filled former updated rows) steps script)
    (hjudged : Judged false a gaps before script parts) :
    List.Forall₂ (StepReported tc former updated a) steps parts := by
  refine forall₂_of_judged hfilled hjudged fun s _ e front rest part hs hpart => ?_
  intro i j o u hpair ho hu hgaps hmove
  subst hpair
  exact moveReported_of_judgeStep hrows hs hpart ho hu hgaps hmove

/-- Without strict renames, every step of the alignment of two lists has operations of its own. Of a
pair that moved they are one error, or a note of the new name when the name is new and the type
fits. -/
theorem moved_pairs_reported {leniency : Leniency} {former updated : Resolved}
    {memory memory' : Memory} {fuel : Nat} {openPairs : List PairKey} {a : Bool}
    {ops : List Operation} (hlenient : leniency.strictRenames = false)
    (hunderway : Underway leniency former updated memory)
    (hrun : (listChanges leniency.strictRenames
      (typeChange leniency former.graph updated.graph fuel openPairs) former.vars updated.vars
      a).run.run memory = (.ok ops, memory')) :
    ∃ steps parts, alignment (freshChange leniency former.graph updated.graph) former.vars
        updated.vars a = .ok steps ∧
      List.Forall₂ (StepReported (freshChange leniency former.graph updated.graph) former.vars
        updated.vars a) steps parts ∧
      parts.flatten = ops := by
  have hfresh := (hunderway.run hrun).2
  rw [hlenient] at hfresh
  obtain ⟨-, rows, steps, script, hrows, hsteps, hfilled, hjudge⟩ :=
    listChanges_eq_ok_iff.mp hfresh
  obtain ⟨parts, hjudged, hflatten⟩ := judgeSteps_eq_ok_iff.mp hjudge
  exact ⟨steps, parts, alignment_eq_ok hrows hsteps,
    stepReported_of_judged hrows hfilled hjudged, hflatten⟩

/-- The comparison of an address that was renamed and moved. -/
theorem moved_pairs_reported_address :
    ∃ steps parts,
      alignment (freshChange {} (addressStorage [address "owner" 0]).graph
        (addressStorage [address "admin" 5]).graph) [address "owner" 0] [address "admin" 5] true =
          .ok steps ∧
      List.Forall₂ (StepReported (freshChange {} (addressStorage [address "owner" 0]).graph
        (addressStorage [address "admin" 5]).graph) [address "owner" 0] [address "admin" 5] true)
          steps parts ∧
      parts.flatten = [⟨.rename (address "owner" 0) (address "admin" 5), true, none⟩] := by
  have hsections : Sections (addressLayout [address "owner" 0]) (addressLayout [address "admin" 5])
      (addressStorage [address "owner" 0]) (addressStorage [address "admin" 5]) [] [] :=
    ⟨by with_unfolding_all rfl, by with_unfolding_all rfl, rfl, rfl⟩
  have hunderway := hsections.underway {}
  have hplain : plainSection {} (addressStorage [address "owner" 0])
      (addressStorage [address "admin" 5]) =
        .ok [⟨.rename (address "owner" 0) (address "admin" 5), true, none⟩] := by
    with_unfolding_all rfl
  obtain ⟨memory', hrun⟩ := hunderway.run_of_plain hplain
  exact moved_pairs_reported rfl hunderway hrun

/-- An address that was renamed and moved by five slots is reported as no more than renamed. -/
theorem renamed_and_moved_is_noted :
    (∃ outcome, layouts {} (addressLayout [address "owner" 0]) (addressLayout [address "admin" 5]) =
        .ok outcome ∧
      outcome.operations = [⟨.rename (address "owner" 0) (address "admin" 5), true, none⟩]) ∧
    move? (address "owner" 0).item (address "admin" 5).item = some ⟨some (0, 5), none⟩ := by
  refine ⟨(layouts_iff_plainStorage rfl rfl).mpr ?_, rfl⟩
  with_unfolding_all rfl

end UpgradeSafety.Compare
