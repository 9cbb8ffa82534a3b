import UpgradeSafety.Proofs.Compare.Shown
import UpgradeSafety.Report.Basic

/-!
# Reports of what is shown

A report tells nothing of a layout but what is shown of it: what is shown of the operations of a
comparison has the same findings, the same sources and the same explanation (`findings_shown`,
`explainAll_shown`). `Report.verdict` is all that a report tells, and depends on no more
(`Report.verdict_shown`).

A report may fail to tell something, when a number has more digits than are written. That is a part
of the verdict: each of its texts is a text or the failure, and the failure is the same for what is
shown, because showing changes no slot, no offset and no size. So there is no condition on the
layouts.

The texts are gone through in the order in which they are put together: of a type, of a change, of
the changes inside another one by levels, and of the findings by recursion on the changes, as their
definitions go. What is left out by showing, the syntax tree ids, stands in none of them.
-/

namespace UpgradeSafety

open Compare

namespace Report

/-! ## Explanations -/

theorem explainType_shown : ∀ t : TypeChange, explainType t.shown = explainType t
  | .mismatch reason _ _ => by cases reason <;> rfl
  | .inside _ _ u inner => by
    rw [TypeChange.shown, explainType, explainType, explainType_shown inner]
    rfl
  | .structMembers .. | .enumNames .. => rfl

theorem explainWith_shown (place : Place) (note : Bool)
    {details details' : TypeChange → Except Failure (List String)}
    (h : ∀ t, details' t.shown = details t) (c : Change) :
    explainWith place note details' c.shown = explainWith place note details c := by
  cases c with
  | retype o u t =>
    rw [Change.shown, explainWith, explainWith, explainType_shown, h]
    rfl
  | fillGap o last => cases last <;> rfl
  | rename | replace | move | resizeGap | insert | append | delete | deleteNamespace => rfl

theorem explainMember_shown (allowAppend : Bool) (c : Change) :
    explainMember allowAppend c.shown = explainMember allowAppend c :=
  explainWith_shown _ false (fun _ => rfl) c

theorem memberDetails_shown (t : TypeChange) : memberDetails t.shown = memberDetails t := by
  cases t with
  | structMembers o u changes allowAppend =>
    rw [TypeChange.shown, memberDetails, memberDetails, shownChanges_eq_map, List.mapM_map]
    have hmembers : explainMember allowAppend ∘ Change.shown = explainMember allowAppend :=
      funext (explainMember_shown allowAppend)
    rw [hmembers]
    rfl
  | mismatch | inside | enumNames => rfl

theorem innerChanges_shown (t : TypeChange) :
    innerChanges t.shown = (innerChanges t).map TypeChange.shown := by
  cases t with
  | structMembers o u changes allowAppend =>
    rw [TypeChange.shown, innerChanges, innerChanges, shownChanges_eq_map, List.filterMap_map,
      List.map_filterMap]
    exact List.filterMap_congr fun c _ => by cases c <;> rfl
  | mismatch | inside | enumNames => rfl

mutual

theorem typeDepth_shown : ∀ t : TypeChange, typeDepth t.shown = typeDepth t
  | .mismatch .. | .enumNames .. => rfl
  | .inside _ _ _ inner => by rw [TypeChange.shown, typeDepth, typeDepth, typeDepth_shown inner]
  | .structMembers _ _ changes _ => by
    rw [TypeChange.shown, typeDepth, typeDepth, changesDepth_shown changes]

theorem changesDepth_shown : ∀ changes, changesDepth (shownChanges changes) = changesDepth changes
  | [] => rfl
  | .retype _ _ t :: rest => by
    rw [shownChanges, Change.shown, changesDepth, changesDepth, typeDepth_shown t,
      changesDepth_shown rest]
  | .rename .. :: rest | .replace .. :: rest | .move .. :: rest | .resizeGap .. :: rest
  | .fillGap .. :: rest | .insert _ :: rest | .append _ :: rest | .delete _ :: rest
  | .deleteNamespace .. :: rest => changesDepth_shown rest

end

theorem levels_shown (depth : Nat) (level : List TypeChange) :
    levels depth (level.map TypeChange.shown) = (levels depth level).map TypeChange.shown := by
  induction depth generalizing level with
  | zero => rfl
  | succ depth ih =>
    have hinner : (level.map TypeChange.shown).flatMap innerChanges =
        (level.flatMap innerChanges).map TypeChange.shown := by
      rw [List.flatMap_map, List.map_flatMap]
      exact congrArg (fun f => level.flatMap f) (funext innerChanges_shown)
    rw [levels, levels, hinner, ih, List.map_append]

theorem typeDetails_shown (t : TypeChange) : typeDetails t.shown = typeDetails t := by
  have hlevels : levels (typeDepth t) [t.shown] = (levels (typeDepth t) [t]).map TypeChange.shown :=
    levels_shown _ [t]
  have hdetails : memberDetails ∘ TypeChange.shown = memberDetails := funext memberDetails_shown
  rw [typeDetails, typeDetails, typeDepth_shown, hlevels, List.mapM_map, hdetails]

theorem explainChange_shown (note : Bool) (c : Change) :
    explainChange note c.shown = explainChange note c :=
  explainWith_shown _ note typeDetails_shown c

/-! ## Findings -/

theorem subject?_shown (c : Change) : c.shown.subject? = c.subject?.map Variable.shown := by
  cases c with
  | deleteNamespace id first => cases first <;> rfl
  | rename | replace | retype | move | resizeGap | fillGap | insert | append | delete => rfl

theorem subjectLabel_shown (c : Change) : subjectLabel c.shown = subjectLabel c := by
  rw [subjectLabel, subjectLabel, subject?_shown, Option.map_map]
  rfl

theorem ownFinding_shown (c : Change) (path : List String) (message : Except Failure String) :
    ownFinding c.shown path message = ownFinding c path message := by
  have hkind : c.shown.kindName = c.kindName := by cases c <;> rfl
  rw [ownFinding, ownFinding, hkind]

mutual

theorem memberFindings_shown (above : List String) (struct : String) :
    ∀ c : Change, memberFindings above struct c.shown = memberFindings above struct c
  | .replace o u t | .retype o u t => by
    rw [Change.shown, memberFindings, memberFindings, ← Change.shown, ownFinding_shown,
      subjectLabel_shown, explainMember_shown, insideFindings_shown _ t]
  | .rename .. | .move .. | .resizeGap .. | .insert _ | .append _ | .delete _ => rfl
  | .fillGap _ last => by cases last <;> rfl
  | .deleteNamespace _ first => by cases first <;> rfl

theorem insideFindings_shown (path : List String) :
    ∀ t : TypeChange, insideFindings path t.shown = insideFindings path t
  | .inside _ _ _ inner => by
    rw [TypeChange.shown, insideFindings, insideFindings, insideFindings_shown path inner]
  | .structMembers _ u changes _ => by
    rw [TypeChange.shown, insideFindings, insideFindings]
    exact allMemberFindings_shown path _ changes
  | .mismatch .. | .enumNames .. => rfl

theorem allMemberFindings_shown (above : List String) (struct : String) :
    ∀ changes, allMemberFindings above struct (shownChanges changes) =
      allMemberFindings above struct changes
  | [] => rfl
  | c :: rest => by
    rw [shownChanges, allMemberFindings, allMemberFindings, memberFindings_shown above struct c,
      allMemberFindings_shown above struct rest]

end

theorem segment_shown (v : Variable) : segment v.shown = segment v := by
  obtain ⟨item, type⟩ := v
  unfold segment Variable.shown Item.shown
  by_cases h : item.contract = .null ∧ item.src ≠ ""
  · simp [h]
    rfl
  · simp [h]

theorem findings_shown (op : Operation) : findings op.shown = findings op := by
  obtain ⟨change, note, namespaceId⟩ := op
  have hsegment : (change.shown.subject?.map segment).getD "" =
      (change.subject?.map segment).getD "" := by
    rw [subject?_shown, Option.map_map]
    exact congrArg (fun f => (change.subject?.map f).getD "") (funext segment_shown)
  have hexplain := explainChange_shown note change
  cases change with
  | replace o u t | retype o u t =>
    rw [Change.shown] at hsegment hexplain
    unfold findings
    dsimp only [Operation.shown, Change.shown]
    rw [hsegment, hexplain, insideFindings_shown]
    rfl
  | rename | move | resizeGap | fillGap | insert | append | delete =>
    rw [Change.shown] at hsegment hexplain
    unfold findings
    dsimp only [Operation.shown, Change.shown]
    rw [hsegment, hexplain]
    rfl
  | deleteNamespace => rfl

theorem source_shown (op : Operation) : source op.shown = source op := by
  unfold source
  rw [show op.shown.change.subject? = op.change.subject?.map Variable.shown from
    subject?_shown op.change]
  cases op.change.subject? with
  | none => rfl
  | some v =>
    obtain ⟨item, type⟩ := v
    dsimp only [Option.map_some, Variable.shown, Item.shown]
    by_cases hsrc : item.src = ""
    · rw [show (if item.contract = .null ∧ item.src ≠ "" then .str "" else item.contract) =
        item.contract from if_neg fun h => h.2 hsrc]
    · rw [if_neg (by simpa using hsrc), if_neg (by simpa using hsrc)]

theorem explainAll_shown (color : Bool) (ops : List Operation) :
    explainAll color (ops.map Operation.shown) = explainAll color ops := by
  unfold explainAll
  rw [List.mapM_map]
  refine congrArg (fun f => ops.mapM f >>= fun texts => pure ("\n\n".intercalate texts))
    (funext fun op => ?_)
  rw [Function.comp_apply, source_shown, show explainChange op.shown.note op.shown.change =
    explainChange op.note op.change from explainChange_shown op.note op.change]

theorem allFindings_shown (ops : List Operation) :
    allFindings (ops.map Operation.shown) = allFindings ops := by
  have hfindings : findings ∘ Operation.shown = findings := funext findings_shown
  rw [allFindings, allFindings, List.mapM_map, hfindings]

end Report

/-! ## Verdicts -/

/-- All that a report tells its reader, and what it fails to tell. -/
structure Verdict where
  ok : Bool
  errors : Except Failure (List Finding)
  notes : Except Failure (List Finding)
  /-- The explanation of the errors, with and without colors. -/
  explanation : Bool → Except Failure String
  /-- The explanation of the notes. -/
  remarks : Bool → Except Failure String

namespace Report

/-- What a report tells. -/
def verdict (r : Report) : Verdict := ⟨r.ok, r.errors, r.notes, r.explain, r.explainNotes⟩

/-- What is shown of a report. -/
def shown (r : Report) : Report := ⟨r.operations.map Operation.shown⟩

theorem verdict_shown (r : Report) : r.shown.verdict = r.verdict := by
  have herrors : r.shown.errorOperations = r.errorOperations.map Operation.shown := List.filter_map
  have hnotes : r.shown.noteOperations = r.noteOperations.map Operation.shown := List.filter_map
  have hexplain (ops : List Operation) :
      (fun color => explainAll color (ops.map Operation.shown)) = fun color => explainAll color ops :=
    funext fun color => explainAll_shown color ops
  unfold verdict ok errors notes explain explainNotes
  rw [herrors, hnotes, List.isEmpty_map, allFindings_shown, allFindings_shown]
  exact congrArg₂ (Verdict.mk _ _ _) (hexplain r.errorOperations) (hexplain r.noteOperations)

end Report

end UpgradeSafety
