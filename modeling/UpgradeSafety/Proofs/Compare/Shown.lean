import UpgradeSafety.Proofs.Alignment.Edits
import UpgradeSafety.Proofs.Compare.Memory
import UpgradeSafety.Proofs.Layout.Shown

/-!
# Comparisons of what is shown

A layout holds more than a comparison looks at. What is shown of two layouts is compared with the
same outcome as the layouts themselves: the changes are what is shown of theirs, the same obstacles
stop it, and the same is remembered, up to what is shown (`layouts_shown`). So layouts that show
the same are compared alike (`layouts_sameShown`), which is what makes a layout that was written
and read back as good as the one in memory.

The relation of two runs is `Renders`: from memories that show the same, both find the same up to a
map, or are stopped by the same obstacle, and remember the same again. Returning, binding and going
through a list keep it, and then each function of the comparison has one lemma, in the order in
which they call each other: variables, steps of a script, lists, types, sections. Only the
recursion into types is an induction, on the number of levels.
-/

namespace UpgradeSafety.Compare

/-! ## Changes -/

mutual

/-- What is shown of a type change. -/
def TypeChange.shown : TypeChange → TypeChange
  | .mismatch reason o u => .mismatch reason o.shown u.shown
  | .inside container o u inner => .inside container o.shown u.shown inner.shown
  | .structMembers o u changes allowAppend =>
    .structMembers o.shown u.shown (shownChanges changes) allowAppend
  | .enumNames o u edits => .enumNames o.shown u.shown edits

/-- What is shown of a change. -/
def Change.shown : Change → Change
  | .rename o u => .rename o.shown u.shown
  | .replace o u t => .replace o.shown u.shown t.shown
  | .retype o u t => .retype o.shown u.shown t.shown
  | .move o u move => .move o.shown u.shown move
  | .resizeGap o u fitting => .resizeGap o.shown u.shown fitting
  | .fillGap o last => .fillGap o.shown (last.map Variable.shown)
  | .insert u => .insert u.shown
  | .append u => .append u.shown
  | .delete o => .delete o.shown
  | .deleteNamespace id first => .deleteNamespace id (first.map Variable.shown)

/-- What is shown of changes. -/
def shownChanges : List Change → List Change
  | [] => []
  | c :: rest => c.shown :: shownChanges rest

end

theorem shownChanges_eq_map (changes : List Change) : shownChanges changes = changes.map Change.shown := by
  induction changes with
  | nil => rfl
  | cons c changes ih => rw [shownChanges, ih, List.map_cons]

/-- What is shown of an operation. -/
def Operation.shown (op : Operation) : Operation := { op with change := op.change.shown }

/-- What is shown of an outcome. -/
def Outcome.shown (outcome : Outcome) : Outcome :=
  { outcome with operations := outcome.operations.map Operation.shown }

theorem errorChanges_shown (ops : List Operation) :
    errorChanges (ops.map Operation.shown) = shownChanges (errorChanges ops) := by
  rw [shownChanges_eq_map, errorChanges, errorChanges, List.filter_map, List.map_map, List.map_map]
  rfl

/-! ## Pairs of variables -/

section Pairs

variable (siblings : List Variable) (index : Nat) (o u : Variable)

theorem widens_shown : widens (siblings.map Variable.shown) index o.shown u.shown =
    widens siblings index o u := by
  unfold widens
  rw [List.zipIdx_map]
  simp only [List.any_map]
  rfl

theorem gravestChange_shown (type : Option TypeChange) :
    gravestChange (siblings.map Variable.shown) index o.shown u.shown (type.map TypeChange.shown) =
      (gravestChange siblings index o u type).map Change.shown := by
  have hmoved : (move? o.shown.item u.shown.item).map (Change.move o.shown u.shown) =
      ((move? o.item u.item).map (Change.move o u)).map Change.shown := by
    rw [Option.map_map]
    rfl
  unfold gravestChange
  rw [widens_shown, Option.isSome_map, show namesDiffer o.shown.item u.shown.item =
    namesDiffer o.item u.item from rfl, hmoved]
  cases type with
  | none => cases namesDiffer o.item u.item <;> rfl
  | some t => cases widens siblings index o u <;> cases namesDiffer o.item u.item <;> rfl

end Pairs

/-! ## Steps of a script -/

/-- What is shown of a step. -/
def shownEdit : VariableEdit → VariableEdit :=
  Alignment.Edit.map Variable.shown Variable.shown Change.shown

theorem tariff_shown (former updated : List Variable) :
    tariff (former.map Variable.shown).toArray (updated.map Variable.shown).toArray =
      Alignment.Tariff.mk pairPrice (tariff former.toArray updated.toArray).insert
        (tariff former.toArray updated.toArray).delete := by
  have hinsert : (tariff (former.map Variable.shown).toArray
      (updated.map Variable.shown).toArray).insert = (tariff former.toArray updated.toArray).insert := by
    funext i j
    simp only [tariff, List.getElem?_toArray, List.getElem?_map]
    cases updated[j - 1]? with
    | none => rfl
    | some u => cases former[i - 1]? <;> cases former[i]? <;> rfl
  have hdelete : (tariff (former.map Variable.shown).toArray
      (updated.map Variable.shown).toArray).delete = (tariff former.toArray updated.toArray).delete := by
    funext i
    simp only [tariff, List.getElem?_toArray, List.getElem?_map]
    cases former[i - 1]? <;> rfl
  rw [← hinsert, ← hdelete]
  rfl

theorem pairPrice_shown (c : Option Change) : pairPrice (c.map Change.shown) = pairPrice c := by
  cases c with
  | none => rfl
  | some c => cases c <;> rfl

theorem judgeResizedGap_shown (o u : Variable) :
    judgeResizedGap o.shown u.shown = (judgeResizedGap o u).map Operation.shown := by
  unfold judgeResizedGap
  rw [show o.shown.end? = o.end? from rfl, show u.shown.end? = u.end? from rfl,
    show u.shown.position? = u.position? from rfl,
    show u.shown.type.fixedLength? = u.type.fixedLength? from rfl,
    show u.shown.size = u.size from rfl]
  split
  · split
    · rfl
    · split
      · dsimp only
        -- the size of an element: a share of the gap's, or a slot
        split
        · split
          · rfl
          · split <;> rfl
        · split
          · rfl
          · split <;> rfl
      · rfl
  · rfl

theorem leadingAdded_shown (script : List VariableEdit) :
    leadingAdded (script.map shownEdit) = (leadingAdded script).map Variable.shown := by
  induction script with
  | nil => rfl
  | cons e rest ih =>
    cases e with
    | equal | substitute | delete => rfl
    | insert u | append u => exact congrArg (u.shown :: ·) ih

theorem judgeRemovedGap_shown (gap : Variable) (added : List Variable) :
    judgeRemovedGap gap.shown (added.map Variable.shown) = (judgeRemovedGap gap added).shown := by
  have hmapM (q : Variable → Option Int) (hq : ∀ v, q v.shown = q v) :
      (added.map Variable.shown).mapM q = added.mapM q := by
    rw [List.mapM_map]
    exact congrArg (fun q => added.mapM q) (funext hq)
  unfold judgeRemovedGap Operation.shown
  rw [hmapM _ fun _ => rfl, hmapM _ fun _ => rfl, List.getLast?_map]
  rfl

theorem forM_shown {f : Variable → Except Obstacle Unit} (hf : ∀ v, f v.shown = f v)
    (vars : List Variable) : (vars.map Variable.shown).forM f = vars.forM f := by
  induction vars with
  | nil => rfl
  | cons v vars ih =>
    change (f v.shown >>= fun _ => (vars.map Variable.shown).forM f) = f v >>= fun _ => vars.forM f
    rw [hf, ih]

theorem demandGaps_shown (former updated : List Variable) :
    demandGaps (former.map Variable.shown) (updated.map Variable.shown) =
      demandGaps former updated := by
  unfold demandGaps
  rw [forM_shown fun _ => rfl, forM_shown fun _ => rfl, List.any_map]
  rfl

theorem judgePair_shown (strictRenames : Bool) (c : Change) :
    judgePair strictRenames c.shown = (judgePair strictRenames c).map Operation.shown := by
  cases c with
  | resizeGap o u fitting => exact judgeResizedGap_shown o u
  | rename | replace | retype | move | fillGap | insert | append | delete | deleteNamespace => rfl

section Script

variable (strictRenames allowAppend : Bool) (gaps : List Variable)

theorem judgeStep_shown (before : List VariableEdit) (step : VariableEdit)
    (rest : List VariableEdit) :
    judgeStep strictRenames allowAppend (gaps.map Variable.shown) (before.map shownEdit)
        (shownEdit step) (rest.map shownEdit) =
      (judgeStep strictRenames allowAppend gaps before step rest).map
        (List.map Operation.shown) := by
  cases step with
  | equal a b => rfl
  | substitute a b c =>
    change (judgePair strictRenames c.shown).map _ = _
    rw [judgePair_shown]
    change ((judgePair strictRenames c).map _).map _ = ((judgePair strictRenames c).map _).map _
    cases judgePair strictRenames c <;> rfl
  | append u => cases allowAppend <;> rfl
  | insert u =>
    change Except.ok (if (gaps.map Variable.shown).any (fun g => u.shown.startsIn g) then _ else _) =
      Except.ok (List.map _ (if gaps.any (fun g => u.startsIn g) then _ else _))
    rw [List.any_map, show (fun g => u.shown.startsIn g) ∘ Variable.shown = fun g => u.startsIn g
      from rfl]
    split <;> rfl
  | delete o =>
    have hadded : (leadingAdded (before.map shownEdit)).reverse ++
        leadingAdded (rest.map shownEdit) =
        ((leadingAdded before).reverse ++ leadingAdded rest).map Variable.shown := by
      rw [leadingAdded_shown, leadingAdded_shown, List.map_append, List.map_reverse]
    change (if o.isGap = true then _ else _) = Except.map _ (if o.isGap = true then _ else _)
    split
    · rw [hadded, forM_shown (f := demandEnd) fun _ => rfl, judgeRemovedGap_shown]
      cases (((leadingAdded before).reverse ++ leadingAdded rest).forM demandEnd) <;> rfl
    · rfl

theorem judgeSteps_shown (before script : List VariableEdit) :
    judgeSteps strictRenames allowAppend (gaps.map Variable.shown) (before.map shownEdit)
        (script.map shownEdit) =
      (judgeSteps strictRenames allowAppend gaps before script).map (List.map Operation.shown) := by
  induction script generalizing before with
  | nil => rfl
  | cons step rest ih =>
    rw [List.map_cons, judgeSteps, judgeSteps]
    refine bind_of_map (judgeStep_shown strictRenames allowAppend gaps before step rest) fun here => ?_
    refine bind_of_map (ih (step :: before)) fun later => ?_
    exact congrArg Except.ok List.map_append.symm

end Script

theorem operations_shown (strictRenames allowAppend : Bool) (former updated : List Variable)
    (rows : List (List (Option Change))) :
    operations strictRenames allowAppend (former.map Variable.shown) (updated.map Variable.shown)
        (Alignment.mapRows Change.shown rows) =
      (operations strictRenames allowAppend former updated rows).map (List.map Operation.shown) := by
  have hgaps : (former.map Variable.shown).filter Variable.isGap =
      (former.filter Variable.isGap).map Variable.shown := List.filter_map
  unfold operations
  rw [Alignment.edits?_map (t := tariff former.toArray updated.toArray) (k := Change.shown)
    pairPrice_shown (congrArg _ (tariff_shown former updated))
    (congrArg _ (tariff_shown former updated))]
  cases Alignment.edits? (tariff former.toArray updated.toArray) former updated rows with
  | none => rfl
  | some script =>
    change judge _ _ _ _ = _
    unfold judge
    rw [hgaps]
    exact judgeSteps_shown strictRenames allowAppend _ [] script

/-! ## Runs -/

/-- Two memories hold the same, up to what is shown. -/
structure Memory.ShownAs (memory memory' : Memory) : Prop where
  known : ∀ key : PairKey,
    memory'.known[key]? = (memory.known[key]?).map (Option.map TypeChange.shown)
  unchecked : memory'.uncheckedCustomTypes = memory.uncheckedCustomTypes

/-- From memories that show the same, two comparisons find the same, up to a map, or are stopped by the
same obstacle, and they remember the same. -/
def Renders {α β : Type} (f : α → β) (x : Comparison α) (y : Comparison β) : Prop :=
  ∀ memory memory', Memory.ShownAs memory memory' →
    (y.run.run memory').1 = (x.run.run memory).1.map f ∧
      (x.run.run memory).2.ShownAs (y.run.run memory').2

namespace Renders

variable {α α' β β' : Type} {f : α → α'} {g : β → β'}

theorem pure (f : α → α') (a : α) :
    Renders f (Pure.pure a : Comparison α) (Pure.pure (f a)) := fun _ _ h => ⟨rfl, h⟩

theorem throw (f : α → α') (e : Obstacle) :
    Renders f (MonadExcept.throw e : Comparison α) (MonadExcept.throw e) := fun _ _ h => ⟨rfl, h⟩

theorem lift {x : Except Obstacle α} {y : Except Obstacle α'} (h : y = x.map f) :
    Renders f (liftObstacle x) (liftObstacle y) := by
  subst h
  cases x with
  | ok a => exact pure f a
  | error e => exact throw f e

theorem bind {x : Comparison α} {y : Comparison α'} {k : α → Comparison β}
    {k' : α' → Comparison β'} (hxy : Renders f x y) (hk : ∀ a, Renders g (k a) (k' (f a))) :
    Renders g (x >>= k) (y >>= k') := by
  intro memory memory' h
  obtain ⟨hvalue, hmemory⟩ := hxy memory memory' h
  rw [run_bind, run_bind]
  rcases hx : x.run.run memory with ⟨a | e, memory₁⟩
  all_goals
    rcases hy : y.run.run memory' with ⟨b, memory₁'⟩
    rw [hx, hy] at hvalue hmemory
    obtain rfl : b = _ := hvalue
  · exact ⟨rfl, hmemory⟩
  · exact hk _ memory₁ memory₁' hmemory

theorem mapM {l : List α} {e : α → α'} {k : α → Comparison β} {k' : α' → Comparison β'}
    (h : ∀ a ∈ l, Renders g (k a) (k' (e a))) :
    Renders (List.map g) (l.mapM k) ((l.map e).mapM k') := by
  induction l with
  | nil => exact pure (List.map g) []
  | cons a l ih =>
    rw [List.map_cons, List.mapM_cons, List.mapM_cons]
    refine bind (h a List.mem_cons_self) fun b => ?_
    refine bind (ih fun a' ha' => h a' (List.mem_cons_of_mem a ha')) fun bs => ?_
    exact pure (List.map g) (b :: bs)

end Renders

/-! ## Lists of variables -/

section Lists

variable {inner inner' : CompareTypes Comparison}

theorem variableChange_renders {x y : Comparison (Option TypeChange)}
    (h : Renders (Option.map TypeChange.shown) x y) (siblings : List Variable) (index : Nat)
    (o u : Variable) :
    Renders (Option.map Change.shown) (variableChange x siblings index o u)
      (variableChange y (siblings.map Variable.shown) index o.shown u.shown) := by
  unfold variableChange
  rw [show (o.shown.isGap && u.shown.isGap && sameGapElement o.shown.type u.shown.type) =
      (o.isGap && u.isGap && sameGapElement o.type u.type) from rfl,
    show (o.shown.position? == u.shown.position? && o.shown.type.length? == u.shown.type.length?) =
      (o.position? == u.position? && o.type.length? == u.type.length?) from rfl,
    show declaresType o.shown u.shown = declaresType o u from rfl]
  split
  · split
    · exact .pure (Option.map Change.shown) none
    · exact .pure (Option.map Change.shown) (some (.resizeGap o u none))
  · split
    · have hgravest := gravestChange_shown siblings index o u none
      rw [Option.map_none] at hgravest
      rw [hgravest]
      exact .pure _ _
    · refine .bind h fun type => ?_
      rw [gravestChange_shown]
      exact .pure _ _

theorem checkedChange_renders {o u : TypeNode} {a : Bool}
    (h : Renders (Option.map TypeChange.shown) (inner o u a) (inner' o.shown u.shown a)) :
    Renders (Option.map TypeChange.shown) (checkedChange inner o u a)
      (checkedChange inner' o.shown u.shown a) := by
  unfold checkedChange
  refine .bind h fun found => ?_
  rw [Option.isSome_map]
  have hdemand (n : Option Nat) : Renders id (liftObstacle (demand n) : Comparison Unit)
      (liftObstacle (demand n)) := .lift (by cases n <;> rfl)
  split
  · exact .bind (hdemand _) fun _ => .bind (hdemand _) fun _ => .pure _ found
  · exact .pure _ found

/-- The comparisons of the types of variables show the same. -/
def TypesRender (inner inner' : CompareTypes Comparison) (former updated : List Variable) : Prop :=
  ∀ o ∈ former, ∀ u ∈ updated, ∀ a,
    Renders (Option.map TypeChange.shown) (inner o.type u.type a) (inner' o.shown.type u.shown.type a)

theorem differences_renders {former updated : List Variable} (a : Bool)
    (h : TypesRender inner inner' former updated) :
    Renders (Alignment.mapRows Change.shown) (differences inner former updated a)
      (differences inner' (former.map Variable.shown) (updated.map Variable.shown) a) := by
  unfold differences
  rw [List.zipIdx_map, List.length_map]
  refine .mapM fun oi hoi => .mapM fun u hu => ?_
  exact variableChange_renders (h oi.1 (List.fst_mem_of_mem_zipIdx hoi) u hu _) former oi.2 oi.1 u

theorem listChanges_renders (strictRenames a : Bool) {former updated : List Variable}
    (h : TypesRender inner inner' former updated) :
    Renders (List.map Operation.shown) (listChanges strictRenames inner former updated a)
      (listChanges strictRenames inner' (former.map Variable.shown) (updated.map Variable.shown)
        a) := by
  have hgaps : Renders id (liftObstacle (demandGaps former updated) : Comparison Unit)
      (liftObstacle (demandGaps (former.map Variable.shown) (updated.map Variable.shown))) := by
    rw [demandGaps_shown]
    exact .lift (by cases demandGaps former updated <;> rfl)
  unfold listChanges
  refine .bind hgaps fun _ => .bind (differences_renders a fun o ho u hu a => ?_) fun rows => ?_
  · exact checkedChange_renders (h o ho u hu a)
  · exact .lift (operations_shown strictRenames a former updated rows)

end Lists

/-! ## Types -/

section Types

variable {leniency : Leniency} {og ug : TypeGraph} {inner inner' : CompareTypes Comparison}
  (o u : TypeNode)

theorem noteUnchecked_renders : Renders id noteUnchecked noteUnchecked :=
  fun _ _ h => ⟨rfl, h.known, rfl⟩

theorem unknownMembers_renders :
    Renders (Option.map TypeChange.shown) (unknownMembers leniency noteUnchecked o u)
      (unknownMembers leniency noteUnchecked o.shown u.shown) := by
  unfold unknownMembers
  split
  · exact .bind noteUnchecked_renders fun _ => .pure (Option.map TypeChange.shown) none
  · exact .pure (Option.map TypeChange.shown) (some (.mismatch .missingMembers o u))

theorem enumChange_renders :
    Renders (Option.map TypeChange.shown) (enumChange leniency noteUnchecked o u)
      (enumChange leniency noteUnchecked o.shown u.shown) := by
  have hunknown : Renders (Option.map TypeChange.shown) (unknownMembers leniency noteUnchecked o u)
      (unknownMembers leniency noteUnchecked o.shown u.shown) := unknownMembers_renders o u
  unfold enumChange
  rw [show o.shown.members = o.members.map Members.shown from rfl,
    show u.shown.members = u.members.map Members.shown from rfl]
  cases o.members with
  | none => exact hunknown
  | some om =>
    cases u.members with
    | none => exact hunknown
    | some um =>
      dsimp only [Option.map_some]
      rw [Members.names?_shown, Members.names?_shown]
      split
      · split
        · exact .pure (Option.map TypeChange.shown) (some (.mismatch .enumResize o u))
        · split
          · exact .throw _ _
          · split
            · exact .pure (Option.map TypeChange.shown) none
            · exact .pure (Option.map TypeChange.shown) (some (.enumNames o u _))
      · exact .throw _ _

/-- The comparisons of the types of two graphs show the same. -/
def GraphsRender (og ug : TypeGraph) (inner inner' : CompareTypes Comparison) : Prop :=
  ∀ i j a, Renders (Option.map TypeChange.shown) (inner (og.node i) (ug.node j) a)
    (inner' (og.shown.node i) (ug.shown.node j) a)

variable {o u} (h : GraphsRender og ug inner inner')
include h

theorem structChange_renders (a : Bool) :
    Renders (Option.map TypeChange.shown) (structChange leniency noteUnchecked og ug inner o u a)
      (structChange leniency noteUnchecked og.shown ug.shown inner' o.shown u.shown a) := by
  have hunknown : Renders (Option.map TypeChange.shown) (unknownMembers leniency noteUnchecked o u)
      (unknownMembers leniency noteUnchecked o.shown u.shown) := unknownMembers_renders o u
  unfold structChange
  rw [show o.shown.members = o.members.map Members.shown from rfl,
    show u.shown.members = u.members.map Members.shown from rfl]
  cases o.members with
  | none => exact hunknown
  | some om =>
    cases u.members with
    | none => exact hunknown
    | some um =>
      dsimp only [Option.map_some]
      rw [Members.items?_shown, Members.items?_shown]
      cases om.items? with
      | none => exact .throw _ _
      | some os =>
        cases um.items? with
        | none => exact .throw _ _
        | some us =>
          have hvars (g : TypeGraph) (is : List Item) :
              (is.map Item.shown).map g.shown.variable = (is.map g.variable).map Variable.shown := by
            rw [List.map_map, List.map_map]
            exact List.map_congr_left fun i _ => g.variable_shown i
          dsimp only [Option.map_some]
          rw [hvars, hvars]
          refine .bind (listChanges_renders _ a fun v hv w hw a => ?_) fun ops => ?_
          · obtain ⟨i, -, rfl⟩ := List.mem_map.mp hv
            obtain ⟨j, -, rfl⟩ := List.mem_map.mp hw
            have hinner := h i.type j.type a
            rwa [og.node_shown, ug.node_shown] at hinner
          · rw [errorChanges_shown]
            cases errorChanges ops with
            | nil => exact .pure (Option.map TypeChange.shown) none
            | cons c cs => exact .pure (Option.map TypeChange.shown) (some (.structMembers o u (c :: cs) a))

theorem inside_renders (container : Container) (i j : String) (a : Bool) :
    Renders (Option.map TypeChange.shown)
      (inner (og.node i) (ug.node j) a >>= fun found => pure (found.map (.inside container o u)))
      (inner' (og.shown.node i) (ug.shown.node j) a >>= fun found =>
        pure (found.map (.inside container o.shown u.shown))) := by
  refine .bind (h i j a) fun found => ?_
  cases found with
  | none => exact .pure (Option.map TypeChange.shown) none
  | some t => exact .pure (Option.map TypeChange.shown) (some (.inside container o u t))

theorem elementChange_renders (oArgs uArgs : List String) :
    Renders (Option.map TypeChange.shown) (elementChange og ug inner o u oArgs uArgs)
      (elementChange og.shown ug.shown inner' o.shown u.shown oArgs uArgs) := by
  unfold elementChange
  split
  · exact inside_renders h .arrayValue _ _ false
  · exact .throw _ _

theorem mappingChange_renders (oArgs uArgs : List String) :
    Renders (Option.map TypeChange.shown) (mappingChange og ug inner o u oArgs uArgs)
      (mappingChange og.shown ug.shown inner' o.shown u.shown oArgs uArgs) := by
  unfold mappingChange
  split
  · exact inside_renders h .mappingValue _ _ true
  · exact .throw _ _

theorem arrayChange_renders (oArgs uArgs : List String) (a : Bool) :
    Renders (Option.map TypeChange.shown) (arrayChange og ug inner o u oArgs uArgs a)
      (arrayChange og.shown ug.shown inner' o.shown u.shown oArgs uArgs a) := by
  have hdemand (n : Option Nat) : Renders id (liftObstacle (demand n) : Comparison Unit)
      (liftObstacle (demand n)) := .lift (by cases n <;> rfl)
  have hmismatch (reason : Mismatch) : Renders (Option.map TypeChange.shown)
      (pure (some (.mismatch reason o u)))
      (pure (some (.mismatch reason o.shown u.shown))) :=
    .pure (Option.map TypeChange.shown) (some (.mismatch reason o u))
  have helement := elementChange_renders (o := o) (u := u) h oArgs uArgs
  unfold arrayChange
  refine .bind (hdemand _) fun _ => .bind (hdemand _) fun _ => ?_
  rw [show o.shown.length? = o.length? from rfl, show u.shown.length? = u.length? from rfl]
  split
  · exact hmismatch .unknown
  · exact hmismatch .unknown
  · exact helement
  · split
    · exact hmismatch .arrayShrink
    · split
      · exact hmismatch .arrayGrow
      · exact helement
  · exact hmismatch .arrayDynamic

theorem typeChangeWith_renders (a : Bool) :
    Renders (Option.map TypeChange.shown) (typeChangeWith leniency noteUnchecked og ug inner o u a)
      (typeChangeWith leniency noteUnchecked og.shown ug.shown inner' o.shown u.shown a) := by
  have hobvious : Renders (Option.map TypeChange.shown) (pure (some (.mismatch .obvious o u)))
      (pure (some (.mismatch .obvious o.shown u.shown))) :=
    .pure (Option.map TypeChange.shown) (some (.mismatch .obvious o u))
  have hnone : Renders (Option.map TypeChange.shown) (pure none) (pure none) :=
    .pure (Option.map TypeChange.shown) none
  have hvalue : valueTypeChange o.shown u.shown = (valueTypeChange o u).map TypeChange.shown := by
    unfold valueTypeChange
    rw [show o.shown.numberOfBytes = o.numberOfBytes from rfl,
      show u.shown.numberOfBytes = u.numberOfBytes from rfl]
    split
    · split <;> rfl
    · rfl
  unfold typeChangeWith
  rw [show o.shown.head = o.head from rfl, show u.shown.head = u.head from rfl,
    show o.shown.args = o.args from rfl, show u.shown.args = u.args from rfl,
    show o.shown.kind = o.kind from rfl, show o.shown.id = o.id from rfl,
    show u.shown.id = u.id from rfl]
  split
  · exact hobvious
  · split
    · split
      · exact hnone
      · rw [hvalue]
        exact .pure _ _
      · exact structChange_renders h a
      · exact enumChange_renders o u
      · exact mappingChange_renders h _ _
      · exact arrayChange_renders h _ _ a
      · split
        · exact hnone
        · exact hobvious
    · exact hobvious
    · exact hobvious
    · exact hnone

end Types

/-- A pair of types is compared with what is shown of it alike, when both are remembered alike. -/
theorem typeChange_renders {leniency : Leniency} {og ug : TypeGraph} (fuel : Nat)
    (openPairs : List PairKey) (o u : TypeNode) (a : Bool) :
    Renders (Option.map TypeChange.shown) (typeChange leniency og ug fuel openPairs o u a)
      (typeChange leniency og.shown ug.shown fuel openPairs o.shown u.shown a) := by
  induction fuel generalizing openPairs o u a with
  | zero => exact .throw _ _
  | succ fuel ih =>
    intro memory memory' h
    have hinner : GraphsRender og ug
        (typeChange leniency og ug fuel ((o.id, u.id, a) :: openPairs))
        (typeChange leniency og.shown ug.shown fuel ((o.id, u.id, a) :: openPairs)) := by
      intro i j b
      rw [og.node_shown, ug.node_shown]
      exact ih _ _ _ _
    have hrenders : Renders (Option.map TypeChange.shown)
        (typeChangeWith leniency noteUnchecked og ug _ o u a)
        (typeChangeWith leniency noteUnchecked og.shown ug.shown _ o.shown u.shown a) :=
      typeChangeWith_renders hinner a
    obtain ⟨hvalue, hmemory⟩ := hrenders memory memory' h
    rw [run_typeChange_succ, run_typeChange_succ, show o.shown.id = o.id from rfl,
      show u.shown.id = u.id from rfl, show u.shown.label = u.label from rfl, h.known]
    cases memory.known[((o.id, u.id, a) : PairKey)]? with
    | some found => exact ⟨rfl, h⟩
    | none =>
      dsimp only [Option.map_none]
      split
      · exact ⟨rfl, h⟩
      · rcases hx : (typeChangeWith leniency noteUnchecked og ug
          (typeChange leniency og ug fuel ((o.id, u.id, a) :: openPairs)) o u a).run.run memory
          with ⟨found | e, memory₁⟩
        all_goals
          rcases hy : (typeChangeWith leniency noteUnchecked og.shown ug.shown
            (typeChange leniency og.shown ug.shown fuel ((o.id, u.id, a) :: openPairs)) o.shown
            u.shown a).run.run memory' with ⟨b, memory₁'⟩
          rw [hx, hy] at hvalue hmemory
          obtain rfl : b = _ := hvalue
        · exact ⟨rfl, hmemory⟩
        · refine ⟨rfl, fun key => ?_, hmemory.unchecked⟩
          dsimp only [Except.map]
          rw [Std.HashMap.getElem?_insert, Std.HashMap.getElem?_insert, hmemory.known]
          split <;> rfl

/-! ## Layouts -/

theorem sectionChanges_renders {leniency : Leniency} (former updated : Resolved) :
    Renders (List.map Operation.shown) (sectionChanges leniency former updated)
      (sectionChanges leniency former.shown updated.shown) := by
  have hbound : pairBound former.shown.graph updated.shown.graph =
      pairBound former.graph updated.graph := by
    unfold pairBound Resolved.shown TypeGraph.shown
    rw [List.length_map, List.length_map]
  unfold sectionChanges
  rw [hbound, Resolved.vars_shown, Resolved.vars_shown]
  exact listChanges_renders _ true fun _ _ _ _ a => typeChange_renders _ _ _ _ a

theorem namespaceChanges_renders {leniency : Leniency} (updated former : List (String × Resolved)) :
    Renders (List.map Operation.shown) (namespaceChanges leniency updated former)
      (namespaceChanges leniency (shownResolved updated) (shownResolved former)) := by
  induction former with
  | nil => exact .pure (List.map Operation.shown) []
  | cons p rest ih =>
    obtain ⟨id, former⟩ := p
    have hlater {here : List Operation} : Renders (List.map Operation.shown)
        (namespaceChanges leniency updated rest >>= fun later => pure (here ++ later))
        (namespaceChanges leniency (shownResolved updated) (shownResolved rest) >>= fun later =>
          pure (here.map Operation.shown ++ later)) := by
      refine .bind ih fun later => ?_
      rw [← List.map_append]
      exact .pure _ _
    change Renders _ _ (namespaceChanges leniency (shownResolved updated)
      ((id, former.shown) :: shownResolved rest))
    rw [namespaceChanges, namespaceChanges,
      show (shownResolved updated).lookup id = (updated.lookup id).map Resolved.shown from
        lookup_map_values _]
    cases updated.lookup id with
    | none =>
      refine .bind (g := List.map Operation.shown) (f := List.map Operation.shown) ?_
        fun here => hlater
      have hhere := Renders.pure (List.map Operation.shown)
        [⟨.deleteNamespace id former.vars.head?, false, some id⟩]
      rw [Resolved.vars_shown, List.head?_map]
      exact hhere
    | some found =>
      refine .bind (sectionChanges_renders former found) fun ops =>
        .bind (f := List.map Operation.shown) ?_ fun here => hlater
      rw [List.map_map]
      have hops := Renders.pure (List.map Operation.shown)
        (ops.map fun op => { op with namespaceId := some id })
      rw [List.map_map] at hops
      exact hops

/-- What is shown of two layouts is compared as the layouts are. -/
theorem layouts_shown (leniency : Leniency) (former updated : Layout) :
    layouts leniency former.shown updated.shown =
      (layouts leniency former updated).map Outcome.shown := by
  have hmapError {α β : Type} {x : Except Refusal α} {y : Except Refusal β} {f : α → β}
      (h : y = x.map f) : y.mapError Failure.refused = (x.mapError Failure.refused).map f := by
    subst h
    cases x <;> rfl
  unfold layouts
  refine bind_of_map (hmapError former.resolveStorage_shown) fun os => ?_
  refine bind_of_map (hmapError updated.resolveStorage_shown) fun us => ?_
  refine bind_of_map (hmapError former.resolveNamespaces_shown) fun on => ?_
  refine bind_of_map (hmapError updated.resolveNamespaces_shown) fun un => ?_
  have hsections : Renders (List.map Operation.shown) (sectionsChanges leniency os us on un)
      (sectionsChanges leniency os.shown us.shown (shownResolved on) (shownResolved un)) := by
    refine .bind (sectionChanges_renders os us) fun storage =>
      .bind (namespaceChanges_renders un on) fun namespaces => ?_
    rw [← List.map_append]
    exact .pure _ _
  have hempty : Memory.ShownAs {} {} :=
    ⟨fun key => by rw [Std.HashMap.getElem?_empty]; rfl, rfl⟩
  obtain ⟨hvalue, hmemory⟩ := hsections {} {} hempty
  rcases hx : (sectionsChanges leniency os us on un).run.run {} with ⟨e | ops, memory⟩
  all_goals
    rcases hy : (sectionsChanges leniency os.shown us.shown (shownResolved on)
      (shownResolved un)).run.run {} with ⟨b, memory'⟩
    rw [hx, hy] at hvalue hmemory
    obtain rfl : b = _ := hvalue
  · rfl
  · change Except.ok (Outcome.mk _ _) = Except.ok (Outcome.mk _ _)
    rw [hmemory.unchecked]

/-- Layouts that show the same are compared with any other layout alike. -/
theorem layouts_sameShown {leniency : Leniency} {former former' : Layout}
    (h : former.SameShown former') (updated : Layout) :
    (layouts leniency former' updated).map Outcome.shown =
      (layouts leniency former updated).map Outcome.shown := by
  rw [← layouts_shown, ← layouts_shown]
  unfold layouts
  rw [h.resolveStorage, h.resolveNamespaces]

end UpgradeSafety.Compare
