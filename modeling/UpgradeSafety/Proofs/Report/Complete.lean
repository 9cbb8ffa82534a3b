import UpgradeSafety.Layout.Json
import UpgradeSafety.Proofs.Compare.Judgement
import UpgradeSafety.Proofs.Compare.Sections
import UpgradeSafety.Proofs.Compare.Total

/-!
# Reports are complete

Whatever a comparison finds, its report can tell. Every change concerns variables of the two
layouts, however deep it lies in types and structs, the types that it names are types of the
layouts, and only a whole namespace is deleted as such (`Change.Concerns`). This is shown along the
comparison: for a pair of variables, for the steps of a script, for each kind of type, and by
induction on the depth for plain recursion (`plainChange_concerns`), which finds the same as the
comparison of two layouts does.

From there on the report is looked at alone. The findings of a struct's members replace that of the
struct, so it is not obvious that anything is left of an operation: but members that changed have
findings of their own, and a change without any is reported as a whole (`innermost`). So each
operation has a finding (`findings_ne_nil`), and the path of a finding leads from its namespace to
a variable (`path_of_mem_findings`).

The one thing that may be missing is a number. A slot that is read from hexadecimal digits may have
more decimal digits than are written, and then nothing can be told of its move. `Told` carries this
through every text: there is a result, or a number cannot be written and the failure is that of the
number.

* `Report.tells_everything`: the report of two layouts is complete, and everything in it is told
  when the layouts can be written;
* `Report.unwritable_move`: the report of a move to a slot of 4301 digits says that the layouts do
  not fit, and fails to say why.
-/

namespace UpgradeSafety

namespace Compare

open UpgradeSafety.Alignment (Filled difference)

/-! ## What changes concern -/

/-- Items and types that changes may concern. -/
structure Scope where
  item : Item → Prop
  type : TypeNode → Prop

mutual

/-- A type change concerns a former and an updated type of two scopes, and so do the changes inside it. -/
def TypeChange.Concerns (S T : Scope) : TypeChange → Prop
  | .inside _ o u inner => S.type o ∧ T.type u ∧ inner.Concerns S T
  | .structMembers o u changes _ => S.type o ∧ T.type u ∧ AllConcern S T changes
  | .mismatch _ o u | .enumNames o u _ => S.type o ∧ T.type u

/-- A change concerns former and updated items of two scopes, and so do the changes inside it; it is
not the deletion of a namespace. -/
def Change.Concerns (S T : Scope) : Change → Prop
  | .replace o u t | .retype o u t => S.item o.item ∧ T.item u.item ∧ t.Concerns S T
  | .move o u m => S.item o.item ∧ T.item u.item ∧ move? o.item u.item = some m
  | .rename o u | .resizeGap o u _ => S.item o.item ∧ T.item u.item
  | .fillGap o _ | .delete o => S.item o.item
  | .insert u | .append u => T.item u.item
  | .deleteNamespace .. => False

/-- All changes concern items of two scopes. -/
def AllConcern (S T : Scope) : List Change → Prop
  | [] => True
  | c :: rest => c.Concerns S T ∧ AllConcern S T rest

end

variable {S T : Scope}

theorem allConcern_iff {changes : List Change} :
    AllConcern S T changes ↔ ∀ c ∈ changes, c.Concerns S T := by
  induction changes with
  | nil => simp [AllConcern]
  | cons c rest ih => simp [AllConcern, ih]

/-- What a comparison of two types finds concerns the items of two scopes. -/
def FoundConcerns (S T : Scope) (found : Except Obstacle (Option TypeChange)) : Prop :=
  ∀ t, found = .ok (some t) → t.Concerns S T

/-! ## Pairs of variables -/

section Pair

variable {o u : Variable} {siblings : List Variable} {i : Nat} {c : Change}

theorem gravestChange_concerns (ho : S.item o.item) (hu : T.item u.item) {type : Option TypeChange}
    (htype : ∀ t, type = some t → t.Concerns S T)
    (h : gravestChange siblings i o u type = some c) : c.Concerns S T := by
  have hkept : ∀ t, (if type.isSome && widens siblings i o u then none else type) = some t →
      t.Concerns S T := by
    intro t ht
    split at ht
    · cases ht
    · exact htype t ht
  unfold gravestChange at h
  dsimp only at h
  split at h
  · rename_i t ht _
    cases h
    exact ⟨ho, hu, hkept t ht⟩
  · cases h
    exact ⟨ho, hu⟩
  · rename_i t ht _
    cases h
    exact ⟨ho, hu, hkept t ht⟩
  · obtain ⟨m, hm, rfl⟩ := Option.map_eq_some_iff.mp h
    exact ⟨ho, hu, hm⟩

theorem variableChange_concerns (ho : S.item o.item) (hu : T.item u.item)
    {found : Except Obstacle (Option TypeChange)} (hfound : FoundConcerns S T found)
    (h : variableChange found siblings i o u = .ok (some c)) : c.Concerns S T := by
  unfold variableChange at h
  split at h
  · split at h
    · cases h
    · cases h
      exact ⟨ho, hu⟩
  · split at h
    · refine gravestChange_concerns ho hu ?_ (Except.ok.inj h)
      exact fun t ht => by cases ht
    · obtain ⟨type, htype, h⟩ := bind_eq_ok_iff.mp h
      refine gravestChange_concerns ho hu (fun t ht => ?_) (Except.ok.inj h)
      rw [ht] at htype
      exact hfound t htype

end Pair

/-! ## Lists of variables -/

/-- What a step of a script does with items of two scopes. -/
def EditConcerns (S T : Scope) : VariableEdit → Prop
  | .equal .. => True
  | .substitute _ _ c => c.Concerns S T
  | .insert u | .append u => T.item u.item
  | .delete o => S.item o.item

section Lists

variable {strict a : Bool} {gaps before : List Variable} {ops : List Operation}

theorem judgePair_concerns {c : Change} {op : Operation} (hc : c.Concerns S T)
    (h : judgePair strict c = .ok op) : op.change.Concerns S T := by
  unfold judgePair at h
  split at h
  · obtain ⟨_, _, rfl, -⟩ := judgeResizedGap_eq_ok h
    exact hc
  · cases h
    exact hc
  · cases h
    exact hc

theorem judgeStep_concerns {before rest : List VariableEdit} {step : VariableEdit}
    (hstep : EditConcerns S T step) (h : judgeStep strict a gaps before step rest = .ok ops) :
    ∀ op ∈ ops, op.change.Concerns S T := by
  cases step with
  | equal o u =>
    cases h
    simp
  | substitute o u c =>
    rw [judgeStep] at h
    obtain ⟨op, hop, rfl⟩ := map_eq_ok_iff.mp h
    intro op' hop'
    rw [List.mem_singleton.mp hop']
    exact judgePair_concerns hstep hop
  | append u =>
    cases h
    split
    · simp
    · exact List.forall_mem_singleton.mpr hstep
  | insert u =>
    cases h
    split
    · simp
    · exact List.forall_mem_singleton.mpr hstep
  | delete o =>
    rw [judgeStep] at h
    split at h
    · obtain ⟨_, -, h⟩ := bind_eq_ok_iff.mp h
      cases h
      exact List.forall_mem_singleton.mpr hstep
    · cases h
      exact List.forall_mem_singleton.mpr hstep

theorem judgeSteps_concerns {before script : List VariableEdit}
    (hscript : ∀ e ∈ script, EditConcerns S T e)
    (h : judgeSteps strict a gaps before script = .ok ops) :
    ∀ op ∈ ops, op.change.Concerns S T := by
  intro op hop
  obtain ⟨step, hstep, _, _, _, hhere, hop⟩ := exists_step_of_mem h hop
  exact judgeStep_concerns (hscript step hstep) hhere op hop

theorem listChanges_concerns {tc : CompareTypes (Except Obstacle)} {former updated : List Variable}
    (ho : ∀ v ∈ former, S.item v.item) (hu : ∀ v ∈ updated, T.item v.item)
    (htc : ∀ o ∈ former, ∀ u ∈ updated, ∀ b, FoundConcerns S T (tc o.type u.type b))
    (h : listChanges strict tc former updated a = .ok ops) :
    ∀ op ∈ ops, op.change.Concerns S T := by
  obtain ⟨-, rows, steps, script, hrows, -, hfilled, hjudge⟩ := listChanges_eq_ok_iff.mp h
  refine judgeSteps_concerns (fun e he => ?_) hjudge
  obtain ⟨s, -, hs⟩ := exists_of_mem_forall₂ hfilled he
  cases hs with
  | equal => trivial
  | @substitute i j o u c hoi huj hc =>
    have hchange := variableChange_eq_difference hrows hoi huj
    rw [hc] at hchange
    have homem := List.mem_of_getElem? hoi
    have humem := List.mem_of_getElem? huj
    refine variableChange_concerns (ho o homem) (hu u humem) (fun t ht => ?_) hchange
    exact htc o homem u humem _ t (checkedChange_eq_ok ht)
  | insert huj => exact hu _ (List.mem_of_getElem? huj)
  | append huj => exact hu _ (List.mem_of_getElem? huj)
  | delete hoi => exact ho _ (List.mem_of_getElem? hoi)

end Lists

/-! ## Types -/

section Types

variable {leniency : Leniency} {og ug : TypeGraph} {inner : CompareTypes (Except Obstacle)}
  {o u : TypeNode} (hot : S.type o) (hut : T.type u)
include hot hut

theorem unknownMembers_concerns :
    FoundConcerns S T (unknownMembers leniency (pure ()) o u) := by
  intro t h
  unfold unknownMembers at h
  split at h
  · cases h
  · cases h
    exact ⟨hot, hut⟩

theorem enumChange_concerns : FoundConcerns S T (enumChange leniency (pure ()) o u) := by
  intro t h
  unfold enumChange at h
  split at h
  · split at h
    · split at h
      · cases h
        exact ⟨hot, hut⟩
      · dsimp only at h
        split at h
        · cases h
        · split at h
          · cases h
          · cases h
            exact ⟨hot, hut⟩
    · cases h
  · exact unknownMembers_concerns hot hut t h

theorem valueTypeChange_concerns {t : TypeChange} (h : valueTypeChange o u = some t) :
    t.Concerns S T := by
  unfold valueTypeChange at h
  split at h
  · split at h
    · cases h
    · cases h
      exact ⟨hot, hut⟩
  · cases h
    exact ⟨hot, hut⟩

variable (hinner : ∀ i j b, FoundConcerns S T (inner (og.node i) (ug.node j) b))
include hinner

theorem structChange_concerns (ho : ∀ m ∈ o.memberItems, S.item m) (hu : ∀ m ∈ u.memberItems, T.item m)
    (a : Bool) : FoundConcerns S T (structChange leniency (pure ()) og ug inner o u a) := by
  intro t h
  unfold structChange at h
  split at h
  · rename_i om um hom hum
    split at h
    · rename_i os us hos hus
      obtain ⟨ops, hops, h⟩ := bind_eq_ok_iff.mp h
      have hall : ∀ op ∈ ops, op.change.Concerns S T := by
        refine listChanges_concerns ?_ ?_ ?_ hops
        · refine List.forall_mem_map.mpr fun m hm => ho m ?_
          rwa [memberItems_eq hom hos]
        · refine List.forall_mem_map.mpr fun m hm => hu m ?_
          rwa [memberItems_eq hum hus]
        · refine List.forall_mem_map.mpr fun m _ => List.forall_mem_map.mpr fun k _ b => ?_
          exact hinner m.type k.type b
      split at h
      · cases h
      · cases h
        refine ⟨hot, hut, allConcern_iff.mpr (List.forall_mem_map.mpr fun op hop => ?_)⟩
        exact hall op (List.mem_of_mem_filter hop)
    · cases h
  · exact unknownMembers_concerns hot hut t h

theorem mappingChange_concerns (oArgs uArgs : List String) :
    FoundConcerns S T (mappingChange og ug inner o u oArgs uArgs) := by
  intro t h
  unfold mappingChange at h
  split at h
  · rename_i i j _ _
    obtain ⟨found, hfound, h⟩ := bind_eq_ok_iff.mp h
    obtain ⟨t', rfl, rfl⟩ := Option.map_eq_some_iff.mp (Except.ok.inj h)
    exact ⟨hot, hut, hinner i j true t' hfound⟩
  · cases h

theorem elementChange_concerns (oArgs uArgs : List String) :
    FoundConcerns S T (elementChange og ug inner o u oArgs uArgs) := by
  intro t h
  unfold elementChange at h
  split at h
  · rename_i i _ j _
    obtain ⟨found, hfound, h⟩ := bind_eq_ok_iff.mp h
    obtain ⟨t', rfl, rfl⟩ := Option.map_eq_some_iff.mp (Except.ok.inj h)
    exact ⟨hot, hut, hinner i j false t' hfound⟩
  · cases h

theorem arrayChange_concerns (oArgs uArgs : List String) (a : Bool) :
    FoundConcerns S T (arrayChange og ug inner o u oArgs uArgs a) := by
  intro t h
  unfold arrayChange at h
  obtain ⟨_, -, h⟩ := bind_eq_ok_iff.mp h
  obtain ⟨_, -, h⟩ := bind_eq_ok_iff.mp h
  split at h
  · cases h
    exact ⟨hot, hut⟩
  · cases h
    exact ⟨hot, hut⟩
  · exact elementChange_concerns hot hut hinner oArgs uArgs t h
  · split at h
    · cases h
      exact ⟨hot, hut⟩
    · split at h
      · cases h
        exact ⟨hot, hut⟩
      · exact elementChange_concerns hot hut hinner oArgs uArgs t h
  · cases h
    exact ⟨hot, hut⟩

theorem typeChangeWith_concerns (ho : ∀ m ∈ o.memberItems, S.item m)
    (hu : ∀ m ∈ u.memberItems, T.item m) (a : Bool) :
    FoundConcerns S T (typeChangeWith leniency (pure ()) og ug inner o u a) := by
  intro t h
  unfold typeChangeWith at h
  split at h
  · cases h
    exact ⟨hot, hut⟩
  · split at h
    · split at h
      · cases h
      · exact valueTypeChange_concerns hot hut (Except.ok.inj h)
      · exact structChange_concerns hot hut hinner ho hu a t h
      · exact enumChange_concerns hot hut t h
      · exact mappingChange_concerns hot hut hinner _ _ t h
      · exact arrayChange_concerns hot hut hinner _ _ a t h
      · have hnode := Except.ok.inj h
        split at hnode
        · cases hnode
        · cases hnode
          exact ⟨hot, hut⟩
    · cases h
      exact ⟨hot, hut⟩
    · cases h
      exact ⟨hot, hut⟩
    · cases h

/-- The types of a graph and their members lie in a scope. -/
structure Scope.Holds (S : Scope) (g : TypeGraph) : Prop where
  type : ∀ i, S.type (g.node i)
  member : ∀ i, ∀ m ∈ (g.node i).memberItems, S.item m

omit hot hut hinner in
/-- What plain recursion finds concerns the types of two graphs and their members. -/
theorem plainChange_concerns (hog : S.Holds og) (hug : T.Holds ug) (depth : Nat) (i j : String)
    (a : Bool) : FoundConcerns S T (plainChange leniency og ug depth (og.node i) (ug.node j) a) := by
  induction depth generalizing i j a with
  | zero =>
    intro t h
    cases h
  | succ depth ih =>
    exact typeChangeWith_concerns (hog.type i) (hug.type j) ih (hog.member i) (hug.member j) a

end Types

end Compare

/-! ## Layouts -/

/-- The items of a type entry. -/
def TypeEntry.memberItems (entry : TypeEntry) : List Item :=
  (entry.members.bind Members.items?).getD []

/-- All items of a layout: those of the storage, of the struct types and of the namespaces. -/
def Layout.items (layout : Layout) : List Item :=
  layout.storage ++ layout.types.flatMap (·.2.memberItems) ++ layout.namespaces.flatMap (·.2)

/-- The types of a layout: those whose ids are joined with their entries in its table, and those of which
nothing but the id is known. -/
def Layout.HasType (layout : Layout) (n : TypeNode) : Prop :=
  ∃ id, n = .bare id ∨ n.Joins layout.types id

/-- The items and types of a layout. -/
def Layout.scope (layout : Layout) : Compare.Scope := ⟨(· ∈ layout.items), layout.HasType⟩

theorem TypeGraph.Joined.holds {layout : Layout} {g : TypeGraph} (h : g.Joined layout.types) :
    layout.scope.Holds g := by
  refine ⟨fun i => ?_, fun i m hm => ?_⟩
  · rw [TypeGraph.node]
    cases hn : g.lookup i with
    | none => exact ⟨i, Or.inl rfl⟩
    | some n => exact ⟨i, Or.inr (h.joins i n hn)⟩
  · rw [TypeGraph.node] at hm
    cases hn : g.lookup i with
    | none =>
      rw [hn] at hm
      cases hm
    | some n =>
      rw [hn] at hm
      obtain ⟨t, -, rfl⟩ := h.joins i n hn
      cases hentry : layout.types.lookup i with
      | none =>
        rw [hentry] at hm
        cases hm
      | some entry =>
        rw [hentry] at hm
        have hmem := Compare.mem_of_lookup hentry
        exact List.mem_append_left _ (List.mem_append_right _ (List.mem_flatMap.mpr ⟨_, hmem, hm⟩))

namespace Compare

/-- An operation deletes a namespace as a whole, or concerns variables of two layouts. -/
def Operation.Concerns (former updated : Layout) (op : Operation) : Prop :=
  (∃ id first, op.change = .deleteNamespace id first ∧ op.namespaceId = some id) ∨
    op.change.Concerns former.scope updated.scope

variable {leniency : Leniency}

theorem freshSection_concerns {former updated : Layout} {os us : Resolved} {ops : List Operation}
    (hos : os.Joined former.types) (hus : us.Joined updated.types)
    (ho : ∀ i ∈ os.items, i ∈ former.items) (hu : ∀ i ∈ us.items, i ∈ updated.items)
    (h : freshSection leniency os us = .ok ops) :
    ∀ op ∈ ops, op.change.Concerns former.scope updated.scope := by
  have hplain := (listChanges_fresh_iff hos.graph.keyed hus.graph.keyed).mp h
  refine listChanges_concerns (List.forall_mem_map.mpr ho) (List.forall_mem_map.mpr hu) ?_ hplain
  refine List.forall_mem_map.mpr fun m _ => List.forall_mem_map.mpr fun k _ b => ?_
  exact plainChange_concerns hos.graph.holds hus.graph.holds _ m.type k.type b

/-- Every operation that a comparison finds deletes a namespace or concerns variables of the two
layouts. -/
theorem layouts_concerns {former updated : Layout} {outcome : Outcome}
    (h : layouts leniency former updated = .ok outcome) :
    ∀ op ∈ outcome.operations, op.Concerns former updated := by
  obtain ⟨os, us, on, un, hsections, storage, parts, hstorage, hparts, hops⟩ := layouts_eq_ok h
  obtain ⟨hositems, hos⟩ := Layout.resolveStorage_joined hsections.os
  obtain ⟨husitems, hus⟩ := Layout.resolveStorage_joined hsections.us
  obtain ⟨og, hog, rfl, honitems⟩ := Layout.resolveNamespaces_joined hsections.on
  obtain ⟨ug, hug, rfl, hunitems⟩ := Layout.resolveNamespaces_joined hsections.un
  intro op hop
  rw [hops] at hop
  rcases List.mem_append.mp hop with hop | hop
  · refine Or.inr (freshSection_concerns hos hus ?_ ?_ hstorage op hop)
    · exact fun i hi => List.mem_append_left _ (List.mem_append_left _ (hositems ▸ hi))
    · exact fun i hi => List.mem_append_left _ (List.mem_append_left _ (husitems ▸ hi))
  · obtain ⟨part, hpart, hop⟩ := List.mem_flatten.mp hop
    obtain ⟨_, hmem, hfresh⟩ := exists_of_mem_forall₂ hparts hpart
    obtain ⟨p, hp, rfl⟩ := List.mem_map.mp hmem
    rw [freshNamespace] at hfresh
    split at hfresh
    · cases hfresh
      rw [List.mem_singleton.mp hop]
      exact Or.inl ⟨_, _, rfl, rfl⟩
    · rename_i found hfound
      obtain ⟨ops, hops, rfl⟩ := map_eq_ok_iff.mp hfresh
      obtain ⟨q, hq, heq⟩ := List.mem_map.mp (mem_of_lookup hfound)
      obtain ⟨-, rfl⟩ := Prod.mk.inj heq
      obtain ⟨op', hop', rfl⟩ := List.mem_map.mp hop
      have hp' : Resolved.Joined former.types ⟨og, p.2⟩ := ⟨hog, honitems p hp⟩
      have hq' : Resolved.Joined updated.types ⟨ug, q.2⟩ := ⟨hug, hunitems q hq⟩
      refine Or.inr (freshSection_concerns hp' hq' ?_ ?_ hops op' hop')
      · exact fun i hi => List.mem_append_right _ (List.mem_flatMap.mpr ⟨p, hp, hi⟩)
      · exact fun i hi => List.mem_append_right _ (List.mem_flatMap.mpr ⟨q, hq, hi⟩)

/-! ## Numbers that can be written -/

/-- The numbers of a scope can be written. -/
structure Scope.IsWritable (S : Scope) : Prop where
  item : ∀ i, S.item i → i.isWritable = true
  type : ∀ n, S.type n → isWritable? n.numberOfBytes = true

/-- A move goes from the slot of the former item to that of the updated one. -/
theorem slot_of_move? {o u : Item} {m : Move} (h : move? o u = some m) {a b : Int}
    (hslot : m.slot = some (a, b)) : o.slot = some a ∧ u.slot = some b := by
  unfold move? at h
  split at h
  · rename_i a' b' ha hb
    dsimp only at h
    split at h
    · cases h
      cases hslot
      exact ⟨ha, hb⟩
    · split at h
      · cases h
        cases hslot
      · cases h
  · cases h

end Compare

theorem Layout.isWritable_item {layout : Layout} (h : layout.isWritable = true) :
    ∀ i ∈ layout.items, i.isWritable = true := by
  rw [Layout.isWritable, Bool.and_eq_true_iff, Bool.and_eq_true_iff, List.all_eq_true,
    List.all_eq_true, List.all_eq_true] at h
  obtain ⟨⟨hstorage, htypes⟩, hnamespaces⟩ := h
  intro i hi
  rcases List.mem_append.mp hi with hi | hi
  · rcases List.mem_append.mp hi with hi | hi
    · exact hstorage i hi
    · obtain ⟨p, hp, hi⟩ := List.mem_flatMap.mp hi
      have hmembers := (Bool.and_eq_true_iff.mp (htypes p hp)).2
      rw [TypeEntry.memberItems] at hi
      cases hm : p.2.members with
      | none =>
        rw [hm] at hi
        cases hi
      | some m =>
        rw [hm] at hi hmembers
        cases m with
        | items is => exact List.all_eq_true.mp hmembers i hi
        | names ns => cases ns <;> simp [Members.items?] at hi
        | unnamed => simp [Members.items?] at hi
  · obtain ⟨p, hp, hi⟩ := List.mem_flatMap.mp hi
    exact List.all_eq_true.mp (hnamespaces p hp) i hi

theorem Layout.isWritable_size {layout : Layout} (h : layout.isWritable = true) {n : TypeNode}
    (hn : layout.HasType n) : isWritable? n.numberOfBytes = true := by
  obtain ⟨id, rfl | ⟨t, -, rfl⟩⟩ := hn
  · rfl
  · cases hentry : layout.types.lookup id with
    | none => rfl
    | some entry =>
      rw [Layout.isWritable, Bool.and_eq_true_iff, Bool.and_eq_true_iff, List.all_eq_true,
        List.all_eq_true] at h
      exact (Bool.and_eq_true_iff.mp (h.1.2 _ (Compare.mem_of_lookup hentry))).1

theorem Layout.isWritable_scope {layout : Layout} (h : layout.isWritable = true) :
    layout.scope.IsWritable :=
  ⟨layout.isWritable_item h, fun _ => layout.isWritable_size h⟩

/-! ## Texts -/

namespace Report

open Compare

/-- Something is told. When not all numbers can be written, there may be the failure of such a number
instead. -/
def Told {α : Type} (writable : Prop) (x : Except Failure α) : Prop :=
  (∃ a, x = .ok a) ∨ ¬ writable ∧ x = .error (.badValue .digitsToWrite)

section Texts

variable {α β : Type} {writable : Prop}

theorem Told.pure (a : α) : Told writable (pure a : Except Failure α) := Or.inl ⟨a, rfl⟩

theorem Told.bind {x : Except Failure α} {f : α → Except Failure β} (hx : Told writable x)
    (hf : ∀ a, Told writable (f a)) : Told writable (x >>= f) := by
  rcases hx with ⟨a, rfl⟩ | ⟨hnot, rfl⟩
  · exact hf a
  · exact Or.inr ⟨hnot, rfl⟩

theorem Told.mapM {l : List α} {f : α → Except Failure β} (h : ∀ a ∈ l, Told writable (f a)) :
    Told writable (l.mapM f) := by
  induction l with
  | nil => exact .pure []
  | cons a l ih =>
    rw [List.forall_mem_cons] at h
    rw [List.mapM_cons]
    exact h.1.bind fun b => (ih h.2).bind fun bs => .pure (b :: bs)

theorem told_decimal {n : Int} (h : writable → Numeral.isWritable n = true) :
    Told writable (decimal n) := by
  unfold decimal
  split
  · exact .pure _
  · exact Or.inr ⟨fun hwritable => absurd (h hwritable) ‹_›, rfl⟩

theorem told_sizeText {t : TypeNode} (h : writable → isWritable? t.numberOfBytes = true) :
    Told writable (sizeText t) := by
  unfold sizeText
  cases hsize : t.numberOfBytes with
  | none => exact .pure _
  | some n =>
    rw [hsize, isWritable?, Option.all_some] at h
    exact told_decimal h

theorem told_explainMove {o u : Item} {m : Move} (h : move? o u = some m)
    (ho : writable → o.isWritable = true) (hu : writable → u.isWritable = true) :
    Told writable (explainMove m) := by
  unfold explainMove
  dsimp only
  split
  · rename_i a b hslot
    obtain ⟨hoslot, huslot⟩ := slot_of_move? h hslot
    rw [Item.isWritable, hoslot, isWritable?, Option.all_some] at ho
    rw [Item.isWritable, huslot, isWritable?, Option.all_some] at hu
    exact (told_decimal ho).bind fun _ => (told_decimal hu).bind fun _ => .pure _
  · exact .pure _

variable {S T : Scope} (hS : writable → S.IsWritable) (hT : writable → T.IsWritable)
include hS hT

theorem told_explainType :
    ∀ t : TypeChange, t.Concerns S T → Told writable (explainType t)
  | .mismatch reason o u, ht => by
    rw [explainType]
    cases reason with
    | typeResize =>
      have hformer : Told writable (sizeText o) :=
        told_sizeText fun hwritable => (hS hwritable).type o ht.1
      have hupdated : Told writable (sizeText u) :=
        told_sizeText fun hwritable => (hT hwritable).type u ht.2
      exact hformer.bind fun _ => hupdated.bind fun _ => .pure _
    | obvious | enumResize | arrayShrink | arrayGrow | arrayDynamic | missingMembers | unknown =>
      exact .pure _
  | .inside _ _ _ inner, ht => (told_explainType inner ht.2.2).bind fun _ => .pure _
  | .structMembers .., _ | .enumNames .., _ => .pure _

theorem told_explainWith {place : Place} {note : Bool}
    {details : TypeChange → Except Failure (List String)}
    (h : ∀ t : TypeChange, t.Concerns S T → Told writable (details t)) {c : Change}
    (hc : c.Concerns S T) : Told writable (explainWith place note details c) := by
  cases c with
  | retype o u t =>
    exact (told_explainType hS hT t hc.2.2).bind fun _ => (h t hc.2.2).bind fun _ => .pure _
  | move o u m =>
    have hmove := told_explainMove hc.2.2 (fun hwritable => (hS hwritable).item _ hc.1)
      fun hwritable => (hT hwritable).item _ hc.2.1
    exact hmove.bind fun _ => .pure _
  | rename | replace | resizeGap | fillGap | insert | append | delete | deleteNamespace =>
    exact .pure _

theorem told_explainMember {allowAppend : Bool} {c : Change} (hc : c.Concerns S T) :
    Told writable (explainMember allowAppend c) :=
  told_explainWith hS hT (fun _ _ => .pure _) hc

theorem told_memberDetails {t : TypeChange} (ht : t.Concerns S T) :
    Told writable (memberDetails t) := by
  cases t with
  | structMembers o u changes allowAppend =>
    have hmembers : Told writable (changes.mapM (explainMember allowAppend)) :=
      .mapM fun c hc => told_explainMember hS hT (allConcern_iff.mp ht.2.2 c hc)
    exact hmembers.bind fun _ => .pure _
  | mismatch | inside | enumNames => exact .pure _

omit hS hT in
theorem concerns_of_mem_innerChanges {t t' : TypeChange} (ht : t.Concerns S T)
    (h : t' ∈ innerChanges t) : t'.Concerns S T := by
  cases t with
  | inside container o u inner =>
    rw [List.mem_singleton.mp h]
    exact ht.2.2
  | structMembers o u changes allowAppend =>
    obtain ⟨c, hc, hinner⟩ := List.mem_filterMap.mp h
    have hconcerns := allConcern_iff.mp ht.2.2 c hc
    cases c with
    | retype o u t =>
      cases hinner
      exact hconcerns.2.2
    | rename | replace | move | resizeGap | fillGap | insert | append | delete | deleteNamespace =>
      cases hinner
  | mismatch | enumNames => cases h

omit hS hT in
theorem concerns_of_mem_levels {depth : Nat} {level : List TypeChange}
    (hlevel : ∀ t ∈ level, t.Concerns S T) : ∀ t ∈ levels depth level, t.Concerns S T := by
  induction depth generalizing level with
  | zero => simp [levels]
  | succ depth ih =>
    rw [levels, List.forall_mem_append]
    refine ⟨hlevel, ih fun t ht => ?_⟩
    obtain ⟨outer, houter, ht⟩ := List.mem_flatMap.mp ht
    exact concerns_of_mem_innerChanges (hlevel outer houter) ht

theorem told_typeDetails (t : TypeChange) (ht : t.Concerns S T) : Told writable (typeDetails t) := by
  have hlevels : ∀ t' ∈ levels (typeDepth t) [t], t'.Concerns S T :=
    concerns_of_mem_levels (List.forall_mem_singleton.mpr ht)
  have hdetails : Told writable ((levels (typeDepth t) [t]).mapM memberDetails) :=
    .mapM fun t' ht' => told_memberDetails hS hT (hlevels t' ht')
  exact hdetails.bind fun _ => .pure _

theorem told_explainChange {note : Bool} {c : Change} (hc : c.Concerns S T) :
    Told writable (explainChange note c) :=
  told_explainWith hS hT (told_typeDetails hS hT) hc

end Texts

/-! ## Findings -/

section Findings

variable {writable : Prop} {S T : Scope}

theorem told_ownFinding {c : Change} {path : List String} {message : Except Failure String}
    (h : Told writable message) : Told writable (ownFinding c path message) :=
  h.bind fun _ => .pure _

theorem told_innermost {inside own : Except Failure (List Finding)} (hinside : Told writable inside)
    (hown : Told writable own) : Told writable (innermost inside own) := by
  refine hinside.bind fun found => ?_
  cases found with
  | nil => exact hown
  | cons f found => exact .pure _

mutual

theorem told_memberFindings (hS : writable → S.IsWritable) (hT : writable → T.IsWritable)
    (above : List String) (struct : String) :
    ∀ c : Change, c.Concerns S T → Told writable (memberFindings above struct c)
  | .replace o u t, hc | .retype o u t, hc => by
    rw [memberFindings]
    exact told_innermost (told_insideFindings hS hT _ t hc.2.2)
      (told_ownFinding (told_explainMember hS hT hc))
  | .rename .., hc | .move .., hc | .resizeGap .., hc | .fillGap .., hc | .insert _, hc
  | .append _, hc | .delete _, hc | .deleteNamespace .., hc => by
    unfold memberFindings
    exact told_ownFinding (told_explainMember hS hT hc)

theorem told_insideFindings (hS : writable → S.IsWritable) (hT : writable → T.IsWritable)
    (path : List String) :
    ∀ t : TypeChange, t.Concerns S T → Told writable (insideFindings path t)
  | .inside _ _ _ inner, ht => told_insideFindings hS hT path inner ht.2.2
  | .structMembers _ _ changes _, ht => told_allMemberFindings hS hT path _ changes ht.2.2
  | .mismatch .., _ | .enumNames .., _ => .pure _

theorem told_allMemberFindings (hS : writable → S.IsWritable) (hT : writable → T.IsWritable)
    (above : List String) (struct : String) :
    ∀ changes, AllConcern S T changes → Told writable (allMemberFindings above struct changes)
  | [], _ => .pure _
  | c :: rest, h => (told_memberFindings hS hT above struct c h.1).bind fun _ =>
    (told_allMemberFindings hS hT above struct rest h.2).bind fun _ => .pure _

end

theorem told_findings (hS : writable → S.IsWritable) (hT : writable → T.IsWritable) {op : Operation}
    (hop : op.change.Concerns S T) : Told writable (findings op) := by
  obtain ⟨change, note, space⟩ := op
  have hown (path : List String) :
      Told writable (ownFinding change path (explainChange note change)) :=
    told_ownFinding (told_explainChange hS hT hop)
  cases change with
  | replace o u t | retype o u t =>
    exact told_innermost (told_insideFindings hS hT _ t hop.2.2) (hown _)
  | deleteNamespace => exact hop.elim
  | rename | move | resizeGap | fillGap | insert | append | delete => exact hown _

/-- Findings, if there are any, lie below a path. -/
def Below (path : List String) (found : Except Failure (List Finding)) : Prop :=
  ∀ fs, found = .ok fs → ∀ f ∈ fs, path <+: f.path

theorem ownFinding_eq_ok {c : Change} {path : List String} {message : Except Failure String}
    {found : List Finding} (h : ownFinding c path message = .ok found) :
    ∃ text, found = [⟨c.kindName, path, text⟩] := by
  obtain ⟨text, -, h⟩ := bind_eq_ok_iff.mp h
  exact ⟨text, (Except.ok.inj h).symm⟩

theorem innermost_eq_ok {inside own : Except Failure (List Finding)} {found : List Finding}
    (h : innermost inside own = .ok found) :
    own = .ok found ∨ inside = .ok found ∧ found ≠ [] := by
  obtain ⟨fs, hfs, h⟩ := bind_eq_ok_iff.mp h
  cases fs with
  | nil => exact Or.inl h
  | cons f fs =>
    cases h
    exact Or.inr ⟨hfs, List.cons_ne_nil _ _⟩

theorem below_ownFinding {c : Change} {above path : List String} {message : Except Failure String}
    (h : above <+: path) : Below above (ownFinding c path message) := by
  intro found hfound f hf
  obtain ⟨text, rfl⟩ := ownFinding_eq_ok hfound
  rw [List.mem_singleton.mp hf]
  exact h

theorem below_innermost {path : List String} {inside own : Except Failure (List Finding)}
    (hinside : Below path inside) (hown : Below path own) : Below path (innermost inside own) := by
  intro found hfound
  rcases innermost_eq_ok hfound with hfound | ⟨hfound, -⟩
  · exact hown found hfound
  · exact hinside found hfound

theorem Below.mono {above path : List String} {found : Except Failure (List Finding)}
    (h : Below path found) (habove : above <+: path) : Below above found :=
  fun fs hfs f hf => habove.trans (h fs hfs f hf)

mutual

theorem below_memberFindings (above : List String) (struct : String) :
    ∀ c : Change, Below above (memberFindings above struct c)
  | .replace o u t | .retype o u t => by
    rw [memberFindings]
    exact below_innermost ((below_insideFindings _ t).mono (List.prefix_append _ _))
      (below_ownFinding (List.prefix_append _ _))
  | .rename .. | .move .. | .resizeGap .. | .fillGap .. | .insert _ | .append _ | .delete _
  | .deleteNamespace .. => by
    unfold memberFindings
    exact below_ownFinding (List.prefix_append _ _)

theorem below_insideFindings (path : List String) :
    ∀ t : TypeChange, Below path (insideFindings path t)
  | .inside _ _ _ inner => below_insideFindings path inner
  | .structMembers _ _ changes _ => below_allMemberFindings path _ changes
  | .mismatch .. | .enumNames .. => by
    intro found hfound f hf
    cases hfound
    cases hf

theorem below_allMemberFindings (above : List String) (struct : String) :
    ∀ changes : List Change, Below above (allMemberFindings above struct changes)
  | [] => by
    intro found hfound f hf
    cases hfound
    cases hf
  | c :: rest => by
    intro found hfound f hf
    rw [allMemberFindings] at hfound
    obtain ⟨here, hhere, hfound⟩ := bind_eq_ok_iff.mp hfound
    obtain ⟨later, hlater, hfound⟩ := bind_eq_ok_iff.mp hfound
    cases hfound
    rcases List.mem_append.mp hf with hf | hf
    · exact below_memberFindings above struct c here hhere f hf
    · exact below_allMemberFindings above struct rest later hlater f hf

end

/-- Every operation whose findings can be told has one. -/
theorem findings_ne_nil {op : Operation} {found : List Finding} (h : findings op = .ok found) :
    found ≠ [] := by
  have hown {c : Change} {path : List String} {message : Except Failure String}
      (h : ownFinding c path message = .ok found) : found ≠ [] := by
    obtain ⟨text, rfl⟩ := ownFinding_eq_ok h
    exact List.cons_ne_nil _ _
  obtain ⟨change, note, space⟩ := op
  cases change with
  | replace o u t | retype o u t =>
    rcases innermost_eq_ok h with h | ⟨-, h⟩
    · exact hown h
    · exact h
  | rename | move | resizeGap | fillGap | insert | append | delete | deleteNamespace => exact hown h

/-- The path under which an operation on a variable is reported. -/
def operationPath (op : Operation) : List String :=
  (match op.namespaceId with
    | some id => if id.isEmpty then [] else [id]
    | none => []) ++ [(op.change.subject?.map segment).getD ""]

/-- The findings of an operation on variables lie below its path. -/
theorem below_findings {op : Operation} (hop : op.change.Concerns S T) :
    Below (operationPath op) (findings op) := by
  obtain ⟨change, note, space⟩ := op
  cases change with
  | replace o u t | retype o u t =>
    exact below_innermost (below_insideFindings _ t) (below_ownFinding List.prefix_rfl)
  | deleteNamespace => exact hop.elim
  | rename | move | resizeGap | fillGap | insert | append | delete =>
    exact below_ownFinding List.prefix_rfl

/-- The path of a finding is not empty, and the finding of a namespace's operation has the namespace
in front. -/
theorem path_of_mem_findings {former updated : Layout} {op : Operation}
    (hop : op.Concerns former updated) {found : List Finding} (hfound : findings op = .ok found) :
    ∀ f ∈ found, f.path ≠ [] ∧ ∀ id, op.namespaceId = some id → id ≠ "" → f.path.head? = some id := by
  intro f hf
  rcases hop with ⟨id, first, hchange, hid⟩ | hop
  · rw [findings, hchange] at hfound
    obtain ⟨text, rfl⟩ := ownFinding_eq_ok hfound
    rw [List.mem_singleton.mp hf, hid]
    exact ⟨List.cons_ne_nil _ _, fun id' h _ => h⟩
  · obtain ⟨rest, hrest⟩ := below_findings hop found hfound f hf
    rw [← hrest, operationPath]
    refine ⟨by simp, fun id hid hne => ?_⟩
    rw [hid]
    simp [hne]

end Findings

/-! ## Reports -/

/-- A report tells all there is. -/
structure IsComplete (r : Report) : Prop where
  ok_iff : r.ok = true ↔ r.errors = .ok []
  nonempty : ∀ op ∈ r.operations, findings op ≠ .ok []
  error : ∀ found, r.errors = .ok found → ∀ op ∈ r.errorOperations,
    ∃ own, findings op = .ok own ∧ own ≠ [] ∧ own ⊆ found
  note : ∀ found, r.notes = .ok found → ∀ op ∈ r.noteOperations,
    ∃ own, findings op = .ok own ∧ own ≠ [] ∧ own ⊆ found
  path : ∀ op ∈ r.operations, ∀ found, findings op = .ok found → ∀ f ∈ found, f.path ≠ [] ∧
    ∀ id, op.namespaceId = some id → id ≠ "" → f.path.head? = some id

/-- Everything in a report is told, unless there are numbers that cannot be written. -/
structure IsTold (writable : Prop) (r : Report) : Prop where
  findings : ∀ op ∈ r.operations, Told writable (findings op)
  errors : Told writable r.errors
  notes : Told writable r.notes
  explain : ∀ color, Told writable (r.explain color)
  explainNotes : ∀ color, Told writable (r.explainNotes color)
  toJson : Told writable r.toJson

/-- The findings of an operation are among those of all. -/
theorem findings_of_mem {ops : List Operation} {found : List Finding} (h : allFindings ops = .ok found)
    {op : Operation} (hop : op ∈ ops) : ∃ own, findings op = .ok own ∧ own ≠ [] ∧ own ⊆ found := by
  obtain ⟨parts, hparts, h⟩ := bind_eq_ok_iff.mp h
  cases h
  obtain ⟨i, hi⟩ := List.getElem?_of_mem hop
  obtain ⟨own, hown, hfindings⟩ := getElem?_of_forall₂ (mapM_eq_ok_iff.mp hparts) hi
  exact ⟨own, hfindings, findings_ne_nil hfindings,
    (List.sublist_flatten_of_mem (List.mem_of_getElem? hown)).subset⟩

theorem isComplete_of_concerns {former updated : Layout} {ops : List Operation}
    (h : ∀ op ∈ ops, op.Concerns former updated) : (Report.mk ops).IsComplete := by
  refine ⟨?_, fun op _ hnone => findings_ne_nil hnone rfl,
    fun found hfound op hop => findings_of_mem hfound hop,
    fun found hfound op hop => findings_of_mem hfound hop,
    fun op hop found hfound => path_of_mem_findings (h op hop) hfound⟩
  rw [ok, List.isEmpty_iff]
  constructor
  · intro hnone
    rw [errors, hnone]
    rfl
  · intro hnone
    refine List.eq_nil_iff_forall_not_mem.mpr fun op hop => ?_
    obtain ⟨own, -, hne, hsub⟩ := findings_of_mem hnone hop
    exact hne (List.subset_nil.mp hsub)

theorem isTold_of_concerns {writable : Prop} {former updated : Layout} {ops : List Operation}
    (hformer : writable → former.isWritable = true) (hupdated : writable → updated.isWritable = true)
    (h : ∀ op ∈ ops, op.Concerns former updated) : (Report.mk ops).IsTold writable := by
  have hS (hwritable : writable) := former.isWritable_scope (hformer hwritable)
  have hT (hwritable : writable) := updated.isWritable_scope (hupdated hwritable)
  have hfindings : ∀ op ∈ ops, Told writable (Report.findings op) := by
    intro op hop
    rcases h op hop with ⟨id, first, hchange, -⟩ | hchange
    · rw [Report.findings, hchange]
      exact .pure _
    · exact told_findings hS hT hchange
  have hexplain : ∀ op ∈ ops, Told writable (explainChange op.note op.change) := by
    intro op hop
    rcases h op hop with ⟨id, first, hchange, -⟩ | hchange
    · rw [hchange]
      exact .pure _
    · exact told_explainChange hS hT hchange
  have hall (p : Operation → Bool) : Told writable (allFindings (ops.filter p)) := by
    refine Told.bind (.mapM fun op hop => ?_) fun _ => .pure _
    exact hfindings op (List.mem_of_mem_filter hop)
  have htexts (color : Bool) (p : Operation → Bool) :
      Told writable (explainAll color (ops.filter p)) := by
    refine Told.bind (.mapM fun op hop => ?_) fun _ => .pure _
    exact (hexplain op (List.mem_of_mem_filter hop)).bind fun _ => .pure _
  exact ⟨hfindings, hall _, hall _, fun color => htexts color _, fun color => htexts color _,
    (hall _).bind fun _ => (hall _).bind fun _ => .pure _⟩

/-- Two layouts that can be compared have a complete report, each operation of which deletes a
namespace or concerns variables and types of the layouts. Everything in it is told when both layouts can
be written; when they cannot, a number that is too long is all that it may fail for. -/
theorem tells_everything {leniency : Leniency} {former updated : Layout} {outcome : Outcome}
    (h : layouts leniency former updated = .ok outcome) :
    (Report.mk outcome.operations).IsComplete ∧
      (∀ op ∈ outcome.operations, op.Concerns former updated) ∧
      (Report.mk outcome.operations).IsTold
        (former.isWritable = true ∧ updated.isWritable = true) :=
  ⟨isComplete_of_concerns (layouts_concerns h), layouts_concerns h,
    isTold_of_concerns And.left And.right (layouts_concerns h)⟩

/-- The report of a move of a variable from one slot to another. -/
theorem tells_everything_moved :
    ∃ outcome, layouts {} (addressLayout [address "owner" 0]) (addressLayout [address "owner" 1]) =
        .ok outcome ∧
      (Report.mk outcome.operations).IsComplete ∧
      (Report.mk outcome.operations).IsTold True ∧ (Report.mk outcome.operations).ok = false := by
  have hfound : (plainStorage {} (addressLayout [address "owner" 0])
      (addressLayout [address "owner" 1])).map (fun ops => (Report.mk ops).ok) = some false := by
    with_unfolding_all rfl
  obtain ⟨outcome, houtcome, hok⟩ := exists_outcome_of_plainStorage rfl rfl hfound
  obtain ⟨hcomplete, -, htold⟩ := tells_everything houtcome
  have hwritable : (addressLayout [address "owner" 0]).isWritable = true ∧
      (addressLayout [address "owner" 1]).isWritable = true := by
    decide +kernel
  rw [eq_true hwritable] at htold
  exact ⟨outcome, houtcome, hcomplete, htold, hok⟩

/-- Whether something fails for a number that cannot be written. -/
def isUnwritable {α : Type} : Except Failure α → Bool
  | .error (.badValue .digitsToWrite) => true
  | _ => false

theorem eq_error_of_isUnwritable {α : Type} {x : Except Failure α} (h : isUnwritable x = true) :
    x = .error (.badValue .digitsToWrite) := by
  unfold isUnwritable at h
  split at h
  · rfl
  · cases h

/-- A move to a slot with more decimal digits than are written is found, but cannot be reported. -/
theorem unwritable_move :
    ∃ outcome, layouts {} (addressLayout [address "owner" 0])
        (addressLayout [address "owner" (Nat.pow 10 4300)]) = .ok outcome ∧
      (Report.mk outcome.operations).ok = false ∧
      (Report.mk outcome.operations).errors = .error (.badValue .digitsToWrite) ∧
      (∀ color, (Report.mk outcome.operations).explain color = .error (.badValue .digitsToWrite)) ∧
      (Report.mk outcome.operations).toJson = .error (.badValue .digitsToWrite) := by
  have hfound : (plainStorage {} (addressLayout [address "owner" 0])
      (addressLayout [address "owner" (Nat.pow 10 4300)])).map (fun ops =>
        let r := Report.mk ops
        r.ok || !(isUnwritable r.errors && isUnwritable (r.explain true) &&
          isUnwritable (r.explain false) && isUnwritable r.toJson)) = some false := by
    decide +kernel
  obtain ⟨ops, hops, hunwritable⟩ := Option.map_eq_some_iff.mp hfound
  obtain ⟨outcome, houtcome, rfl⟩ := (layouts_iff_plainStorage rfl rfl).mpr hops
  simp only [Bool.or_eq_false_iff, Bool.not_eq_false', Bool.and_eq_true_iff] at hunwritable
  obtain ⟨hok, ⟨⟨herrors, hcolored⟩, hplain⟩, hjson⟩ := hunwritable
  refine ⟨outcome, houtcome, hok, eq_error_of_isUnwritable herrors, fun color => ?_,
    eq_error_of_isUnwritable hjson⟩
  cases color with
  | false => exact eq_error_of_isUnwritable hplain
  | true => exact eq_error_of_isUnwritable hcolored

end Report

end UpgradeSafety
