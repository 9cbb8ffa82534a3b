import UpgradeSafety.Proofs.Syntax.Lookups
import UpgradeSafety.Proofs.Tables
import UpgradeSafety.Syntax.TypeNames
import Mathlib.Data.List.Perm.Subperm

/-!
# All types that a type name reaches

A type name reaches the type names inside it and, through its references, those inside the
definitions that they refer to, which may refer back (`Reachable`). Loading enters them all: each
identifier is met once and stays pending until it is entered, so at every moment the type names
that were met are those that are done, of which everything they refer to was met, and those that
are pending (`Progress`).

* `loadType_closure`: when everything that is reachable can be read (`Loadable`), the loading ends;
  the table then has all that is reachable, the structs and enums with their members, keeps what it
  had, and has nothing else.
* `loadType_undescribed`: a type name without a description stops the loading.
-/

namespace UpgradeSafety.Syntax

variable {wanted : List String} {id id' n m : Json} {s s' t : Nodes}

/-! ## Reachable type names -/

/-- The type names in a tree. -/
def typeNames (v : Json) : List Json := (objects [v]).filter (hasType namingNodes)

/-- A type name tells the identifier of its type. -/
def Identifies (n : Json) (identifier : String) : Prop :=
  ∃ label, typeDescription n = .ok (identifier, label)

/-- A type name has a reference, and not to a contract. -/
structure NamesDefinition (n : Json) : Prop where
  reference : n.field "referencedDeclaration" ≠ .null
  notContract : ∀ i, Identifies n i → beginsWith "t_contract" (TypeId.normalizeIdentifier i) = false

/-- A type name refers to the definition that its reference is looked up to be. -/
structure Refers (s : Nodes) (n d : Json) : Prop extends NamesDefinition n where
  found : Finds s definitionNodes (n.field "referencedDeclaration") d

/-- The type names in a type name, and those in the definitions that reachable ones refer to. -/
inductive Reachable (s : Nodes) (typeName : Json) : Json → Prop where
  | inside {n : Json} : n ∈ typeNames typeName → Reachable s typeName n
  | refer {n d m : Json} : Reachable s typeName n → Refers s n d → m ∈ typeNames d →
      Reachable s typeName m

/-- Whether a definition is that of a value type, which has no members. -/
def isValueType (d : Json) : Bool := hasType ["UserDefinedValueTypeDefinition"] d

/-- The entry that a type name has in a table, if it has one, has no members yet. -/
def Memberless (types : TypeTable) (n : Json) : Prop :=
  ∀ i entry, Identifies n i → types.lookup (TypeId.normalizeIdentifier i) = some entry →
    entry.members = none

/-- Everything that a type name reaches can be read into a table; type names with one identifier may have
different references, of which one is followed. -/
structure Legible (s : Nodes) (types : TypeTable) (typeName : Json) : Prop where
  /-- Every reference resolves. -/
  resolves : ∀ n, Reachable s typeName n → NamesDefinition n → ∃ d, Refers s n d
  /-- Every type name is described. -/
  identified : ∀ n, Reachable s typeName n → ∃ i, Identifies n i
  /-- The type names in the type name can be searched for. -/
  searched : (search namingNodes typeName).stop = none
  /-- The type names in a definition can be searched for, and its members can be read if the table is to
  get them. -/
  readable : ∀ n d, Reachable s typeName n → Refers s n d → (search namingNodes d).stop = none ∧
    (isValueType d = false → Memberless types n → ∃ members, typeMembers d = .ok members)

/-- Everything can be loaded into a table that a type name reaches. -/
structure Loadable (s : Nodes) (types : TypeTable) (typeName : Json) : Prop
    extends Legible s types typeName where
  /-- Type names with one identifier have one reference. -/
  unambiguous : ∀ n m i, Reachable s typeName n → Reachable s typeName m → Identifies n i →
    Identifies m i → n.field "referencedDeclaration" = m.field "referencedDeclaration"

variable {typeName : Json} {types₀ : TypeTable}

/-- What can be read into the empty table can be read into every table. -/
theorem Legible.into (h : Legible s [] typeName) (types : TypeTable) : Legible s types typeName where
  resolves := h.resolves
  identified := h.identified
  searched := h.searched
  readable n d hn hd := (h.readable n d hn hd).imp_right fun hread htype _ => hread htype nofun

theorem get_eq_field {key i : String} (h : Identifies n i) : n.get key = .ok (n.field key) := by
  obtain ⟨label, h⟩ := h
  cases n with
  | obj fields => rfl
  | null | bool _ | int _ | float _ | str _ | arr _ => cases h

theorem Identifies.unique {i j : String} (h : Identifies n i) (h' : Identifies n j) : i = j := by
  obtain ⟨_, h⟩ := h
  obtain ⟨_, h'⟩ := h'
  rw [h] at h'
  cases h'
  rfl

/-- Type names with one identifier refer to the same definitions. -/
theorem Loadable.refers (h : Loadable s types₀ typeName) {i : String} {d : Json} (hn : Reachable s typeName n)
    (hm : Reachable s typeName m) (hni : Identifies n i) (hmi : Identifies m i) (hd : Refers s n d) :
    Refers s m d := by
  have hreference := h.unambiguous n m i hn hm hni hmi
  refine ⟨⟨hreference ▸ hd.reference, fun j hj => ?_⟩, hreference ▸ hd.found⟩
  rw [← hmi.unique hj]
  exact hd.notContract i hni

/-- What is reachable is in the type name or in the trees. -/
theorem Reachable.mem_objects (hs : s.Sound s.trees) (h : Reachable s typeName n) :
    n ∈ objects (typeName :: s.trees) := by
  cases h with
  | inside hn =>
    rw [← List.singleton_append, objects_append]
    exact List.mem_append_left _ (List.mem_filter.mp hn).1
  | refer _ hd hm =>
    obtain ⟨s', hrun⟩ := hd.found
    obtain ⟨hanswer, -⟩ := answers_lookUp hs (by decide) (fun hnull => absurd hnull hd.reference) hrun
    rw [← List.singleton_append, objects_append]
    refine List.mem_append_right _ (objects_of_mem_objects ?_ (List.mem_filter.mp hm).1)
    exact (List.mem_filter.mp (hanswer.named hd.reference).1).1

/-! ## Meeting type names -/

/-- Type names are added to those that were met, so that all of some nodes are met, each identifier
once. -/
structure Adds (met : Met) (nodes : List Json) (added : Met) : Prop where
  mem : ∀ e ∈ added, e.2 ∈ nodes ∧ Identifies e.2 e.1
  all : ∀ n ∈ nodes, ∀ i, Identifies n i → i ∈ (met ++ added).map (·.1)
  nodup : (met.map (·.1)).Nodup → ((met ++ added).map (·.1)).Nodup

theorem Adds.known {met added : Met} {nodes : List Json} {i : String}
    (h : Adds met nodes added) (hi : Identifies n i) (hmet : i ∈ met.map (·.1)) :
    Adds met (n :: nodes) added where
  mem e he := ⟨List.mem_cons_of_mem n (h.mem e he).1, (h.mem e he).2⟩
  all := by
    refine List.forall_mem_cons.mpr ⟨fun j hj => ?_, h.all⟩
    rw [← hi.unique hj, List.map_append]
    exact List.mem_append_left _ hmet
  nodup := h.nodup

theorem Adds.fresh {met added : Met} {nodes : List Json} {i : String}
    (h : Adds (met ++ [(i, n)]) nodes added) (hi : Identifies n i) (hmet : i ∉ met.map (·.1)) :
    Adds met (n :: nodes) ((i, n) :: added) where
  mem := by
    refine List.forall_mem_cons.mpr ⟨⟨List.mem_cons_self, hi⟩, fun e he => ?_⟩
    exact ⟨List.mem_cons_of_mem n (h.mem e he).1, (h.mem e he).2⟩
  all := by
    rw [List.append_cons]
    refine List.forall_mem_cons.mpr ⟨fun j hj => ?_, h.all⟩
    rw [← hi.unique hj]
    simp
  nodup hnodup := by
    rw [List.append_cons]
    refine h.nodup ?_
    rw [List.map_append, List.map_singleton, List.nodup_append]
    refine ⟨hnodup, List.nodup_singleton i, fun j hj k hk => ?_⟩
    rw [List.mem_singleton.mp hk]
    exact fun heq : j = i => hmet (heq ▸ hj)

theorem exists_meet (met : Met) {nodes : List Json} (h : ∀ n ∈ nodes, ∃ i, Identifies n i) :
    ∃ added, meet met nodes = .ok (met ++ added, added.map (·.2)) ∧ Adds met nodes added := by
  induction nodes generalizing met with
  | nil => exact ⟨[], by simp [meet], nofun, nofun, by simp⟩
  | cons n rest ih =>
    rw [List.forall_mem_cons] at h
    obtain ⟨⟨i, label, hi⟩, hrest⟩ := h
    rw [meet, hi, ok_bind]
    dsimp only
    cases hmet : met.lookup i with
    | some m =>
      obtain ⟨added, hmeet, hadds⟩ := ih met hrest
      rw [Option.isSome_some, if_pos rfl]
      exact ⟨added, hmeet,
        hadds.known ⟨label, hi⟩ (List.mem_map_of_mem (mem_of_lookup_eq_some hmet))⟩
    | none =>
      obtain ⟨added, hmeet, hadds⟩ := ih (met ++ [(i, n)]) hrest
      rw [Option.isSome_none, if_neg Bool.false_ne_true, hmeet, ok_bind, ← List.append_cons]
      exact ⟨(i, n) :: added, rfl,
        hadds.fresh ⟨label, hi⟩ (lookup_eq_none_iff_not_mem.mp hmet)⟩

/-- The type names in a tree are met. -/
theorem exists_meetIn (met : Met) {v : Json} (hsearch : (search namingNodes v).stop = none)
    (h : ∀ n ∈ typeNames v, ∃ i, Identifies n i) :
    ∃ added, meetIn met v = .ok (met ++ added, added.map (·.2)) ∧ Adds met (typeNames v) added := by
  obtain ⟨added, hmeet, hadds⟩ := exists_meet met h
  refine ⟨added, ?_, hadds⟩
  rw [meetIn, nodes_search hsearch, ← typeNames, hmeet, ok_bind, hsearch]
  rfl

/-! ## Growing tables -/

/-- A table keeps the entries of another one, except that entries without members may get some, and adds
ids of a class only. -/
structure Grows (C : String → Prop) (types types' : TypeTable) : Prop where
  keeps : ∀ id entry, types.lookup id = some entry → ∃ members,
    types'.lookup id = some { entry with members } ∧
      ∀ ms, entry.members = some ms → members = some ms
  adds : ∀ id, types'.lookup id ≠ none → types.lookup id ≠ none ∨ C id

section Tables

variable {C : String → Prop} {types types' types'' : TypeTable} {key : String}

theorem Grows.refl (C : String → Prop) (types : TypeTable) : Grows C types types :=
  ⟨fun _ entry h => ⟨entry.members, h, fun _ h => h⟩, fun _ => Or.inl⟩

theorem Grows.trans (h : Grows C types types') (h' : Grows C types' types'') :
    Grows C types types'' where
  keeps id entry hentry := by
    obtain ⟨members, hmembers, hkept⟩ := h.keeps id entry hentry
    obtain ⟨members', hmembers', hkept'⟩ := h'.keeps id _ hmembers
    exact ⟨members', hmembers', fun ms hms => hkept' ms (hkept ms hms)⟩
  adds id hid := (h'.adds id hid).elim (h.adds id) Or.inr

/-- A table with the entry of an id, which has nothing but a label when it is new. -/
def enter (key label : String) (types : TypeTable) : TypeTable :=
  if (types.lookup key).isSome then types
  else types ++ [(key, (types.lookup key).getD { label })]

theorem lookup_enter (key label : String) (types : TypeTable) :
    (enter key label types).lookup key = some ((types.lookup key).getD { label }) := by
  unfold enter
  cases h : types.lookup key with
  | some entry => simp [h]
  | none => simp [h]

theorem grows_enter (hkey : C key) (label : String) (types : TypeTable) :
    Grows C types (enter key label types) := by
  unfold enter
  split
  · exact .refl C types
  · refine ⟨fun id entry hentry => ⟨entry.members, ?_, fun _ h => h⟩, fun id hid => ?_⟩
    · rw [lookup_append_or, hentry, Option.some_or]
    · rw [lookup_append_or] at hid
      by_cases hid' : types.lookup id = none
      · rw [hid', Option.none_or] at hid
        by_cases heq : id = key
        · exact Or.inr (heq ▸ hkey)
        · rw [lookup_cons_other heq] at hid
          exact absurd rfl hid
      · exact Or.inl hid'

/-- An entry without members gets members. -/
theorem grows_putField {entry : TypeEntry} {members : Members}
    (hentry : types.lookup key = some entry) (hnone : entry.members = none) :
    Grows C types (putField key { entry with members := some members } types) where
  keeps id entry' hentry' := by
    by_cases heq : id = key
    · subst heq
      rw [hentry] at hentry'
      obtain rfl := Option.some.inj hentry'
      refine ⟨some members, lookup_putField_self, fun ms hms => ?_⟩
      rw [hnone] at hms
      cases hms
    · exact ⟨entry'.members, by rw [lookup_putField_other heq, hentry'], fun _ h => h⟩
  adds id hid := by
    by_cases heq : id = key
    · subst heq
      rw [hentry]
      exact Or.inl (Option.some_ne_none entry)
    · rw [lookup_putField_other heq] at hid
      exact Or.inl hid

end Tables

/-! ## Loading -/

/-- The id under which a reachable type name is entered. -/
def IsReached (s : Nodes) (typeName : Json) (key : String) : Prop :=
  ∃ n i, Reachable s typeName n ∧ Identifies n i ∧ TypeId.normalizeIdentifier i = key

/-- A type name is in a table, and it has members if it refers to a struct or an enum. -/
def Entered (s : Nodes) (types : TypeTable) (n : Json) (identifier : String) : Prop :=
  ∃ entry, types.lookup (TypeId.normalizeIdentifier identifier) = some entry ∧
    ∀ d, Refers s n d → isValueType d = false → entry.members ≠ none

theorem Entered.grows {C : String → Prop} {types types' : TypeTable} {i : String}
    (h : Entered s types n i) (hgrows : Grows C types types') : Entered s types' n i := by
  obtain ⟨entry, hentry, hmembers⟩ := h
  obtain ⟨members, hentry', hkept⟩ := hgrows.keeps _ entry hentry
  refine ⟨_, hentry', fun d hd htype => ?_⟩
  obtain ⟨ms, hms⟩ := Option.ne_none_iff_exists'.mp (hmembers d hd htype)
  rw [hkept ms hms]
  exact Option.some_ne_none ms

/-- How far the type names that a type name reaches have been entered into a table: those of `done`
have been, and all that they refer to has been met. -/
structure Progress (s : Nodes) (typeName : Json) (types₀ : TypeTable) (done pending : Met)
    (types : TypeTable) : Prop where
  nodup : ((done ++ pending).map (·.1)).Nodup
  reached : ∀ e ∈ done ++ pending, Reachable s typeName e.2 ∧ Identifies e.2 e.1
  start : ∀ n ∈ typeNames typeName, ∀ i, Identifies n i → i ∈ (done ++ pending).map (·.1)
  closed : ∀ e ∈ done, ∀ d, Refers s e.2 d → ∀ m ∈ typeNames d, ∀ i, Identifies m i →
    i ∈ (done ++ pending).map (·.1)
  entered : ∀ e ∈ done, Entered s types e.2 e.1
  grows : Grows (IsReached s typeName) types₀ types

/-- The state of a reading after some definitions were looked up. -/
structure LaterThan (s t : Nodes) : Prop where
  sound : t.Sound s.trees
  finds : ∀ id n, Finds t definitionNodes id n ↔ Finds s definitionNodes id n

namespace Progress

variable {types : TypeTable} {done pending : Met}

/-- No more type names are met than there are values. -/
theorem length_le (h : Progress s typeName types₀ done pending types) (hs : s.Sound s.trees) :
    (done ++ pending).length ≤ weight typeName + weightItems s.trees := by
  have hnodup : ((done ++ pending).map (·.2)).Nodup := by
    refine List.pairwise_map.mpr ((List.pairwise_map.mp h.nodup).imp_of_mem ?_)
    intro e e' he he' hne heq
    have hi' := (h.reached e' he').2
    rw [← heq] at hi'
    exact hne ((h.reached e he).2.unique hi')
  have hsubset : (done ++ pending).map (·.2) ⊆ objects (typeName :: s.trees) := by
    intro n hn
    obtain ⟨e, he, rfl⟩ := List.mem_map.mp hn
    exact (h.reached e he).1.mem_objects hs
  have hle := (hnodup.subperm hsubset).length_le
  rw [List.length_map] at hle
  exact Nat.le_trans hle (length_objects_le _)

/-- All that is reachable has been met when nothing is pending. -/
theorem mem_of_reachable (h : Progress s typeName types₀ done [] types)
    (hload : Loadable s types₀ typeName) (hn : Reachable s typeName n) :
    ∀ i, Identifies n i → i ∈ done.map (·.1) := by
  have happend := List.append_nil done
  induction hn with
  | inside hn =>
    intro i hi
    rw [← happend]
    exact h.start _ hn i hi
  | @refer n d m hn hd hm ih =>
    intro i hi
    obtain ⟨j, hj⟩ := hload.identified n hn
    obtain ⟨e, he, rfl⟩ := List.mem_map.mp (ih j hj)
    obtain ⟨hreach, he'⟩ := h.reached e (List.mem_append_left _ he)
    rw [← happend]
    exact h.closed e he d (hload.refers hn hreach hj he' hd) m hm i hi

/-- A type name whose entry has no members yet had none at the start. -/
theorem memberless (h : Progress s typeName types₀ done pending types) {i label : String}
    (hi : Identifies n i)
    (hnone : ((types.lookup (TypeId.normalizeIdentifier i)).getD { label }).members = none) :
    Memberless types₀ n := by
  intro j entry hj hentry
  rw [hj.unique hi] at hentry
  obtain ⟨members, hlookup, hkept⟩ := h.grows.keeps _ entry hentry
  rw [hlookup, Option.getD_some] at hnone
  cases hmembers : entry.members with
  | none => rfl
  | some ms =>
    rw [hkept ms hmembers] at hnone
    cases hnone

/-- The next type name is entered, and what it refers to is met. -/
theorem step {rest added : Met} {types' : TypeTable} {i : String}
    (h : Progress s typeName types₀ done ((i, n) :: rest) types)
    (hnodup : ((done ++ (i, n) :: rest ++ added).map (·.1)).Nodup)
    (hreached : ∀ e ∈ added, Reachable s typeName e.2 ∧ Identifies e.2 e.1)
    (hall : ∀ d, Refers s n d → ∀ m ∈ typeNames d, ∀ j, Identifies m j →
      j ∈ (done ++ (i, n) :: rest ++ added).map (·.1))
    (hgrows : Grows (IsReached s typeName) types types') (hentered : Entered s types' n i) :
    Progress s typeName types₀ (done ++ [(i, n)]) (rest ++ added) types' := by
  have happend : done ++ [(i, n)] ++ (rest ++ added) = done ++ (i, n) :: rest ++ added := by simp
  have hold : ∀ j ∈ (done ++ (i, n) :: rest).map (·.1),
      j ∈ (done ++ (i, n) :: rest ++ added).map (·.1) := by
    intro j hj
    rw [List.map_append]
    exact List.mem_append_left _ hj
  refine ⟨?_, ?_, ?_, ?_, ?_, h.grows.trans hgrows⟩
  · rwa [happend]
  · rw [happend]
    exact List.forall_mem_append.mpr ⟨h.reached, hreached⟩
  · rw [happend]
    exact fun m hm j hj => hold j (h.start m hm j hj)
  · rw [happend]
    refine List.forall_mem_append.mpr ⟨fun e he d hd m hm j hj => ?_, ?_⟩
    · exact hold j (h.closed e he d hd m hm j hj)
    · exact List.forall_mem_singleton.mpr hall
  · refine List.forall_mem_append.mpr ⟨fun e he => (h.entered e he).grows hgrows, ?_⟩
    exact List.forall_mem_singleton.mpr hentered

end Progress

/-! ## Steps of loading -/

section Steps

variable {fuel : Nat} {met met' : Met} {rest fresh : List Json} {types : TypeTable} {t t' : Nodes}
  {i label : String} {d : Json} {members : Members}

/-- What was read without looking anything up is read at once. -/
theorem run_ok_bind {α β : Type} (a : α) (f : α → Reading β) :
    ((liftM (Except.ok a : Except Failure α) : Reading α) >>= f).run t = (f a).run t := rfl

/-- A type name that refers to no definition is entered. -/
theorem run_loadPending_skip (hdesc : typeDescription n = .ok (i, label)) (hskip : ¬ NamesDefinition n) :
    (loadPending (fuel + 1) met (n :: rest) types).run t =
      (loadPending fuel met rest (enter (TypeId.normalizeIdentifier i) label types)).run t := by
  have hi : Identifies n i := ⟨label, hdesc⟩
  rw [loadPending, hdesc, get_eq_field hi]
  rw [run_ok_bind, run_ok_bind]
  split
  · rfl
  · rename_i hreference
    rw [if_pos]
    · rfl
    · by_contra hcontract
      refine hskip ⟨hreference, fun j hj => ?_⟩
      rw [← hi.unique hj]
      exact Bool.eq_false_of_not_eq_true hcontract

/-- A table in which the entry of a struct or an enum has members. -/
def fill (key : String) (d : Json) (members : Members) (types : TypeTable) (entry : TypeEntry) :
    TypeTable :=
  if entry.members.isNone && !isValueType d then
    putField key { entry with members := some members } types
  else types

/-- A type name that refers to a definition is entered with its members, and what the definition names
becomes pending. -/
theorem run_loadPending_refer (hdesc : typeDescription n = .ok (i, label)) (hnames : NamesDefinition n)
    (hrun : (lookUp definitionNodes (n.field "referencedDeclaration")).run t = .ok (d, t'))
    (hmembers : isValueType d = false →
      ((types.lookup (TypeId.normalizeIdentifier i)).getD { label }).members = none →
        typeMembers d = .ok members)
    (hmeet : meetIn met d = .ok (met', fresh)) :
    (loadPending (fuel + 1) met (n :: rest) types).run t =
      (loadPending fuel met' (rest ++ fresh)
        (fill (TypeId.normalizeIdentifier i) d members
          (enter (TypeId.normalizeIdentifier i) label types)
          ((types.lookup (TypeId.normalizeIdentifier i)).getD { label }))).run t' := by
  have hi : Identifies n i := ⟨label, hdesc⟩
  rw [loadPending, hdesc, get_eq_field hi]
  rw [run_ok_bind, run_ok_bind]
  split
  · rename_i hnull
    exact absurd hnull hnames.reference
  · rw [if_neg (by rw [hnames.notContract i hi]; exact Bool.false_ne_true), StateT.run_bind, hrun, ok_bind]
    dsimp only
    rw [← isValueType, hmeet, fill]
    split
    · rename_i hfill
      obtain ⟨hnone, htype⟩ := Bool.and_eq_true_iff.mp hfill
      rw [hmembers (by simpa using htype) (Option.isNone_iff_eq_none.mp hnone)]
      rfl
    · rfl

theorem grows_fill {C : String → Prop} {key : String} {entry : TypeEntry}
    (hentry : types.lookup key = some entry) (d : Json) (members : Members) :
    Grows C types (fill key d members types entry) := by
  unfold fill
  split
  · rename_i hfill
    exact grows_putField hentry (by simpa using (Bool.and_eq_true_iff.mp hfill).1)
  · exact .refl C types

/-- The entry of a struct or an enum has members afterwards. -/
theorem exists_lookup_fill {key : String} {entry : TypeEntry} (hentry : types.lookup key = some entry)
    (d : Json) (members : Members) :
    ∃ entry', (fill key d members types entry).lookup key = some entry' ∧
      (isValueType d = false → entry'.members ≠ none) := by
  unfold fill
  split
  · exact ⟨_, lookup_putField_self, fun _ => Option.some_ne_none members⟩
  · rename_i hfill
    refine ⟨entry, hentry, fun htype hnone => hfill ?_⟩
    rw [hnone, htype]
    rfl

end Steps

/-! ## The loop -/

theorem Finds.unique {wanted : List String} {id : Json} (h : Finds s wanted id n)
    (h' : Finds s wanted id m) : m = n := by
  obtain ⟨_, h⟩ := h
  obtain ⟨_, h'⟩ := h'
  rw [h] at h'
  cases h'
  rfl

theorem LaterThan.lookUp {id d : Json} {t' : Nodes} (h : LaterThan s t) (hid : id ≠ .null)
    (hrun : (lookUp definitionNodes id).run t = .ok (d, t')) : LaterThan s t' where
  sound := (answers_lookUp h.sound (by decide) (fun hnull => absurd hnull hid) hrun).2
  finds id n := (finds_lookUp hrun).trans (h.finds id n)

variable {types : TypeTable} {done pending : Met} {fuel : Nat}

/-- With enough fuel everything that is pending is entered, and all that it refers to. -/
theorem exists_run_loadPending (hread : Legible s types₀ typeName) (hs : s.Sound s.trees)
    (ht : LaterThan s t) (h : Progress s typeName types₀ done pending types)
    (hfuel : weight typeName + weightItems s.trees ≤ done.length + fuel) :
    ∃ types' t' done', (loadPending fuel (done ++ pending) (pending.map (·.2)) types).run t =
      .ok (types', t') ∧ LaterThan s t' ∧ Progress s typeName types₀ done' [] types' := by
  induction fuel generalizing t done pending types with
  | zero =>
    have hle := h.length_le hs
    rw [List.length_append] at hle
    obtain rfl : pending = [] := List.length_eq_zero_iff.mp (by omega)
    exact ⟨types, t, done, rfl, ht, h⟩
  | succ fuel ih =>
    cases pending with
    | nil => exact ⟨types, t, done, rfl, ht, h⟩
    | cons e rest =>
      obtain ⟨i, n⟩ := e
      obtain ⟨hn, label, hdesc⟩ := h.reached (i, n) (by simp)
      have hi : Identifies n i := ⟨label, hdesc⟩
      have hfuel' : weight typeName + weightItems s.trees ≤ (done ++ [(i, n)]).length + fuel := by
        rw [List.length_append, List.length_singleton]
        omega
      have henter : Grows (IsReached s typeName) types
          (enter (TypeId.normalizeIdentifier i) label types) :=
        grows_enter ⟨n, i, hn, hi, rfl⟩ label types
      have hlookup := lookup_enter (TypeId.normalizeIdentifier i) label types
      rw [List.map_cons]
      by_cases hnames : NamesDefinition n
      · obtain ⟨d, hd⟩ := hread.resolves n hn hnames
        obtain ⟨t', hrun⟩ := (ht.finds _ d).mpr hd.found
        obtain ⟨hsearch, hmembers⟩ := hread.readable n d hn hd
        have hnext : ∀ m ∈ typeNames d, Reachable s typeName m := fun m hm => .refer hn hd hm
        obtain ⟨added, hmeet, hadds⟩ := exists_meetIn (done ++ (i, n) :: rest) hsearch
          fun m hm => hread.identified m (hnext m hm)
        obtain ⟨members, hvalid⟩ : ∃ members, isValueType d = false →
            ((types.lookup (TypeId.normalizeIdentifier i)).getD { label }).members = none →
              typeMembers d = .ok members := by
          by_cases hneeded : isValueType d = false ∧
              ((types.lookup (TypeId.normalizeIdentifier i)).getD { label }).members = none
          · obtain ⟨htype, hnone⟩ := hneeded
            obtain ⟨members, hvalid⟩ := hmembers htype (h.memberless hi hnone)
            exact ⟨members, fun _ _ => hvalid⟩
          · exact ⟨.items [], fun htype hnone => absurd ⟨htype, hnone⟩ hneeded⟩
        rw [run_loadPending_refer hdesc hnames hrun hvalid hmeet, ← List.map_append]
        have hgrows := henter.trans (grows_fill hlookup d members)
        have hentered : Entered s (fill (TypeId.normalizeIdentifier i) d members
            (enter (TypeId.normalizeIdentifier i) label types)
            ((types.lookup (TypeId.normalizeIdentifier i)).getD { label })) n i := by
          obtain ⟨entry, hentry, hfilled⟩ := exists_lookup_fill hlookup d members
          refine ⟨entry, hentry, fun d' hd' htype => hfilled ?_⟩
          rwa [hd.found.unique hd'.found] at htype
        have hstep := h.step (hadds.nodup h.nodup)
          (fun e he => ⟨hnext e.2 (hadds.mem e he).1, (hadds.mem e he).2⟩)
          (fun d' hd' m hm j hj => hadds.all m (hd.found.unique hd'.found ▸ hm) j hj) hgrows hentered
        have hmet : done ++ (i, n) :: rest ++ added = done ++ [(i, n)] ++ (rest ++ added) := by simp
        rw [hmet]
        exact ih (ht.lookUp hd.reference hrun) hstep hfuel'
      · have hrefers : ∀ d, ¬ Refers s n d := fun d hd => hnames hd.toNamesDefinition
        rw [run_loadPending_skip hdesc hnames]
        have hnodup : ((done ++ (i, n) :: rest ++ ([] : Met)).map (·.1)).Nodup := by
          rw [List.append_nil]
          exact h.nodup
        have hstep := h.step hnodup nofun (fun d hd => absurd hd (hrefers d)) henter
          ⟨_, hlookup, fun d hd => absurd hd (hrefers d)⟩
        have hmet : done ++ (i, n) :: rest = done ++ [(i, n)] ++ rest := by simp
        rw [List.append_nil] at hstep
        rw [hmet]
        exact ih ht hstep hfuel'

/-- Loading a type name gives a table that keeps what was there, has all that the type name reaches, the
structs and enums among it with members, and nothing else. -/
theorem loadType_closure (types : TypeTable) (hload : Loadable s types typeName)
    (hs : s.Sound s.trees) :
    ∃ types' s', (loadType typeName types).run s = .ok (types', s') ∧
      (∀ n i, Reachable s typeName n → Identifies n i → Entered s types' n i) ∧
      Grows (IsReached s typeName) types types' := by
  obtain ⟨added, hmeet, hadds⟩ := exists_meetIn [] hload.searched
    fun n hn => hload.identified n (.inside hn)
  have hstart : Progress s typeName types [] added types := by
    refine ⟨hadds.nodup List.nodup_nil, fun e he => ?_, hadds.all, nofun, nofun, .refl _ types⟩
    exact ⟨.inside (hadds.mem e he).1, (hadds.mem e he).2⟩
  have hfuel : weight typeName + weightItems s.trees ≤
      ([] : Met).length + (weight typeName + weightItems s.trees + 1) := by omega
  obtain ⟨types', s', done, hrun, -, hdone⟩ :=
    exists_run_loadPending hload.toLegible hs ⟨hs, fun _ _ => Iff.rfl⟩ hstart hfuel
  refine ⟨types', s', ?_, fun n i hn hi => ?_, hdone.grows⟩
  · rw [loadType, hmeet]
    exact hrun
  · obtain ⟨e, he, rfl⟩ := List.mem_map.mp (hdone.mem_of_reachable hload hn i hi)
    obtain ⟨entry, hentry, hmembers⟩ := hdone.entered e he
    obtain ⟨hreached, hidentifies⟩ := hdone.reached e (List.mem_append_left _ he)
    exact ⟨entry, hentry, fun d hd => hmembers d (hload.refers hn hreached hi hidentifies hd)⟩

/-! ## A struct that holds itself -/

/-- A description of a type. -/
def described (identifier label : String) : String × Json :=
  ("typeDescriptions", .obj [("typeIdentifier", .str identifier), ("typeString", .str label)])

/-- A type name of the struct whose definition has the id 1. -/
def leafName : Json :=
  .obj [("nodeType", .str "UserDefinedTypeName"), ("referencedDeclaration", .int 1),
    described "t_struct$_Leaf_$1_storage_ptr" "struct Leaf"]

/-- A type name of its arrays. -/
def leavesName : Json :=
  .obj [("nodeType", .str "ArrayTypeName"), ("baseType", leafName),
    described "t_array$_t_struct$_Leaf_$1_storage_$dyn_storage_ptr" "struct Leaf[]"]

/-- The struct, which holds an array of its own. -/
def leafDefinition : Json :=
  .obj [("nodeType", .str "StructDefinition"), ("id", .int 1),
    ("members", .arr [.obj [("name", .str "leaves"), ("typeName", leavesName),
      described "t_array$_t_struct$_Leaf_$1_storage_$dyn_storage_ptr" "struct Leaf[]"]])]

theorem reachable_leafName {s : Nodes} (hfinds : ∀ d, Finds s definitionNodes (.int 1) d → d = leafDefinition)
    (h : Reachable s leafName n) : n = leafName ∨ n = leavesName := by
  have hname : typeNames leafName = [leafName] := by decide +kernel
  have hdefinition : typeNames leafDefinition = [leavesName, leafName] := by decide +kernel
  induction h with
  | inside hn =>
    rw [hname] at hn
    exact Or.inl (List.mem_singleton.mp hn)
  | refer _ hd hm ih =>
    rcases ih with rfl | rfl
    · rw [hfinds _ hd.found, hdefinition] at hm
      simpa [or_comm] using hm
    · exact absurd rfl hd.reference

/-- A struct that holds itself is loaded. -/
theorem loadType_closure_leaf : ∃ types' s', (loadType leafName []).run ⟨[leafDefinition], []⟩ =
      .ok (types', s') ∧ Entered ⟨[leafDefinition], []⟩ types' leavesName
        "t_array$_t_struct$_Leaf_$1_storage_$dyn_storage_ptr" := by
  have hfinds : Finds ⟨[leafDefinition], []⟩ definitionNodes (.int 1) leafDefinition := by
    refine finds_iff.mpr ⟨rfl, Or.inr ⟨rfl, eq_ok_of_toOption ?_⟩⟩
    decide +kernel
  have hleaf : Identifies leafName "t_struct$_Leaf_$1_storage_ptr" := ⟨"struct Leaf", rfl⟩
  have hleaves : Identifies leavesName "t_array$_t_struct$_Leaf_$1_storage_$dyn_storage_ptr" :=
    ⟨"struct Leaf[]", rfl⟩
  have hreachable {n : Json} (hn : Reachable ⟨[leafDefinition], []⟩ leafName n) :=
    reachable_leafName (fun d hd => hfinds.unique hd) hn
  have hrefers : Refers ⟨[leafDefinition], []⟩ leafName leafDefinition := by
    refine ⟨⟨nofun, fun i hi => ?_⟩, hfinds⟩
    rw [← hleaf.unique hi]
    decide +kernel
  have hload : Loadable ⟨[leafDefinition], []⟩ [] leafName := by
    refine ⟨⟨?_, ?_, ?_, ?_⟩, ?_⟩
    · intro n hn hnames
      rcases hreachable hn with rfl | rfl
      · exact ⟨leafDefinition, hrefers⟩
      · exact absurd rfl hnames.reference
    · intro n hn
      rcases hreachable hn with rfl | rfl
      · exact ⟨_, hleaf⟩
      · exact ⟨_, hleaves⟩
    · decide +kernel
    · intro n d hn hd
      rcases hreachable hn with rfl | rfl
      · obtain rfl := hfinds.unique hd.found
        have hread : (typeMembers leafDefinition).toOption.isSome = true := by decide +kernel
        obtain ⟨members, hmembers⟩ := Option.isSome_iff_exists.mp hread
        exact ⟨by decide +kernel, fun _ _ => ⟨members, eq_ok_of_toOption hmembers⟩⟩
      · exact absurd rfl hd.reference
    · intro n m i hn hm hni hmi
      rcases hreachable hn with rfl | rfl
      · rcases hreachable hm with rfl | rfl
        · rfl
        · exact absurd ((hni.unique hleaf).symm.trans (hmi.unique hleaves)) (by decide)
      · rcases hreachable hm with rfl | rfl
        · exact absurd ((hni.unique hleaves).symm.trans (hmi.unique hleaf)) (by decide)
        · rfl
  obtain ⟨types', s', hrun, hentered, -⟩ := loadType_closure [] hload ⟨rfl, nofun⟩
  refine ⟨types', s', hrun, hentered leavesName _ ?_ hleaves⟩
  exact .refer (.inside (by decide +kernel)) hrefers (by decide +kernel)

/-- The type name `uint8[uint8(2)]`. The type name in the conversion is not described. -/
def convertedLength : Json :=
  .obj [("nodeType", .str "ArrayTypeName"),
    described "t_array$_t_uint8_$2_storage_ptr" "uint8[2]",
    ("baseType", .obj [("nodeType", .str "ElementaryTypeName"), described "t_uint8" "uint8"]),
    ("length", .obj [("nodeType", .str "FunctionCall"), ("kind", .str "typeConversion"),
      ("expression", .obj [("nodeType", .str "ElementaryTypeNameExpression"),
        ("typeName", .obj [("nodeType", .str "ElementaryTypeName"), ("typeDescriptions", .obj [])])])])]

/-- A type name that is not described stops the loading, although nothing refers to anything. -/
theorem loadType_undescribed :
    (∀ n, Reachable ⟨[], []⟩ convertedLength n → n.field "referencedDeclaration" = .null) ∧
      (loadType convertedLength []).run ⟨[], []⟩ = .error (.refused (.noTypeDescription "None")) := by
  have hnames : ∀ n ∈ typeNames convertedLength, n.field "referencedDeclaration" = .null := by
    decide +kernel
  refine ⟨fun n hn => ?_, ?_⟩
  · induction hn with
    | inside hn => exact hnames _ hn
    | refer _ hd _ ih => exact absurd ih hd.reference
  · have hmeet : meetIn [] convertedLength = .error (.refused (.noTypeDescription "None")) := by
      with_unfolding_all rfl
    rw [loadType, hmeet]
    rfl

end UpgradeSafety.Syntax
