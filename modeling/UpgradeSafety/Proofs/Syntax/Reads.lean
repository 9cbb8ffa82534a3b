import UpgradeSafety.Proofs.Json.Reading
import UpgradeSafety.Proofs.Syntax.Lookups
import UpgradeSafety.Syntax.TypeNames

/-!
# Readings that only look up

A reading that learns about the trees of a compilation by lookups alone (`Reads`) has one result,
whatever was looked up before, if no two nodes have the same id (`Reads.determined`).

It also does not matter in which order the trees are listed (`Gives.perm`). For that the trees have
to be `Orderly`: every contract has an id, and no node has a list or an object for its type.
Otherwise a search may end at a malformed node in one order and find the node that is looked up
before it in another.

`Reads` is a grammar of programs: returning, failing, binding, looking up, and asking for the
number of values in the trees, which is the same in every order. Whether a program of the library
belongs to it is seen from its text, so the result is used by giving a derivation for each function
of an import or of a validation, and nothing has to be said of what these functions compute.
-/

namespace UpgradeSafety.Syntax

variable {α β : Type} {trees trees' : List Json} {wanted : List String} {id n : Json}

/-- A reading that learns about the trees by lookups, and from how many values there are in them. -/
inductive Reads : {α : Type} → Reading α → Prop where
  | pure {α : Type} (a : α) : Reads (Pure.pure a : Reading α)
  | throw {α : Type} (e : Failure) : Reads (MonadExcept.throw e : Reading α)
  | lift {α : Type} (x : Except Failure α) : Reads (liftM x : Reading α)
  | bind {α β : Type} {x : Reading α} {f : α → Reading β} (hx : Reads x) (hf : ∀ a, Reads (f a)) :
      Reads (x >>= f)
  | lookUp {wanted : List String} {id : Json} (hwanted : "" ∉ wanted)
      (hnull : id = .null → wanted = ["ContractDefinition"]) : Reads (Syntax.lookUp wanted id)
  | weigh {α : Type} {f : Nat → Reading α} (hf : ∀ n, Reads (f n)) :
      Reads (do f (weightItems (← get).trees))

namespace Reads

theorem foldlM {f : β → α → Reading β} (h : ∀ b a, Reads (f b a)) (l : List α) (b : β) :
    Reads (l.foldlM f b) := by
  induction l generalizing b with
  | nil => exact .pure b
  | cons a l ih =>
    rw [List.foldlM_cons]
    exact .bind (h b a) ih

theorem mapM {f : α → Reading β} (h : ∀ a, Reads (f a)) (l : List α) : Reads (l.mapM f) := by
  induction l with
  | nil => exact .pure []
  | cons a l ih =>
    rw [List.mapM_cons]
    exact .bind (h a) fun b => .bind ih fun bs => .pure (b :: bs)

theorem filterMapM {f : α → Reading (Option β)} (h : ∀ a, Reads (f a)) (l : List α) :
    Reads (l.filterMapM f) := by
  induction l with
  | nil => exact .pure []
  | cons a l ih =>
    rw [List.filterMapM_cons]
    refine .bind (h a) fun b => ?_
    cases b with
    | none => exact ih
    | some b => exact .bind ih fun bs => .pure (b :: bs)

/-- What was looked up before does not count. -/
theorem determined {x : Reading α} (h : Reads x) (hunique : UniqueIds trees) :
    Determined trees x := by
  induction h with
  | pure a => exact .pure a
  | throw e => exact .throw e
  | lift x => exact .lift x
  | bind _ _ ihx ihf => exact .bind ihx ihf
  | lookUp hwanted hnull => exact determined_lookUp hunique hwanted hnull
  | weigh _ ihf => exact .withTrees fun ts => ihf (weightItems ts)

end Reads

/-! ## The order of the trees -/

/-- Trees in which a lookup finds a node wherever its tree is listed. -/
structure Orderly (trees : List Json) : Prop where
  unique : UniqueIds trees
  plain : ∀ n ∈ objects trees, (n.field "nodeType").hashable = true
  named : ∀ n ∈ objects trees, hasType ["ContractDefinition"] n = true → n.field "id" ≠ .null

instance (trees : List Json) : Decidable (Orderly trees) :=
  decidable_of_iff (UniqueIds trees ∧ (∀ n ∈ objects trees, (n.field "nodeType").hashable = true) ∧
      ∀ n ∈ objects trees, hasType ["ContractDefinition"] n = true → n.field "id" ≠ .null)
    ⟨fun h => ⟨h.1, h.2.1, h.2.2⟩, fun h => ⟨h.unique, h.plain, h.named⟩⟩

theorem objects_perm (h : trees.Perm trees') : (objects trees).Perm (objects trees') :=
  (h.flatMap_right _).map _

theorem weightItems_perm (h : trees.Perm trees') : weightItems trees = weightItems trees' := by
  induction h with
  | nil => rfl
  | cons v _ ih => rw [weightItems, weightItems, ih]
  | swap v w _ =>
    rw [weightItems, weightItems, weightItems, weightItems]
    omega
  | trans _ _ ih ih' => exact ih.trans ih'

/-- The objects of values without repeated fields are such values. -/
theorem isTidy_of_mem_objects (h : ∀ v ∈ trees, v.IsTidy) (hn : n ∈ objects trees) : n.IsTidy := by
  obtain ⟨s, hs, rfl⟩ := List.mem_map.mp hn
  obtain ⟨v, hv, hs⟩ := List.mem_flatMap.mp hs
  refine spots_induction (P := fun _ v => v.IsTidy → s.node.IsTidy) hs ?_ ?_ ?_ (h v hv)
  · rintro _ fields rfl hfields
    exact hfields
  · exact fun _ items w hw ih hitems => ih (Json.isTidy_arr.mp hitems w hw)
  · exact fun _ fields f hf ih hfields => ih ((Json.isTidy_obj.mp hfields).2 f hf)

/-- Values with different ids may be listed in another order. -/
theorem pairwise_differ_perm {l l' : List α} {f : α → Json} (hperm : l.Perm l')
    (htidy : ∀ a ∈ l, (f a).IsTidy) (h : l.Pairwise fun a b => (f a).same (f b) = false) :
    l'.Pairwise fun a b => (f a).same (f b) = false := by
  let Differ (a b : α) : Prop := (f a).same (f b) = false ∨ (f b).same (f a) = false
  have hdiffer : l'.Pairwise Differ := (hperm.pairwise_iff Or.symm).mp (h.imp Or.inl)
  refine hdiffer.imp_of_mem fun {a b} ha hb hab => hab.elim (fun h => h) fun hba => ?_
  exact Bool.eq_false_iff.mpr fun hsame => Bool.eq_false_iff.mp hba
    (Json.same_symm (htidy a (hperm.mem_iff.mpr ha)) (htidy b (hperm.mem_iff.mpr hb)) hsame)

theorem UniqueIds.perm (h : UniqueIds trees) (htidy : ∀ v ∈ trees, v.IsTidy)
    (hperm : trees.Perm trees') : UniqueIds trees' :=
  pairwise_differ_perm ((objects_perm hperm).filter hasId)
    (fun _ hn => (isTidy_of_mem_objects htidy (List.mem_filter.mp hn).1).field "id") h

/-- A search in a tree of which all types are plain values runs to its end. -/
theorem search_stop_eq_none {v : Json} (h : ∀ n ∈ objects [v], (n.field "nodeType").hashable = true) :
    (search wanted v).stop = none := by
  have hvisits : ∀ s ∈ spots [] v,
      Visits (visitor wanted (some fun _ => .ok false)) (fun _ => false) wanted s.node :=
    fun s hs => visits_visitor hs (fun _ => rfl)
      (h _ (by rw [objects_cons]; exact List.mem_append_left _ (List.mem_map_of_mem hs)))
  rw [search, visitor_none, walk_eq_kept hvisits]

theorem mem_objects_cons {v : Json} :
    n ∈ objects (v :: trees) ↔ n ∈ objects [v] ∨ n ∈ objects trees := by
  rw [← List.singleton_append, objects_append, List.mem_append]

/-- A node that is there is found, or another one of its id before it. -/
theorem exists_findNode (hplain : ∀ n ∈ objects trees, (n.field "nodeType").hashable = true)
    (hn : n ∈ objects trees) (htype : hasType wanted n = true)
    (hsame : (n.field "id").same id = true) : ∃ m, findNode wanted id trees = .ok m := by
  induction trees with
  | nil => cases hn
  | cons tree rest ih =>
    have hstop : (search wanted tree).stop = none :=
      search_stop_eq_none fun n hn => hplain n (mem_objects_cons.mpr (Or.inl hn))
    unfold findNode
    dsimp only
    cases hfind : (search wanted tree).nodes.find? fun node => (node.field "id").same id with
    | some m => exact ⟨m, rfl⟩
    | none =>
      rw [hstop]
      refine ih (fun n hn => hplain n (mem_objects_cons.mpr (Or.inr hn))) ?_
      refine (mem_objects_cons.mp hn).resolve_left fun hhead => ?_
      refine List.find?_eq_none.mp hfind n ?_ hsame
      rw [nodes_search hstop]
      exact List.mem_filter.mpr ⟨hhead, htype⟩

theorem Answers.perm (h : Answers trees id n) (hne : id ≠ .null) (hperm : trees.Perm trees') :
    Answers trees' id n where
  hashable := h.hashable
  named _ := ⟨((objects_perm hperm).filter _).mem_iff.mp (h.named hne).1, (h.named hne).2⟩
  unnamed hnull := absurd hnull hne

namespace Orderly

variable (h : Orderly trees)
include h

theorem perm (htidy : ∀ v ∈ trees, v.IsTidy) (hperm : trees.Perm trees') : Orderly trees' where
  unique := h.unique.perm htidy hperm
  plain n hn := h.plain n ((objects_perm hperm).mem_iff.mpr hn)
  named n hn := h.named n ((objects_perm hperm).mem_iff.mpr hn)

/-- Only what has an id is found. -/
theorem id_ne_null (hanswer : Answers trees id n) : id ≠ .null := by
  intro hnull
  obtain ⟨hn, htype, hsame⟩ := findNode_eq_ok (hanswer.unnamed hnull)
  exact h.named n hn htype (eq_null_of_same_null (hashable_of_same rfl hsame) hsame)

/-- A lookup that finds a node finds it also when the trees are listed in another order. -/
theorem lookUp_perm (hperm : trees.Perm trees') {t : Nodes} (ht : t.Sound trees')
    (hwanted : "" ∉ wanted) (hanswer : Answers trees id n) (htype : hasType wanted n = true) :
    ∃ t', (lookUp wanted id).run t = .ok (n, t') := by
  have hne := h.id_ne_null hanswer
  obtain ⟨hn, hsame⟩ := (hanswer.perm hne hperm).named hne
  obtain ⟨m, hm⟩ := exists_findNode
    (fun n hn => h.plain n ((objects_perm hperm).mem_iff.mpr hn)) (List.mem_filter.mp hn).1 htype hsame
  obtain ⟨m', t', hrun⟩ : ∃ m' t', (lookUp wanted id).run t = .ok (m', t') := by
    simp only [run_lookUp_eq_ok_iff, ht.trees_eq]
    cases hhit : t.hit? wanted id with
    | some m' => exact ⟨m', t, hanswer.hashable, Or.inl ⟨rfl, rfl⟩⟩
    | none => exact ⟨m, _, hanswer.hashable, Or.inr ⟨rfl, hm, rfl⟩⟩
  have hfound := (answers_lookUp ht hwanted (fun hnull => absurd hnull hne) hrun).1
  obtain rfl := hanswer.eq h.unique (hfound.perm hne hperm.symm)
  exact ⟨t', hrun⟩

end Orderly

namespace Reads

variable {x : Reading α}

/-- A reading that has a result has it also when the trees are listed in another order, whatever was looked up
before. -/
theorem exists_run (h : Orderly trees) (hperm : trees.Perm trees') (hx : Reads x) {s s' t : Nodes}
    {a : α} (hs : s.Sound trees) (ht : t.Sound trees') (hrun : x.run s = .ok (a, s')) :
    s'.Sound trees ∧ ∃ t', t'.Sound trees' ∧ x.run t = .ok (a, t') := by
  induction hx generalizing s s' t with
  | pure a =>
    cases hrun
    exact ⟨hs, t, ht, rfl⟩
  | throw e => cases hrun
  | lift x =>
    cases x with
    | error e => cases hrun
    | ok b =>
      cases hrun
      exact ⟨hs, t, ht, rfl⟩
  | bind _ _ ihx ihf =>
    rw [StateT.run_bind] at hrun
    obtain ⟨⟨b, s₁⟩, hb, hrun⟩ := bind_eq_ok_iff.mp hrun
    obtain ⟨hs₁, t₁, ht₁, hb'⟩ := ihx hs ht hb
    obtain ⟨hs', t', ht', hrun'⟩ := ihf b hs₁ ht₁ hrun
    refine ⟨hs', t', ht', ?_⟩
    rw [StateT.run_bind]
    exact bind_eq_ok_iff.mpr ⟨(b, t₁), hb', hrun'⟩
  | lookUp hwanted hnull =>
    obtain ⟨hanswer, hs'⟩ := answers_lookUp hs hwanted hnull hrun
    obtain ⟨t', hrun'⟩ := h.lookUp_perm hperm ht hwanted hanswer (hasType_lookUp hrun)
    exact ⟨hs', t', (answers_lookUp ht hwanted hnull hrun').2, hrun'⟩
  | @weigh _ f _ ihf =>
    have hrun : (f (weightItems s.trees)).run s = .ok (a, s') := hrun
    obtain ⟨hs', t', ht', hrun'⟩ := ihf _ hs ht hrun
    refine ⟨hs', t', ht', ?_⟩
    rw [hs.trees_eq, weightItems_perm hperm, ← ht.trees_eq] at hrun'
    exact hrun'

end Reads

/-- At the start nothing was looked up. -/
theorem Nodes.Sound.start (trees : List Json) : (⟨trees, []⟩ : Nodes).Sound trees where
  trees_eq := rfl
  known _ he := absurd he List.not_mem_nil

namespace Gives

variable {x : Reading α} {a : α}

/-- The order in which the trees are listed does not count. -/
theorem perm (hgives : Gives trees x a) (h : Orderly trees) (hperm : trees.Perm trees')
    (hx : Reads x) : Gives trees' x a := by
  obtain ⟨s, s', hs, hrun⟩ := hgives
  obtain ⟨-, t', -, hrun'⟩ := hx.exists_run h hperm hs (.start trees') hrun
  exact ⟨_, t', .start trees', hrun'⟩

/-- A result is given also by a run that starts with nothing looked up. -/
theorem exists_run (hgives : Gives trees x a) (h : Orderly trees) (hx : Reads x) :
    ∃ s', x.run ⟨trees, []⟩ = .ok (a, s') := by
  obtain ⟨s, s', hs, hrun⟩ := hgives
  obtain ⟨-, t', -, hrun'⟩ := hx.exists_run h (List.Perm.refl trees) hs (.start trees) hrun
  exact ⟨t', hrun'⟩

theorem pure (a : α) : Gives trees (Pure.pure a : Reading α) a :=
  ⟨_, _, .start trees, rfl⟩

theorem bind {f : α → Reading β} {b : β} (ha : Gives trees x a) (hb : Gives trees (f a) b)
    (h : Orderly trees) (hx : Reads x) (hf : Reads (f a)) : Gives trees (x >>= f) b := by
  obtain ⟨s, s', hs, hrun⟩ := ha
  obtain ⟨t, t', ht, hrun'⟩ := hb
  have hs' := (hx.determined h.unique s a s' hs hrun).1
  obtain ⟨-, s'', -, hrun''⟩ := hf.exists_run h (List.Perm.refl trees) ht hs' hrun'
  refine ⟨s, s'', hs, ?_⟩
  rw [StateT.run_bind]
  exact bind_eq_ok_iff.mpr ⟨(a, s'), hrun, hrun''⟩

end Gives

end UpgradeSafety.Syntax
