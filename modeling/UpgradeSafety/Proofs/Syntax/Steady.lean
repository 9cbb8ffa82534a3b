import UpgradeSafety.Proofs.Syntax.Closure

/-!
# Readings of steady lookups

As long as contracts and the definitions of types are looked up, what is remembered is what a
search of the trees finds (`Steady`). So what a reading gives can be said without saying what was
looked up before: of its result, if it ends (`Ensures`), or that it ends with such a result
(`Delivers`).

No node is wanted as one of both kinds, so what is remembered for a contract never answers for a
type. That is why ids need not be unique here, as they have to be where nodes of any types are
looked up.

* `delivers_loadType`: a type name that can be read is loaded at any time. The table spreads
  (`Spreads`): its entries stay as they are, except that those without members get some, and
  nothing that is new is laid out.
-/

namespace UpgradeSafety.Syntax

variable {trees : List Json} {wanted wanted' : List String} {id n typeName : Json} {s s' t t' : Nodes}
  {types types' types'' : TypeTable} {α β : Type}

/-! ## Steady lookups -/

/-- The node types of what is looked up to load namespaces: contracts, and definitions of types. -/
def lookedUp : List (List String) := [["ContractDefinition"], definitionNodes]

/-- What is remembered of the trees is what a search finds. -/
structure Steady (trees : List Json) (s : Nodes) : Prop where
  sound : s.Sound trees
  hit : ∀ wanted ∈ lookedUp, ∀ id n, id.hashable = true → s.hit? wanted id = some n →
    findNode wanted id trees = .ok n

/-- At the start nothing is remembered. -/
theorem Steady.start (trees : List Json) : Steady trees ⟨trees, []⟩ :=
  ⟨⟨rfl, nofun⟩, fun _ _ _ _ _ => nofun⟩

/-- A lookup finds what a search finds. -/
theorem Steady.finds_iff (hs : Steady trees s) (hwanted : wanted ∈ lookedUp) :
    Finds s wanted id n ↔ Finds ⟨trees, []⟩ wanted id n := by
  rw [Syntax.finds_iff, Syntax.finds_iff, hs.sound.trees_eq]
  refine and_congr_right fun hid => ?_
  have hnothing : (⟨trees, []⟩ : Nodes).hit? wanted id = none := rfl
  rw [hnothing]
  cases hhit : s.hit? wanted id with
  | none => simp
  | some m => simp [hs.hit wanted hwanted id m hid hhit]

/-- No node is wanted as one of two kinds. -/
theorem eq_of_hasType (hwanted : wanted ∈ lookedUp) (hwanted' : wanted' ∈ lookedUp)
    (h : hasType wanted n = true) (h' : hasType wanted' n = true) : wanted' = wanted := by
  obtain ⟨w, hw, htype⟩ := List.any_eq_true.mp h
  obtain ⟨w', hw', htype'⟩ := List.any_eq_true.mp h'
  rw [beq_iff_eq] at htype htype'
  obtain rfl := Option.some.inj (htype.symm.trans htype')
  have hapart : ∀ a ∈ lookedUp, ∀ b ∈ lookedUp, ∀ w ∈ a, w ∈ b → b = a := by decide
  exact hapart wanted hwanted wanted' hwanted' w hw hw'

theorem Steady.lookUp (hs : Steady trees s) (hwanted : wanted ∈ lookedUp)
    (hnull : id = .null → wanted = ["ContractDefinition"])
    (h : (lookUp wanted id).run s = .ok (n, s')) : Steady trees s' := by
  have hnamed : "" ∉ wanted := by
    have : ∀ a ∈ lookedUp, "" ∉ a := by decide
    exact this wanted hwanted
  refine ⟨(answers_lookUp hs.sound hnamed hnull h).2, ?_⟩
  obtain ⟨hid, ⟨-, rfl⟩ | ⟨-, hfind, rfl⟩⟩ := run_lookUp_eq_ok_iff.mp h
  · exact hs.hit
  · rw [hs.sound.trees_eq] at hfind
    intro wanted' hwanted' id' m hid' hhit
    cases hsame : id.same id' with
    | false =>
      refine hs.hit wanted' hwanted' id' m hid' ?_
      simpa [Nodes.hit?, hsame] using hhit
    | true =>
      obtain ⟨rfl, htype⟩ : n = m ∧ hasType wanted' m = true := by
        simpa [Nodes.hit?, hsame, Option.filter_eq_some_iff] using hhit
      obtain rfl := eq_of_hasType hwanted hwanted' (findNode_eq_ok hfind).2.1 htype
      exact findNode_of_same hid hid' hsame hfind

theorem Steady.later (ht : Steady trees t) : LaterThan ⟨trees, []⟩ t where
  sound := ht.sound
  finds _ _ := ht.finds_iff (by simp [lookedUp])

/-- A reading that ends leaves the lookups steady, and its result has a property. -/
def Ensures (trees : List Json) (x : Reading α) (Q : α → Prop) : Prop :=
  ∀ t a t', Steady trees t → x.run t = .ok (a, t') → Steady trees t' ∧ Q a

namespace Ensures

variable {P : α → Prop} {Q : β → Prop}

theorem pure {a : α} (h : P a) : Ensures trees (Pure.pure a : Reading α) P := by
  intro t b t' ht hrun
  cases hrun
  exact ⟨ht, h⟩

theorem lift (x : Except Failure α) : Ensures trees (liftM x : Reading α) (x = .ok ·) := by
  intro t a t' ht hrun
  cases x with
  | error e => cases hrun
  | ok b =>
    cases hrun
    exact ⟨ht, rfl⟩

theorem bind {x : Reading α} {f : α → Reading β} (hx : Ensures trees x P)
    (hf : ∀ a, P a → Ensures trees (f a) Q) : Ensures trees (x >>= f) Q := by
  intro t b t' ht hrun
  rw [StateT.run_bind] at hrun
  obtain ⟨⟨a, t₁⟩, ha, hb⟩ := bind_eq_ok_iff.mp hrun
  obtain ⟨ht₁, hP⟩ := hx t a t₁ ht ha
  exact hf a hP t₁ b t' ht₁ hb

theorem lookUp (hwanted : wanted ∈ lookedUp) (hnull : id = .null → wanted = ["ContractDefinition"]) :
    Ensures trees (Syntax.lookUp wanted id) fun _ => True :=
  fun _ _ _ ht hrun => ⟨ht.lookUp hwanted hnull hrun, trivial⟩

theorem mono {P' : α → Prop} {x : Reading α} (h : Ensures trees x P) (himp : ∀ a, P a → P' a) :
    Ensures trees x P' :=
  fun t a t' ht hrun => (h t a t' ht hrun).imp_right (himp a)

end Ensures

/-- A reading ends with a result that has a property, and leaves the lookups steady. -/
def Delivers (trees : List Json) (x : Reading α) (Q : α → Prop) : Prop :=
  ∀ t, Steady trees t → ∃ a t', x.run t = .ok (a, t') ∧ Steady trees t' ∧ Q a

namespace Delivers

variable {P : α → Prop} {Q : β → Prop}

theorem pure {a : α} (h : P a) : Delivers trees (Pure.pure a : Reading α) P :=
  fun t ht => ⟨a, t, rfl, ht, h⟩

theorem lift {x : Except Failure α} {a : α} (hx : x = .ok a) (h : P a) :
    Delivers trees (liftM x : Reading α) P := by
  subst hx
  exact fun t ht => ⟨a, t, rfl, ht, h⟩

theorem bind {x : Reading α} {f : α → Reading β} (hx : Delivers trees x P)
    (hf : ∀ a, P a → Delivers trees (f a) Q) : Delivers trees (x >>= f) Q := by
  intro t ht
  obtain ⟨a, t₁, ha, ht₁, hP⟩ := hx t ht
  obtain ⟨b, t', hb, ht', hQ⟩ := hf a hP t₁ ht₁
  refine ⟨b, t', ?_, ht', hQ⟩
  rw [StateT.run_bind]
  exact bind_eq_ok_iff.mpr ⟨(a, t₁), ha, hb⟩

theorem mono {P' : α → Prop} {x : Reading α} (h : Delivers trees x P) (himp : ∀ a, P a → P' a) :
    Delivers trees x P' := by
  intro t ht
  obtain ⟨a, t', hrun, ht', hP⟩ := h t ht
  exact ⟨a, t', hrun, ht', himp a hP⟩

/-- A lifted computation at the start of a reading. -/
theorem lift_bind {x : Except Failure α} {f : α → Reading β} {a : α} (hx : x = .ok a)
    (hf : Delivers trees (f a) Q) : Delivers trees (liftM x >>= f) Q :=
  bind (lift hx (rfl : a = a)) fun _ h => h ▸ hf

theorem lookUp (hwanted : wanted ∈ lookedUp) (hnull : id = .null → wanted = ["ContractDefinition"])
    (hfinds : Finds ⟨trees, []⟩ wanted id n) : Delivers trees (Syntax.lookUp wanted id) (· = n) := by
  intro t ht
  obtain ⟨t', hrun⟩ := (ht.finds_iff hwanted).mpr hfinds
  exact ⟨n, t', hrun, ht.lookUp hwanted hnull hrun, rfl⟩

/-- A loop ends when every step does, and has what its steps establish. -/
theorem foldlM {f : β → α → Reading β} {I : List α → β → Prop} {l : List α}
    (hstep : ∀ done, ∀ a ∈ l, ∀ b, I done b → Delivers trees (f b a) (I (done ++ [a])))
    {done : List α} {b : β} (hb : I done b) : Delivers trees (l.foldlM f b) (I (done ++ l)) := by
  induction l generalizing done b with
  | nil =>
    rw [List.append_nil]
    exact pure hb
  | cons a l ih =>
    rw [List.foldlM_cons, List.append_cons]
    refine bind (hstep done a List.mem_cons_self b hb) fun b' hb' => ?_
    exact ih (fun done a ha => hstep done a (List.mem_cons_of_mem _ ha)) hb'

end Delivers

/-! ## Spreading tables -/

/-- No member of an entry is laid out. -/
def Unplaced (entry : TypeEntry) : Prop :=
  ∀ items, entry.members = some (.items items) → ∀ i ∈ items, i.slot = none

/-- An entry stays as it is, or gets members that are not laid out. -/
def Retains (entry entry' : TypeEntry) : Prop :=
  entry' = entry ∨ (entry.members = none ∧ entry'.label = entry.label ∧ Unplaced entry')

theorem Unplaced.retains {entry entry' : TypeEntry} (h : Unplaced entry) (hkeeps : Retains entry entry') :
    Unplaced entry' := by
  rcases hkeeps with rfl | ⟨-, -, h'⟩
  · exact h
  · exact h'

theorem Retains.trans {entry entry' entry'' : TypeEntry} (h : Retains entry entry')
    (h' : Retains entry' entry'') : Retains entry entry'' := by
  rcases h with rfl | ⟨hnone, hlabel, hplaced⟩
  · exact h'
  · refine Or.inr ⟨hnone, ?_, hplaced.retains h'⟩
    rcases h' with rfl | ⟨-, hlabel', -⟩
    · exact hlabel
    · exact hlabel'.trans hlabel

theorem matched_refl (types : TypeTable) : Matched Retains types types :=
  List.forall₂_same.mpr fun _ _ => ⟨rfl, Or.inl rfl⟩

/-- A table retains the entries of another one in front, and those behind them are not laid out. -/
def Spreads (types types' : TypeTable) : Prop :=
  ∃ front back, types' = front ++ back ∧ Matched Retains types front ∧ ∀ e ∈ back, Unplaced e.2

theorem Spreads.refl (types : TypeTable) : Spreads types types :=
  ⟨types, [], (List.append_nil types).symm, matched_refl types, List.forall_mem_nil _⟩

theorem Spreads.trans (h : Spreads types types') (h' : Spreads types' types'') :
    Spreads types types'' := by
  obtain ⟨front, back, rfl, hfront, hback⟩ := h
  obtain ⟨front', back', rfl, hfront', hback'⟩ := h'
  have hfirst := List.forall₂_take front.length hfront'
  have hsecond := List.forall₂_drop front.length hfront'
  rw [List.take_left] at hfirst
  rw [List.drop_left] at hsecond
  refine ⟨front'.take front.length, front'.drop front.length ++ back', ?_, ?_, ?_⟩
  · rw [← List.append_assoc, List.take_append_drop]
  · exact hfront.trans hfirst fun _ _ _ => Retains.trans
  · refine List.forall_mem_append.mpr ⟨fun e he => ?_, hback'⟩
    obtain ⟨e₀, he₀, hkeeps⟩ := exists_of_mem_forall₂ hsecond he
    exact (hback e₀ he₀).retains hkeeps.2

theorem spreads_enter (key label : String) (types : TypeTable) :
    Spreads types (enter key label types) := by
  unfold enter
  split
  · exact .refl types
  · rename_i hnew
    rw [Bool.not_eq_true, Option.isSome_eq_false_iff, Option.isNone_iff_eq_none] at hnew
    rw [hnew]
    exact ⟨types, _, rfl, matched_refl types, List.forall_mem_singleton.mpr nofun⟩

theorem spreads_putField {key : String} {entry : TypeEntry} {members : Members}
    (hentry : types.lookup key = some entry) (hnone : entry.members = none)
    (hplaced : Unplaced { entry with members := some members }) :
    Spreads types (putField key { entry with members := some members } types) := by
  refine ⟨_, [], (List.append_nil _).symm, ?_, List.forall_mem_nil _⟩
  induction types with
  | nil => cases hentry
  | cons e types ih =>
    obtain ⟨k, v⟩ := e
    rw [putField]
    split
    · rename_i hk
      obtain rfl : k = key := beq_iff_eq.mp hk
      rw [List.lookup_cons_self] at hentry
      obtain rfl := Option.some.inj hentry
      exact .cons ⟨rfl, Or.inr ⟨hnone, rfl, hplaced⟩⟩ (matched_refl types)
    · rename_i hk
      have hother : key ≠ k := fun heq => hk (by simp [heq])
      rw [lookup_cons_other hother] at hentry
      exact .cons ⟨rfl, Or.inl rfl⟩ (ih hentry)

/-- The members of a definition are not laid out. -/
theorem unplaced_typeMembers {d : Json} {members : Members} (h : typeMembers d = .ok members)
    (entry : TypeEntry) : Unplaced { entry with members := some members } := by
  unfold typeMembers at h
  obtain ⟨type, -, h⟩ := bind_eq_ok_iff.mp h
  split at h
  · obtain ⟨items, hitems, h⟩ := bind_eq_ok_iff.mp h
    cases h
    intro items' heq i hi
    cases heq
    unfold structMembers at hitems
    obtain ⟨field, -, hitems⟩ := bind_eq_ok_iff.mp hitems
    obtain ⟨definitions, -, hitems⟩ := bind_eq_ok_iff.mp hitems
    obtain ⟨d, -, hitem⟩ := exists_of_mem_forall₂ (mapM_eq_ok_iff.mp hitems) hi
    obtain ⟨label, -, hitem⟩ := bind_eq_ok_iff.mp hitem
    obtain ⟨description, -, hitem⟩ := bind_eq_ok_iff.mp hitem
    split at hitem
    · cases hitem
      rfl
    · cases hitem
  · unfold enumNames at h
    obtain ⟨field, -, h⟩ := bind_eq_ok_iff.mp h
    obtain ⟨definitions, -, h⟩ := bind_eq_ok_iff.mp h
    obtain ⟨names, -, h⟩ := bind_eq_ok_iff.mp h
    intro items heq
    cases h
    split at heq <;> cases heq

/-! ## Loading -/

theorem ensures_loadPending (fuel : Nat) (met : Met) (pending : List Json) (types : TypeTable) :
    Ensures trees (loadPending fuel met pending types) (Spreads types) := by
  induction fuel generalizing met pending types with
  | zero => exact .pure (.refl types)
  | succ fuel ih =>
    cases pending with
    | nil => exact .pure (.refl types)
    | cons node rest =>
      unfold loadPending
      refine .bind (.lift _) fun description _ => ?_
      obtain ⟨identifier, label⟩ := description
      have henter := spreads_enter (TypeId.normalizeIdentifier identifier) label types
      have hentry := lookup_enter (TypeId.normalizeIdentifier identifier) label types
      refine .bind (.lift _) fun reference _ => ?_
      split
      · exact (ih _ _ _).mono fun _ => henter.trans
      · rename_i hreference
        split
        · exact (ih _ _ _).mono fun _ => henter.trans
        · refine .bind (.lookUp (by simp [lookedUp]) fun hnull => (hreference hnull).elim)
            fun definition _ => ?_
          have hrest {filled : TypeTable} (hfilled : Spreads types filled) (found : Met × List Json) :
              Ensures trees (loadPending fuel found.1 (rest ++ found.2) filled) (Spreads types) :=
            (ih _ _ _).mono fun _ => hfilled.trans
          dsimp only
          split
          · rename_i hfill
            have hnone := Option.isNone_iff_eq_none.mp (Bool.and_eq_true_iff.mp hfill).1
            refine .bind (.lift _) fun members hmembers => ?_
            have hspreads := spreads_putField hentry hnone (unplaced_typeMembers hmembers _)
            exact .bind (.pure (henter.trans hspreads)) fun filled hfilled =>
              .bind (.lift _) fun found _ => hrest hfilled found
          · exact .bind (.pure henter) fun filled hfilled =>
              .bind (.lift _) fun found _ => hrest hfilled found

theorem ensures_loadType (typeName : Json) (types : TypeTable) :
    Ensures trees (loadType typeName types) (Spreads types) := by
  unfold loadType
  refine .bind (.lift _) fun fresh _ => ?_
  intro t types' t' ht hrun
  exact ensures_loadPending _ _ _ types t types' t' ht hrun

/-- A type name that can be read is loaded, whatever was loaded before. -/
theorem delivers_loadType (hread : Legible ⟨trees, []⟩ [] typeName) (types : TypeTable) :
    Delivers trees (loadType typeName types) (Spreads types) := by
  intro t ht
  obtain ⟨added, hmeet, hadds⟩ := exists_meetIn [] hread.searched
    fun n hn => hread.identified n (.inside hn)
  have hstart : Progress ⟨trees, []⟩ typeName types [] added types := by
    refine ⟨hadds.nodup List.nodup_nil, fun e he => ?_, hadds.all, nofun, nofun, .refl _ types⟩
    exact ⟨.inside (hadds.mem e he).1, (hadds.mem e he).2⟩
  have hfuel : weight typeName + weightItems trees ≤
      ([] : Met).length + (weight typeName + weightItems trees + 1) := by omega
  obtain ⟨types', t', done, hrun, -, -⟩ :=
    exists_run_loadPending (hread.into types) (Steady.start trees).sound ht.later hstart hfuel
  have hrun : (loadType typeName types).run t = .ok (types', t') := by
    rw [loadType, hmeet]
    change (loadPending (weight typeName + weightItems t.trees + 1) _ _ types).run t = _
    rw [ht.sound.trees_eq]
    exact hrun
  exact ⟨types', t', hrun, ensures_loadType typeName types t types' t' ht hrun⟩

end UpgradeSafety.Syntax
