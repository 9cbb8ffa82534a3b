import UpgradeSafety.Proofs.Compare.AppendOnly
import UpgradeSafety.Proofs.Compare.CarriedOver

/-!
# Variables behind a last gap

A layout may be kept and have any variables behind it, gaps among them. Nothing is reported unless
the last former variable is a gap and one of the new variables could take its place (`Exposed`): a
gap with the same elements, or one of its name the type of which fits. Then the last former gap is
never paired with itself. The gap that is kept starts in its own bytes, so the alignment may insert
it for nothing and pair the former gap with the last of the new variables that can be paired with
it, and the pair is an error, since that variable stands behind the gap
(`appended_behind_reported`).

The result is exact: it says of every such extension whether it is refused. Whether a variable can
take the place of a gap is a question of the price of one pair (`pairPrice_eq_zero_iff_of_isGap`),
and the alignment reads pairs from the end, so that the last candidate is taken. A gap behind a
last gap is the plain case of it (`appended_gap_refused`).
-/

namespace UpgradeSafety.Compare

open UpgradeSafety.Alignment (difference Filled Step)

/-! ## Pairs of a gap -/

section Pair

variable {tc : CompareTypes (Except Obstacle)} {siblings : List Variable} {i : Nat}
  {g v : Variable} {a : Bool} {d : Option Change}

/-- A variable can take the place of a gap for nothing when it is a gap with the same elements, or
has its name and a type that fits. -/
def TakesPlace (tc : CompareTypes (Except Obstacle)) (a : Bool) (g v : Variable) : Prop :=
  areGaps g v = true ∨ (v.item.label = g.item.label ∧ tc g.type v.type a = .ok none)

theorem pairPrice_eq_zero_iff_of_isGap (hg : g.isGap = true)
    (hv : v.item.renamedFrom = none ∧ v.item.retypedFrom = none)
    (h : variableChange (checkedChange tc g.type v.type a) siblings i g v = .ok d) :
    pairPrice d = 0 ↔ TakesPlace tc a g v := by
  cases hgaps : areGaps g v with
  | true =>
    have hfree : pairPrice d = 0 := by
      unfold variableChange at h
      rw [← areGaps, hgaps, if_pos rfl] at h
      split at h <;> cases h <;> rfl
    exact ⟨fun _ => Or.inl hgaps, fun _ => hfree⟩
  | false =>
    obtain ⟨type, rfl, htype⟩ := variableChange_eq_gravestChange hgaps h
    have hdeclares : declaresType g v = false := by rw [declaresType, hv.2]
    rw [hdeclares] at htype
    obtain ⟨-, hfound⟩ := htype.resolve_left fun h => Bool.noConfusion h.1
    have hlabel : namesDiffer g.item v.item = false ↔ v.item.label = g.item.label := by
      rw [namesDiffer_eq_false_iff, hv.1]
      simp
    have hplace : TakesPlace tc a g v ↔ namesDiffer g.item v.item = false ∧ type = none := by
      rw [TakesPlace, hgaps, checkedChange_eq_ok hfound, ← hlabel]
      simp
    rw [hplace, gravestChange, widens_of_isGap hg, Bool.and_false, if_neg Bool.false_ne_true]
    cases type with
    | some t => cases namesDiffer g.item v.item <;> simp [pairPrice]
    | none =>
      cases namesDiffer g.item v.item with
      | true => simp [pairPrice]
      | false => cases move? g.item v.item <;> simp [pairPrice]

theorem startsIn_self (h : v.startsIn v = true) :
    ∃ start last, v.position? = some start ∧ v.end? = some last ∧ start < last := by
  unfold Variable.startsIn at h
  split at h
  · rename_i start last _ hstart hlast hstart'
    rw [hstart] at hstart'
    cases hstart'
    exact ⟨start, last, hstart, hlast, of_decide_eq_true (Bool.and_eq_true_iff.mp h).2⟩
  · cases h

theorem move?_ne_none_of_position (h : g.position? ≠ v.position?) (hg : g.position?.isSome = true)
    (hv : v.position?.isSome = true) : move? g.item v.item ≠ none := by
  intro hnone
  obtain ⟨slot, hslot⟩ := Option.isSome_iff_exists.mp ((Option.isSome_map).symm.trans hg)
  obtain ⟨slot', hslot'⟩ := Option.isSome_iff_exists.mp ((Option.isSome_map).symm.trans hv)
  obtain ⟨rfl, hoffset⟩ := move?_eq_none_iff.mp hnone slot slot' hslot hslot'
  exact h (by rw [Variable.position?, Variable.position?, hslot, hslot', hoffset])

/-- A gap that is paired for nothing with a variable behind it is an error. -/
theorem judgePair_of_behind {found : Except Obstacle (Option TypeChange)} {last start : Int}
    (hg : g.startsIn g = true) (hv : v.startsIn v = true) (hlast : g.end? = some last)
    (hstart : v.position? = some start) (hle : last ≤ start)
    (h : variableChange found siblings i g v = .ok d) (hfree : pairPrice d = 0) :
    ∃ c, d = some c ∧ ∀ strict op, judgePair strict c = .ok op →
      op.note = false ∧ op.change.former? = some g ∧ op.change.updated? = some v := by
  obtain ⟨s, e, hs, he, hse⟩ := startsIn_self hg
  obtain ⟨t, f, ht, hf, htf⟩ := startsIn_self hv
  rw [he] at hlast
  rw [ht] at hstart
  cases hlast
  cases hstart
  have hposition : g.position? ≠ v.position? := by
    rw [hs, ht]
    intro heq
    cases heq
    omega
  cases hgaps : areGaps g v with
  | true =>
    have hd : d = some (.resizeGap g v none) := by
      unfold variableChange at h
      rw [← areGaps, hgaps, if_pos rfl, if_neg (by simp [hposition])] at h
      exact (Except.ok.inj h).symm
    refine ⟨_, hd, fun strict op hop => ?_⟩
    obtain ⟨n, note, rfl, hends⟩ := judgeResizedGap_eq_ok hop
    refine ⟨Bool.eq_false_iff.mpr fun hnote => ?_, rfl, rfl⟩
    obtain ⟨stop, hgStop, hvStop⟩ := hends hnote
    rw [he] at hgStop
    rw [hf] at hvStop
    cases hgStop
    cases hvStop
    omega
  | false =>
    obtain ⟨type, rfl, -⟩ := variableChange_eq_gravestChange hgaps h
    have hmove := move?_ne_none_of_position hposition (by rw [hs]; rfl) (by rw [ht]; rfl)
    obtain ⟨m, hm⟩ := Option.ne_none_iff_exists'.mp hmove
    have hthree : (3 : Int) ≠ 0 := by decide
    refine ⟨.move g v m, ?_, fun strict op hop => ?_⟩
    · unfold gravestChange at hfree ⊢
      dsimp only at hfree ⊢
      split at hfree
      · exact absurd hfree hthree
      · exact absurd hfree hthree
      · exact absurd hfree hthree
      · rw [hm]
        rfl
    · cases hop
      exact ⟨rfl, rfl, rfl⟩

end Pair

/-! ## Lists -/

section Lists

variable {tc : CompareTypes (Except Obstacle)} {former updated : List Variable} {strict : Bool}
  {rows : List (List (Option Change))} {ops : List Operation} {i : Nat} {g : Variable}

/-- A last gap that is not paired with itself is an error: it is paired with a variable behind it
that can take its place. -/
theorem exists_error_of_takesPlace
    (hrows : differences (checkedChange tc) former updated true = .ok rows)
    (hlength : former.length = i + 1) (hg : former[i]? = some g) (hgap : g.isGap = true)
    (hstarts : g.startsIn g = true) (hkept : ∀ k < former.length, difference rows k k = none)
    (hsame : updated[i]? = some g)
    (hbehind : ∀ j v, i < j → updated[j]? = some v → pairPrice (difference rows i j) = 0 →
      v.startsIn v = true ∧ ∃ last start, g.end? = some last ∧ v.position? = some start ∧
        last ≤ start)
    {j : Nat} (hij : i < j) (hj : j < updated.length) (hfree : pairPrice (difference rows i j) = 0)
    (h : listChanges strict tc former updated true = .ok ops) :
    ∃ op ∈ ops, op.note = false ∧ op.change.former? = some g ∧
      ∃ k v, i < k ∧ updated[k]? = some v ∧ op.change.updated? = some v := by
  have hp := prices_nonneg former updated rows
  obtain ⟨-, rows', steps, script, hrows', hsteps, hfilled, hjudge⟩ := listChanges_eq_ok_iff.mp h
  rw [hrows] at hrows'
  cases hrows'
  -- the gap that is kept starts in itself, so everything up to the former gap is free without it
  have hdiagonal : Alignment.least (prices former updated rows) former.length i i = 0 := by
    have h0 : Alignment.least (prices former updated rows) former.length 0 0 = 0 := by
      rw [Alignment.least]
    simpa using Alignment.least_pairs hp h0 (k := i) fun l hl => by
      rw [Nat.zero_add, prices_pair, hkept l (by omega)]
      rfl
  have hrow : ∀ l, i < l → l < updated.length →
      Alignment.least (prices former updated rows) former.length i l = 0 := by
    intro l hil hl
    obtain ⟨k, rfl⟩ : ∃ k, l = i + k := ⟨l - i, by omega⟩
    refine Alignment.least_adds hp hdiagonal fun x hx => ?_
    rw [Alignment.Prices.insertOrAppend]
    split
    · rfl
    · obtain rfl : x = 0 := by omega
      exact prices_insert_eq_zero hsame hg hgap hstarts
  rw [hlength] at hsteps hrow
  obtain ⟨k, hik, hk, hzero, hmem⟩ := Alignment.exists_pair_of_free hp hij hj hrow hfree hsteps
  rw [prices_pair] at hzero
  have hv := List.getElem?_eq_getElem hk
  obtain ⟨hself, last, start, hlast, hstart, hle⟩ := hbehind k _ hik hv hzero
  obtain ⟨c, hc, herror⟩ := judgePair_of_behind hstarts hself hlast hstart hle
    (variableChange_eq_difference hrows hg hv) hzero
  obtain ⟨op, hop, hjudged⟩ := exists_judgePair hfilled hjudge hmem hc
  obtain ⟨hnote, hformer, hupdated⟩ := herror strict op hjudged
  exact ⟨op, hop, hnote, hformer, k, _, hik, hv, hupdated⟩

end Lists

/-! ## Layouts -/

/-- The updated layout is the former one with further variables of any kind at the end of its
storage. -/
structure ExtendsTo (former updated : Layout) (os us : Resolved)
    (on un : List (String × Resolved)) (added : List Item) : Prop where
  sections : Sections former updated os us on un
  storage : os.Regular ∧ GapsApart os
  namespaces : ∀ p ∈ on, p.2.Regular
  items : updated.storage = former.storage ++ added
  undeclared : ∀ m ∈ added, m.renamedFrom = none ∧ m.retypedFrom = none
  wellFormed : us.WellFormed
  storageTypes : ∀ i, os.Reaches i → updated.types.lookup i = former.types.lookup i
  namespaceTypes : ∀ p ∈ on, ∀ i, p.2.Reaches i →
    updated.types.lookup i = former.types.lookup i
  sameNamespaces : ∀ p ∈ former.namespaces, updated.namespaces.lookup p.1 = some p.2

/-- The last former variable is a gap, and one of the new variables can take its place. -/
def Exposed (leniency : Leniency) (os us : Resolved) (added : List Item) : Prop :=
  ∃ g, os.vars.getLast? = some g ∧ g.isGap = true ∧ ∃ m ∈ added,
    TakesPlace (freshChange leniency os.graph us.graph) true g (us.graph.variable m)

/-- Every new variable stands behind every former one, and gaps take some bytes. -/
structure StandBehind (os us : Resolved) (added : List Item) : Prop where
  behind : ∀ v ∈ os.vars, ∀ m ∈ added, ∃ last start, v.end? = some last ∧
    (us.graph.variable m).position? = some start ∧ last ≤ start
  gaps : ∀ v ∈ us.vars, v.isGap = true → v.startsIn v = true

instance (os us : Resolved) (added : List Item) : Decidable (StandBehind os us added) :=
  decidable_of_iff
    ((∀ v ∈ os.vars, ∀ m ∈ added, ∃ last ∈ v.end?.toList,
        ∃ start ∈ (us.graph.variable m).position?.toList, last ≤ start) ∧
      ∀ v ∈ us.vars, v.isGap = true → v.startsIn v = true)
    ⟨fun h => ⟨fun v hv m hm => by
        obtain ⟨last, hlast, start, hstart, hle⟩ := h.1 v hv m hm
        exact ⟨last, start, Option.mem_toList.mp hlast, Option.mem_toList.mp hstart, hle⟩, h.2⟩,
      fun h => ⟨fun v hv m hm => by
        obtain ⟨last, start, hlast, hstart, hle⟩ := h.behind v hv m hm
        exact ⟨last, Option.mem_toList.mpr hlast, start, Option.mem_toList.mpr hstart, hle⟩,
          h.gaps⟩⟩

section Layouts

variable {leniency : Leniency} {os us : Resolved} {added : List Item}
  {rows : List (List (Option Change))}

theorem takesPlace_fresh_iff (hog : os.graph.Keyed) (hug : us.graph.Keyed) {g v : Variable}
    (hg : g ∈ os.vars) (hv : v ∈ us.vars) {a : Bool} :
    TakesPlace (freshChange leniency os.graph us.graph) a g v ↔
      TakesPlace (plainChange leniency os.graph us.graph (pairBound os.graph us.graph)) a g v := by
  rw [TakesPlace, TakesPlace, freshChange_vars_iff hog hug hg hv]

theorem getLast?_of_length {l : List Variable} {i : Nat} (hi : l.length = i + 1) :
    l.getLast? = l[i]? := by
  rw [List.getLast?_eq_getElem?, hi, Nat.add_sub_cancel]

theorem mem_added_of_le {j : Nat} {v : Variable}
    (hvars : us.vars = os.vars ++ added.map us.graph.variable) (hj : os.vars.length ≤ j) (hv : us.vars[j]? = some v) :
    ∃ m ∈ added, us.graph.variable m = v := by
  rw [hvars, List.getElem?_append_right hj] at hv
  exact List.mem_map.mp (List.mem_of_getElem? hv)

/-- Plain recursion finds nothing in a storage with further variables behind it when the last former
variable is not exposed. -/
theorem plainSection_of_not_exposed (hog : os.graph.Keyed) (hug : us.graph.Keyed)
    (hrows : KeptDifferences leniency os us rows)
    (hvars : us.vars = os.vars ++ added.map us.graph.variable) (hapart : GapsApart os)
    (hadded : ∀ m ∈ added, m.renamedFrom = none ∧ m.retypedFrom = none)
    (hexposed : ¬ Exposed leniency os us added) : plainSection leniency os us = .ok [] := by
  refine listChanges_eq_nil hrows.gaps hrows.table (by rw [hvars]; simp) (Or.inl rfl) hrows.kept
    fun i j hi hj hlt => ?_
  have ho := List.getElem?_eq_getElem (show i < os.vars.length by omega)
  cases hgap : os.vars[i].isGap with
  | false =>
    have hpair := hrows.gapPair
    rw [hvars] at hpair ⊢
    exact Or.inr (least_pos_of_append hapart hpair ho hgap hi hj)
  | true =>
    left
    intro hfree
    have hv := List.getElem?_eq_getElem hlt
    obtain ⟨m, hm, hmv⟩ := mem_added_of_le hvars hj hv
    have hplace := (pairPrice_eq_zero_iff_of_isGap hgap (by rw [← hmv]; exact hadded m hm)
      (variableChange_eq_difference hrows.table ho hv)).mp hfree
    have hmode : (true && i + 1 == os.vars.length) = true := by simp [hi]
    rw [hmode] at hplace
    refine hexposed ⟨_, (getLast?_of_length hi).trans ho, hgap, m, hm, ?_⟩
    rw [hmv]
    exact (takesPlace_fresh_iff hog hug (List.mem_of_getElem? ho) (List.mem_of_getElem? hv)).mpr
      hplace

/-- When the last former variable is exposed, a variable behind it is paired with it and moved or
resized, which is an error. -/
theorem exists_error_of_exposed (hog : os.graph.Keyed) (hug : us.graph.Keyed)
    (hrows : KeptDifferences leniency os us rows)
    (hvars : us.vars = os.vars ++ added.map us.graph.variable)
    (hadded : ∀ m ∈ added, m.renamedFrom = none ∧ m.retypedFrom = none)
    (hstand : StandBehind os us added) (hexposed : Exposed leniency os us added)
    {ops : List Operation} (hops : plainSection leniency os us = .ok ops) :
    ∃ op ∈ ops, op.note = false ∧ (∃ g, os.vars.getLast? = some g ∧ op.change.former? = some g) ∧
      ∃ m ∈ added, op.change.updated? = some (us.graph.variable m) := by
  obtain ⟨g, hlast, hgap, m, hm, hplace⟩ := hexposed
  obtain ⟨i, hi⟩ : ∃ i, os.vars.length = i + 1 := by
    refine Nat.exists_eq_succ_of_ne_zero fun h => ?_
    rw [List.length_eq_zero_iff.mp h] at hlast
    cases hlast
  have hg : os.vars[i]? = some g := (getLast?_of_length hi).symm.trans hlast
  have hmem := List.mem_of_getElem? hg
  have hsame : us.vars[i]? = some g := by
    rw [hvars, List.getElem?_append_left (by omega), hg]
  -- the new variable stands at some index behind the gap, where the price of the pair is zero
  obtain ⟨j, hj⟩ := List.mem_iff_getElem?.mp (List.mem_map_of_mem (f := us.graph.variable) hm)
  have hv : us.vars[os.vars.length + j]? = some (us.graph.variable m) := by
    rw [hvars, getElem?_append_add, hj]
  have hprice := pairPrice_eq_zero_iff_of_isGap hgap (hadded m hm)
    (variableChange_eq_difference hrows.table hg hv)
  have hmode : (true && i + 1 == os.vars.length) = true := by simp [hi]
  rw [hmode] at hprice
  have hfree := hprice.mpr
    ((takesPlace_fresh_iff hog hug hmem (List.mem_of_getElem? hv)).mp hplace)
  have hbehind : ∀ k v, i < k → us.vars[k]? = some v → pairPrice (difference rows i k) = 0 →
      v.startsIn v = true ∧ ∃ last start, g.end? = some last ∧ v.position? = some start ∧
        last ≤ start := by
    intro k v hik hv hzero
    have hvgap : v.isGap = true := by
      cases h : v.isGap with
      | true => rfl
      | false => exact absurd hzero (hrows.gapPair i k g v hg hv hgap h)
    obtain ⟨m', hm', rfl⟩ := mem_added_of_le hvars (by omega) hv
    exact ⟨hstand.gaps _ (List.mem_of_getElem? hv) hvgap, hstand.behind g hmem m' hm'⟩
  obtain ⟨op, hop, hnote, hformer, k, v, hik, hk, hupdated⟩ := exists_error_of_takesPlace
    hrows.table hi hg hgap (hstand.gaps g (List.mem_of_getElem? hsame) hgap) hrows.kept hsame
    hbehind (by omega) (List.getElem?_eq_some_iff.mp hv).1 hfree hops
  obtain ⟨m', hm', rfl⟩ := mem_added_of_le hvars (by omega) hk
  exact ⟨op, hop, hnote, ⟨g, hlast, hformer⟩, m', hm', hupdated⟩

end Layouts

/-- A layout that is kept and has further variables behind it compares without any operation unless
its last variable is exposed. Then one of the operations is an error: the last gap is paired with a
variable behind it. -/
theorem appended_behind_reported {former updated : Layout} {os us : Resolved}
    {on un : List (String × Resolved)} {added : List Item}
    (h : ExtendsTo former updated os us on un added) (hclear : Unobstructed os us on)
    (leniency : Leniency) :
    (¬ Exposed leniency os us added →
      ∃ outcome, layouts leniency former updated = .ok outcome ∧ outcome.operations = []) ∧
    (Exposed leniency os us added → StandBehind os us added →
      ∀ outcome, layouts leniency former updated = .ok outcome →
        ∃ op ∈ outcome.operations, op.note = false ∧
          (∃ g, os.vars.getLast? = some g ∧ op.change.former? = some g) ∧
          ∃ m ∈ added, op.change.updated? = some (us.graph.variable m)) := by
  obtain ⟨hoItems, hoJoined⟩ := Layout.resolveStorage_joined h.sections.os
  obtain ⟨huItems, huJoined⟩ := Layout.resolveStorage_joined h.sections.us
  have hog := hoJoined.graph.keyed
  have hug := huJoined.graph.keyed
  have hitems : us.items = os.items ++ added := by rw [huItems, hoItems, h.items]
  have hkeeps : us.Keeps os := Resolved.keeps_of_agree hoJoined huJoined
    (fun m hm => by rw [hitems]; exact List.mem_append_left _ hm) h.storageTypes
  have hvars := vars_of_keeps hkeeps hitems
  obtain ⟨rows, hrows⟩ := exists_keptDifferences leniency hoJoined h.storage.1 hkeeps hitems
    h.undeclared h.wellFormed hclear.storage hclear.declared
  constructor
  · intro hexposed
    exact layouts_eq_ok_of_plain h.sections
      (plainSection_of_not_exposed hog hug hrows hvars h.storage.2 h.undeclared hexposed)
      (plainSection_sameNamespaces h.sections.on h.sections.un h.namespaces h.namespaceTypes
        h.sameNamespaces hclear.namespaces)
  · intro hexposed hstand outcome houtcome
    obtain ⟨os', us', _, _, hsections, storage, parts, hstorage, -, hops⟩ := layouts_eq_ok houtcome
    have hos := h.sections.os.symm.trans hsections.os
    have hus := h.sections.us.symm.trans hsections.us
    cases hos
    cases hus
    obtain ⟨op, hop, herror⟩ := exists_error_of_exposed hog hug hrows hvars h.undeclared hstand
      hexposed ((listChanges_fresh_iff hog hug).mp hstorage)
    exact ⟨op, by rw [hops]; exact List.mem_append_left _ hop, herror⟩

/-! ## An owner and a gap -/

/-- The conditions for words and gaps with further ones behind them, checked type by type. -/
theorem exists_extendsTo_words (storage added : List Item) (P : Resolved → Resolved → Prop)
    [∀ os us, Decidable (P os us)]
    (h : ((wordLayout storage).resolveStorage.toOption.any fun os =>
      (wordLayout (storage ++ added)).resolveStorage.toOption.any fun us => decide
        (os.Tame ∧ GapsApart os ∧
          (∀ m ∈ os.items, HasGapName m → (os.graph.variable m).isGap = false →
            m.retypedFrom = none) ∧
          us.Tame ∧ (∀ p ∈ us.graph, p.2.Readable ∧ us.graph.GapsMeasured p.2) ∧
          (∀ m ∈ added, m.renamedFrom = none ∧ m.retypedFrom = none) ∧ P os us)) = true) :
    ∃ os us, ExtendsTo (wordLayout storage) (wordLayout (storage ++ added)) os us [] [] added ∧
      Unobstructed os us [] ∧ P os us := by
  obtain ⟨os, us, hsections, hot, hapart, hdeclared, hut, hum, hadded, hP⟩ :=
    exists_sections_of_any (wordLayout storage) (wordLayout (storage ++ added)) _ rfl rfl h
  obtain ⟨-, ho⟩ := Layout.resolveStorage_joined hsections.os
  obtain ⟨-, hu⟩ := Layout.resolveStorage_joined hsections.us
  refine ⟨os, us, ?_, ?_, hP⟩
  · exact
      { sections := hsections
        storage := ⟨hot.regular ho, hapart⟩
        namespaces := fun _ hp => by cases hp
        items := rfl
        undeclared := hadded
        wellFormed := (hut.regular hu).wellFormed
        storageTypes := fun _ _ => rfl
        namespaceTypes := fun _ hp => by cases hp
        sameNamespaces := fun _ hp => by cases hp }
  · exact ⟨Resolved.measured_of_graph hu hum, (fun _ hp => by cases hp), hdeclared⟩

/-- An owner and a gap, with a limit and another gap behind them. -/
theorem exists_exposed_gap :
    ∃ os us, ExtendsTo (wordLayout [word "owner" 0, gap 2 1])
        (wordLayout ([word "owner" 0, gap 2 1] ++ [word "limit" 3, gap 2 4])) os us [] []
          [word "limit" 3, gap 2 4] ∧ Unobstructed os us [] ∧
      os.vars.getLast? = some ⟨gap 2 1, gapType 2 64⟩ ∧
      us.graph.variable (gap 2 4) = ⟨gap 2 4, gapType 2 64⟩ ∧
      StandBehind os us [word "limit" 3, gap 2 4] ∧
      us.vars.Pairwise (fun v w => v.startsIn w = false ∧ w.startsIn v = false) :=
  exists_extendsTo_words _ _ _ (by decide +kernel)

/-- A limit and a gap behind an admin, and the same behind a gap. -/
theorem appended_behind_reported_words :
    (∃ outcome, layouts {} (wordLayout [word "owner" 0, gap 2 1, word "admin" 3])
        (wordLayout ([word "owner" 0, gap 2 1, word "admin" 3] ++ [word "limit" 4, gap 2 5])) =
      .ok outcome ∧ outcome.operations = []) ∧
    ∀ outcome, layouts {} (wordLayout [word "owner" 0, gap 2 1])
        (wordLayout ([word "owner" 0, gap 2 1] ++ [word "limit" 3, gap 2 4])) = .ok outcome →
      ∃ op ∈ outcome.operations, op.note = false ∧
        op.change.former? = some ⟨gap 2 1, gapType 2 64⟩ := by
  constructor
  · obtain ⟨os, us, hextends, hclear, hlast⟩ := exists_extendsTo_words
      [word "owner" 0, gap 2 1, word "admin" 3] [word "limit" 4, gap 2 5]
      (fun os _ => os.vars.getLast? = some ⟨word "admin" 3, wordType⟩) (by decide +kernel)
    refine (appended_behind_reported hextends hclear {}).1 ?_
    rintro ⟨g, hg, hgap, -⟩
    rw [hlast] at hg
    cases hg
    exact absurd hgap (by decide +kernel)
  · obtain ⟨os, us, hextends, hclear, hlast, hnew, hstand, -⟩ := exists_exposed_gap
    have hexposed : Exposed {} os us [word "limit" 3, gap 2 4] := by
      refine ⟨_, hlast, by decide +kernel, gap 2 4, by simp, Or.inl ?_⟩
      rw [hnew]
      decide +kernel
    intro outcome houtcome
    obtain ⟨op, hop, hnote, ⟨g, hg, hformer⟩, -⟩ :=
      (appended_behind_reported hextends hclear {}).2 hexposed hstand outcome houtcome
    rw [hlast] at hg
    cases hg
    exact ⟨op, hop, hnote, hformer⟩

/-- A gap behind a last gap: nothing overlaps and nothing moved, but the upgrade is refused. -/
theorem appended_gap_refused :
    (∃ os us, ExtendsTo (wordLayout [word "owner" 0, gap 2 1])
        (wordLayout ([word "owner" 0, gap 2 1] ++ [word "limit" 3, gap 2 4])) os us [] []
          [word "limit" 3, gap 2 4] ∧ Unobstructed os us [] ∧
      StandBehind os us [word "limit" 3, gap 2 4] ∧
      us.vars.Pairwise (fun v w => v.startsIn w = false ∧ w.startsIn v = false)) ∧
    ∃ outcome, layouts {} (wordLayout [word "owner" 0, gap 2 1])
        (wordLayout ([word "owner" 0, gap 2 1] ++ [word "limit" 3, gap 2 4])) = .ok outcome ∧
      (Report.mk outcome.operations).ok = false := by
  constructor
  · obtain ⟨os, us, hextends, hclear, -, -, hstand, hapart⟩ := exists_exposed_gap
    exact ⟨os, us, hextends, hclear, hstand, hapart⟩
  · exact exists_outcome_of_plainStorage rfl rfl (by decide +kernel)

end UpgradeSafety.Compare
