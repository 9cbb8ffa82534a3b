import UpgradeSafety.Proofs.Compare.Appending

/-!
# Layouts that are only appended to

A layout that is kept and appended to compares without any operation, strictly or not
(`layouts_append_only`), when its types are complete and do not contain themselves, no variable
that is no gap starts in a gap, and no variable declares a former name.

The types of what is kept are the same in both layouts, so plain recursion finds no difference
between a former variable and itself (`exists_keptDifferences`), the script of each list keeps and
appends, and the comparison with its memory finds what plain recursion finds. Namespaces stay as
they are and are lists to which nothing is appended.

Three things can stand in the way, and each of them does for some layouts
(`append_only_counterexample`): a variable with the name of a gap that declares a former type, a
number in a type id with too many digits, and gaps in structs of which the size that would fit
cannot be told.
-/

namespace UpgradeSafety.Compare

open UpgradeSafety.Alignment (difference)

/-! ## Layouts -/

/-- No variable of a list that is no gap starts inside a gap. -/
def GapsApart (r : Resolved) : Prop :=
  ∀ v ∈ r.vars, v.isGap = false → ∀ g ∈ r.vars, g.isGap = true → v.startsIn g = false

instance (r : Resolved) : Decidable (GapsApart r) :=
  inferInstanceAs (Decidable (∀ v ∈ r.vars, v.isGap = false → ∀ g ∈ r.vars, g.isGap = true →
    v.startsIn g = false))

/-- The updated layout is the former one with further variables at the end of its storage. -/
structure AppendsTo (former updated : Layout) (os us : Resolved)
    (on un : List (String × Resolved)) : Prop where
  sections : Sections former updated os us on un
  storage : os.Regular ∧ GapsApart os
  namespaces : ∀ p ∈ on, p.2.Regular ∧ GapsApart p.2
  added : ∃ added, updated.storage = former.storage ++ added ∧
    ∀ m ∈ added, m.renamedFrom = none ∧ m.retypedFrom = none ∧ (us.graph.variable m).isGap = false
  wellFormed : us.WellFormed
  storageTypes : ∀ i, os.Reaches i → updated.types.lookup i = former.types.lookup i
  namespaceTypes : ∀ p ∈ on, ∀ i, p.2.Reaches i →
    updated.types.lookup i = former.types.lookup i
  sameNamespaces : ∀ p ∈ former.namespaces, updated.namespaces.lookup p.1 = some p.2

/-- The numbers of all types can be read, the gaps among members are measured, and no variable with
the name of a gap declares a type. -/
structure Unobstructed (os us : Resolved) (on : List (String × Resolved)) : Prop where
  storage : us.Measured
  namespaces : ∀ p ∈ on, p.2.Measured
  declared : ∀ m ∈ os.items, HasGapName m → (os.graph.variable m).isGap = false →
    m.retypedFrom = none

variable {leniency : Leniency}

theorem vars_of_keeps {os us : Resolved} {added : List Item} (hkeeps : us.Keeps os)
    (hitems : us.items = os.items ++ added) : us.vars = os.vars ++ added.map us.graph.variable := by
  rw [Resolved.vars, Resolved.vars, hitems, List.map_append]
  congr 1
  exact List.map_congr_left fun m hm => hkeeps.variable_eq hm

/-- The differences between a storage and the same storage with further variables: what is kept does
not differ, and pairing a gap with a variable that is no gap costs something. -/
structure KeptDifferences (leniency : Leniency) (os us : Resolved)
    (rows : List (List (Option Change))) : Prop where
  gaps : demandGaps os.vars us.vars = .ok ()
  table : differences (checkedChange (plainChange leniency os.graph us.graph
    (pairBound os.graph us.graph))) os.vars us.vars true = .ok rows
  kept : ∀ i < os.vars.length, difference rows i i = none
  gapPair : ∀ i j o u, os.vars[i]? = some o → us.vars[j]? = some u → o.isGap = true →
    u.isGap = false → pairPrice (difference rows i j) ≠ 0

theorem exists_keptDifferences (leniency : Leniency) {os us : Resolved} {added : List Item} {types : TypeTable}
    (hjoined : os.Joined types) (hregular : os.Regular) (hkeeps : us.Keeps os)
    (hitems : us.items = os.items ++ added)
    (hadded : ∀ m ∈ added, m.renamedFrom = none ∧ m.retypedFrom = none)
    (hu : us.WellFormed) (hum : us.Measured)
    (hdeclared : ∀ m ∈ os.items, HasGapName m → (os.graph.variable m).isGap = false →
      m.retypedFrom = none) : ∃ rows, KeptDifferences leniency os us rows := by
  have hom := hkeeps.measured hum
  have hvars := vars_of_keeps hkeeps hitems
  obtain ⟨rows, hrows⟩ : ∃ rows, differences
      (checkedChange (plainChange leniency os.graph us.graph (pairBound os.graph us.graph))) os.vars
        us.vars true = .ok rows :=
    differences_total hom.readable_of_mem hum.readable_of_mem
      (List.forall_mem_map.mpr fun m hm => List.forall_mem_map.mpr fun k hk =>
        plainChange_total leniency hjoined hregular.acyclic hregular.wellFormed hu
          (hom.measuredWith hum) _ (Resolved.reaches_item hm) _ (Resolved.reaches_item hk))
  refine ⟨rows, demandGaps_eq_ok hom.readable_of_mem hum.readable_of_mem, hrows, fun i hi => ?_,
    fun i j o u ho hu hog hug => ?_⟩
  · have ho := List.getElem?_eq_getElem hi
    have hu : us.vars[i]? = some os.vars[i] := by
      rw [hvars, List.getElem?_append_left hi, ho]
    obtain ⟨m, hm, hv⟩ := List.mem_map.mp (List.getElem_mem hi)
    have hread := hom.readable_of_mem _ (List.getElem_mem hi)
    have hchange := variableChange_eq_difference hrows ho hu
    rw [variableChange_self (checkedChange_total hread hread ?_) ?_] at hchange
    · exact (Except.ok.inj hchange).symm
    · rw [← hv]
      exact plainChange_self hjoined hregular hkeeps ‹_› (hom.measuredWith hum) _
        (Resolved.reaches_item hm) _
    · rw [← hv]
      exact hregular.names m hm
  · obtain ⟨m, hm, rfl⟩ := List.mem_map.mp (List.mem_of_getElem? ho)
    have hwell := hregular.wellFormed m.type (Resolved.reaches_item hm)
    have hdeclares : u.item.renamedFrom = none ∧
        (HasGapName u.item → u.item.retypedFrom = none) := by
      have hmem := List.mem_of_getElem? hu
      rw [hvars] at hmem
      rcases List.mem_append.mp hmem with hmem | hmem
      · obtain ⟨k, hk, rfl⟩ := List.mem_map.mp hmem
        exact ⟨hregular.names k hk, fun hname => hdeclared k hk hname hug⟩
      · obtain ⟨k, hk, rfl⟩ := List.mem_map.mp hmem
        exact ⟨(hadded k hk).1, fun _ => (hadded k hk).2⟩
    exact pairPrice_of_gap hog hwell hug hdeclares.1 hdeclares.2
      (variableChange_eq_difference hrows ho hu)

/-- Plain recursion finds nothing in a storage that is only appended to. -/
theorem plainSection_append {os us : Resolved} {added : List Item} {types : TypeTable}
    (hjoined : os.Joined types) (hregular : os.Regular) (hapart : GapsApart os)
    (hkeeps : us.Keeps os) (hitems : us.items = os.items ++ added)
    (hadded : ∀ m ∈ added, m.renamedFrom = none ∧ m.retypedFrom = none ∧
      (us.graph.variable m).isGap = false)
    (hu : us.WellFormed) (hum : us.Measured)
    (hdeclared : ∀ m ∈ os.items, HasGapName m → (os.graph.variable m).isGap = false →
      m.retypedFrom = none) : plainSection leniency os us = .ok [] := by
  obtain ⟨rows, hgaps, hrows, hkept, hpair⟩ := exists_keptDifferences leniency hjoined
    hregular hkeeps hitems (fun m hm => ⟨(hadded m hm).1, (hadded m hm).2.1⟩) hu hum hdeclared
  rw [plainSection]
  rw [vars_of_keeps hkeeps hitems] at hgaps hrows hpair ⊢
  exact listChanges_append hgaps hrows hkept hapart
    (List.forall_mem_map.mpr fun m hm => (hadded m hm).2.2) hpair

/-- Plain recursion finds nothing in namespaces that stay the same. -/
theorem plainSection_sameNamespaces {former updated : Layout} {on un : List (String × Resolved)}
    (hon : former.resolveNamespaces = .ok on) (hun : updated.resolveNamespaces = .ok un)
    (hregular : ∀ p ∈ on, p.2.Regular)
    (htypes : ∀ p ∈ on, ∀ i, p.2.Reaches i → updated.types.lookup i = former.types.lookup i)
    (hsame : ∀ p ∈ former.namespaces, updated.namespaces.lookup p.1 = some p.2)
    (hmeasured : ∀ p ∈ on, p.2.Measured) :
    ∀ p ∈ on, ∃ u, un.lookup p.1 = some u ∧ plainSection leniency p.2 u = .ok [] := by
  intro p hp
  obtain ⟨g, hg, hon, hgItems⟩ := Layout.resolveNamespaces_joined hon
  obtain ⟨g', hg', hun, hgItems'⟩ := Layout.resolveNamespaces_joined hun
  have hp' := hp
  rw [hon] at hp'
  obtain ⟨⟨id, items⟩, hmem, rfl⟩ := List.mem_map.mp hp'
  have hlookup := hsame _ hmem
  have hoJoined : Resolved.Joined former.types ⟨g, items⟩ := ⟨hg, hgItems _ hmem⟩
  have huJoined : Resolved.Joined updated.types ⟨g', items⟩ :=
    ⟨hg', hgItems' _ (mem_of_lookup hlookup)⟩
  have hkeeps : Resolved.Keeps ⟨g', items⟩ ⟨g, items⟩ :=
    Resolved.keeps_of_agree hoJoined huJoined (fun _ hm => hm) (htypes _ hp)
  have hum := (hkeeps.symm fun _ hm => hm).measured (hmeasured _ hp)
  refine ⟨⟨g', items⟩, ?_, plainSection_self hoJoined (hregular _ hp) hkeeps rfl hum⟩
  obtain ⟨l₁, l₂, hsplit, hnot⟩ := List.lookup_eq_some_iff.mp hlookup
  rw [hun, hsplit]
  refine List.lookup_eq_some_iff.mpr ⟨l₁.map fun p => (p.1, ⟨g', p.2⟩),
    l₂.map fun p => (p.1, ⟨g', p.2⟩), by simp, ?_⟩
  intro q hq
  obtain ⟨r, hr, rfl⟩ := List.mem_map.mp hq
  exact hnot r hr

theorem plainSection_namespaces {former updated : Layout} {os us : Resolved}
    {on un : List (String × Resolved)} (h : AppendsTo former updated os us on un)
    (hmeasured : ∀ p ∈ on, p.2.Measured) :
    ∀ p ∈ on, ∃ u, un.lookup p.1 = some u ∧ plainSection leniency p.2 u = .ok [] :=
  plainSection_sameNamespaces h.sections.on h.sections.un (fun p hp => (h.namespaces p hp).1)
    h.namespaceTypes h.sameNamespaces hmeasured

/-- A layout that is kept and appended to compares without any operation, so its report is good and
has neither errors nor notes. -/
theorem layouts_append_only {former updated : Layout} {os us : Resolved}
    {on un : List (String × Resolved)} (h : AppendsTo former updated os us on un)
    (hclear : Unobstructed os us on) (leniency : Leniency) :
    ∃ outcome, layouts leniency former updated = .ok outcome ∧ outcome.operations = [] ∧
      (Report.mk outcome.operations).ok = true := by
  obtain ⟨added, hstorage, hadded⟩ := h.added
  obtain ⟨hoItems, hoJoined⟩ := Layout.resolveStorage_joined h.sections.os
  obtain ⟨huItems, huJoined⟩ := Layout.resolveStorage_joined h.sections.us
  have hitems : us.items = os.items ++ added := by rw [huItems, hoItems, hstorage]
  have hkeeps : us.Keeps os := Resolved.keeps_of_agree hoJoined huJoined
    (fun m hm => by rw [hitems]; exact List.mem_append_left _ hm) h.storageTypes
  have hplain : plainSection leniency os us = .ok [] :=
    plainSection_append hoJoined h.storage.1 h.storage.2 hkeeps hitems hadded h.wellFormed
      hclear.storage hclear.declared
  obtain ⟨outcome, houtcome, hops⟩ := layouts_eq_ok_of_plain h.sections hplain
    (plainSection_namespaces h hclear.namespaces)
  exact ⟨outcome, houtcome, hops, by rw [hops]; rfl⟩

/-! ## Layouts that are checked -/

theorem exists_sections (former updated : Layout) {P Q : Resolved → Prop} [DecidablePred P]
    [DecidablePred Q] (ho : former.namespaces = []) (hu : updated.namespaces = [])
    (hP : former.resolveStorage.toOption.any (fun os => decide (P os)) = true)
    (hQ : updated.resolveStorage.toOption.any (fun us => decide (Q us)) = true) :
    ∃ os us, Sections former updated os us [] [] ∧ P os ∧ Q us := by
  obtain ⟨os, hos, hP⟩ := (Option.any_eq_true _ _).mp hP
  obtain ⟨us, hus, hQ⟩ := (Option.any_eq_true _ _).mp hQ
  exact ⟨os, us, ⟨eq_ok_of_toOption hos, eq_ok_of_toOption hus, resolveNamespaces_nil ho,
    resolveNamespaces_nil hu⟩, of_decide_eq_true hP, of_decide_eq_true hQ⟩

/-- The conditions for a layout that is appended to, checked type by type. -/
theorem appendsTo_of_tame {former updated : Layout} {os us : Resolved} {added : List Item}
    (h : Sections former updated os us [] []) (hnamespaces : former.namespaces = [])
    (htypes : updated.types = former.types) (hstorage : updated.storage = former.storage ++ added)
    (hos : os.Tame ∧ GapsApart os)
    (hus : us.Tame ∧ ∀ m ∈ added, m.renamedFrom = none ∧ m.retypedFrom = none ∧
      (us.graph.variable m).isGap = false) : AppendsTo former updated os us [] [] where
  sections := h
  storage := ⟨hos.1.regular (Layout.resolveStorage_joined h.os).2, hos.2⟩
  namespaces _ hp := by cases hp
  added := ⟨added, hstorage, hus.2⟩
  wellFormed := (hus.1.regular (Layout.resolveStorage_joined h.us).2).wellFormed
  storageTypes _ _ := by rw [htypes]
  namespaceTypes _ hp := by cases hp
  sameNamespaces p hp := by
    rw [hnamespaces] at hp
    cases hp

theorem appendsTo_of_any {former updated : Layout} {added : List Item}
    (ho : former.namespaces = []) (hu : updated.namespaces = [])
    (htypes : updated.types = former.types) (hstorage : updated.storage = former.storage ++ added)
    (hos : former.resolveStorage.toOption.any (fun os => decide (os.Tame ∧ GapsApart os)) = true)
    (hus : updated.resolveStorage.toOption.any (fun us => decide (us.Tame ∧ ∀ m ∈ added,
      m.renamedFrom = none ∧ m.retypedFrom = none ∧ (us.graph.variable m).isGap = false)) = true) :
    ∃ os us, AppendsTo former updated os us [] [] := by
  obtain ⟨os, us, hsections, hos, hus⟩ := exists_sections former updated ho hu hos hus
  exact ⟨os, us, appendsTo_of_tame hsections ho htypes hstorage hos hus⟩

/-- A layout that is its own update. -/
theorem appendsTo_self {layout : Layout} {r : Resolved} (hnamespaces : layout.namespaces = [])
    (hr : layout.resolveStorage = .ok r) (h : r.Tame ∧ GapsApart r) :
    AppendsTo layout layout r r [] [] :=
  appendsTo_of_tame ⟨hr, hr, resolveNamespaces_nil hnamespaces, resolveNamespaces_nil hnamespaces⟩
    hnamespaces rfl (List.append_nil _).symm h ⟨h.1, fun _ hm => absurd hm List.not_mem_nil⟩

theorem appendsTo_self_of_any {layout : Layout} (hnamespaces : layout.namespaces = [])
    (h : layout.resolveStorage.toOption.any (fun r => decide (r.Tame ∧ GapsApart r)) = true) :
    ∃ os us, AppendsTo layout layout os us [] [] := by
  obtain ⟨r, hr, h⟩ := (Option.any_eq_true _ _).mp h
  exact ⟨r, r, appendsTo_self hnamespaces (eq_ok_of_toOption hr) (of_decide_eq_true h)⟩

/-- A layout with two structs that consist of a gap each, a gap behind them and what is added. The
slot of the first member and the size of the second one are free. -/
def reservations (slot size : Int) (added : List Item) : Layout where
  layoutVersion := some Layout.currentVersion
  storage :=
    [{ label := "first", type := "t_struct(Reservation1)1_storage" },
      { label := "second", type := "t_struct(Reservation2)2_storage" }, gap 2 5] ++ added
  types :=
    [("t_uint256", { label := "uint256", numberOfBytes := some 32 }),
      ("t_array(t_uint256)2_storage", { label := "uint256[2]", numberOfBytes := some 64 }),
      ("t_array(t_uint256)3_storage", { label := "uint256[3]", numberOfBytes := some size }),
      ("t_struct(Reservation1)1_storage",
        { label := "struct Reservation1", members := some (.items [gap 2 slot]) }),
      ("t_struct(Reservation2)2_storage",
        { label := "struct Reservation2", members := some (.items [gap 3 0]) })]

/-- A word is appended behind two structs with gaps and a gap. -/
theorem layouts_append_only_word :
    ∃ outcome, layouts {} (reservations 0 96 []) (reservations 0 96 [word "limit" 7]) =
      .ok outcome ∧ outcome.operations = [] ∧ (Report.mk outcome.operations).ok = true := by
  obtain ⟨os, us, hsections, ⟨hos, hdeclared⟩, hus, hmeasured⟩ :=
    exists_sections (reservations 0 96 []) (reservations 0 96 [word "limit" 7])
      (P := fun os => (os.Tame ∧ GapsApart os) ∧ ∀ m ∈ os.items, HasGapName m →
        (os.graph.variable m).isGap = false → m.retypedFrom = none)
      (Q := fun us => (us.Tame ∧ ∀ m ∈ [word "limit" 7], m.renamedFrom = none ∧
        m.retypedFrom = none ∧ (us.graph.variable m).isGap = false) ∧
          ∀ p ∈ us.graph, p.2.Readable ∧ us.graph.GapsMeasured p.2)
      rfl rfl (by decide +kernel) (by decide +kernel)
  have happends := appendsTo_of_tame hsections rfl rfl rfl hos hus
  exact layouts_append_only happends
    ⟨Resolved.measured_of_graph (Layout.resolveStorage_joined hsections.us).2 hmeasured,
      (fun _ hp => by cases hp), hdeclared⟩ {}

/-! ## Integers with too many digits -/

/-- The id of an unsigned integer type, the size of which is written with ones. -/
def uintId (digits : Nat) : String :=
  String.ofList ('t' :: '_' :: 'u' :: 'i' :: 'n' :: 't' :: List.replicate digits '1')

/-- Its type. -/
def uintType (digits : Nat) : TypeNode where
  id := uintId digits
  head := uintId digits
  label := "uint"

/-- A layout with an address and such an integer. -/
def uintLayout (digits : Nat) : Layout where
  layoutVersion := some Layout.currentVersion
  storage := [(address "owner" 0).item, { label := "limit", type := uintId digits }]
  types := [("t_address", { label := "address", numberOfBytes := some 20 }),
    (uintId digits, { label := "uint" })]

/-- What it is resolved to. -/
def uintStorage (digits : Nat) : Resolved where
  graph := [("t_address", addressType), (uintId digits, uintType digits)]
  items := (uintLayout digits).storage

theorem uintId_ne (digits : Nat) (id : String) (h : id.toList.take 4 ≠ ['t', '_', 'u', 'i']) :
    uintId digits ≠ id := by
  rintro rfl
  rw [uintId, String.toList_ofList] at h
  exact h rfl

theorem uintId_beq (digits : Nat) : (uintId digits == "t_address") = false :=
  beq_eq_false_iff_ne.mpr (uintId_ne digits "t_address" (by decide))

theorem kind_uintType (digits : Nat) : (uintType digits).kind = .elementary := by
  have hchars : (uintId digits).toList =
      't' :: '_' :: 'u' :: 'i' :: 'n' :: 't' :: List.replicate digits '1' :=
    String.toList_ofList
  have hprefix (s : String) (hs : ¬ s.toList.take 3 <+: ['t', '_', 'u']) :
      (uintId digits).startsWith s = false := by
    rw [String.startsWith_string_eq_false_iff, hchars]
    exact fun h => hs (h.take 3)
  rw [TypeNode.kind, uintType, TypeId.kindOfHead, hprefix "t_function" (by decide),
    hprefix "t_bytes_" (by decide), hprefix "t_string" (by decide)]
  have hne := uintId_ne digits
  simp [hne "t_struct" (by decide), hne "t_enum" (by decide), hne "t_array" (by decide),
    hne "t_mapping" (by decide), hne "t_contract" (by decide),
    hne "t_userDefinedValueType" (by decide)]

theorem resolveStorage_uintLayout (digits : Nat) :
    (uintLayout digits).resolveStorage = .ok (uintStorage digits) := by
  have hread : TypeId.read (uintId digits) =
      .ok ⟨uintId digits, uintId digits, none, none, none⟩ :=
    TypeId.read_of_not_mem (by simp)
  have hread' : TypeId.read "t_address" = .ok ⟨"t_address", "t_address", none, none, none⟩ := by
    with_unfolding_all rfl
  have hitems (bound : Nat) : Resolution.resolveItems (uintLayout digits).types (bound + 1) []
      (uintLayout digits).storage = .ok (uintStorage digits).graph := by
    simp [Resolution.resolveItems, Resolution.resolve, uintLayout, uintStorage, address, hread,
      hread', List.lookup_cons, uintId_beq, TypeNode.ofEntry, addressType, uintType, bind, Except.bind,
      pure, Except.pure]
  rw [Layout.resolveStorage, Resolution.mentions]
  simp only [hitems]
  rfl

theorem vars_uintStorage (digits : Nat) : (uintStorage digits).vars =
    [address "owner" 0, ⟨{ label := "limit", type := uintId digits }, uintType digits⟩] := by
  simp [Resolved.vars, uintStorage, uintLayout, TypeGraph.variable, TypeGraph.node, address,
    List.lookup_cons, uintId_beq]

theorem isComplete_uintType (digits : Nat) : (uintType digits).IsComplete := by
  rw [TypeNode.isComplete_iff, kind_uintType]
  simp

theorem inside_uintType (digits : Nat) : (uintType digits).inside = [] := by
  rw [TypeNode.inside, kind_uintType]

theorem tame_uintStorage (digits : Nat) :
    (uintStorage digits).Tame ∧ GapsApart (uintStorage digits) := by
  refine ⟨⟨?_, ?_, ?_, ?_⟩, ?_⟩
  · exact List.forall_mem_cons.mpr ⟨by decide +kernel, List.forall_mem_singleton.mpr (isComplete_uintType digits)⟩
  · exact List.forall_mem_cons.mpr ⟨by decide +kernel,
      List.forall_mem_singleton.mpr fun _ hj => absurd (inside_uintType digits ▸ hj) List.not_mem_nil⟩
  · exact List.forall_mem_cons.mpr ⟨rfl, List.forall_mem_singleton.mpr rfl⟩
  · exact List.forall_mem_cons.mpr ⟨fun _ hm => absurd hm List.not_mem_nil,
      List.forall_mem_singleton.mpr fun _ hm => absurd hm List.not_mem_nil⟩
  · intro v _ _ g hg hgap
    rw [vars_uintStorage] at hg
    have hnone : ∀ g ∈ [address "owner" 0,
        ⟨{ label := "limit", type := uintId digits }, uintType digits⟩], g.isGap = false :=
      List.forall_mem_cons.mpr ⟨rfl, List.forall_mem_singleton.mpr rfl⟩
    rw [hnone g hg] at hgap
    cases hgap

theorem integerExcess?_uintType {digits : Nat} (h : Numeral.maxDecimalDigits < digits) :
    (uintType digits).integerExcess? = some digits := by
  have hdigits : TypeId.integerDigits? (uintId digits) =
      some (false, List.replicate digits '1') := by
    have hdigit : Text.isDecimalDigit '1' = true := by decide
    have htake : (List.replicate digits '1').takeWhile Text.isDecimalDigit =
        List.replicate digits '1' := by
      rw [List.takeWhile_replicate, if_pos hdigit]
    have hdrop : (List.replicate digits '1').dropWhile Text.isDecimalDigit = [] := by
      rw [List.dropWhile_replicate, if_pos hdigit]
    have hne : (List.replicate digits '1').isEmpty = false := by
      rw [List.isEmpty_replicate]
      exact decide_eq_false (by omega)
    rw [TypeId.integerDigits?, uintId, String.toList_ofList]
    simp only [htake, hdrop, hne]
    rfl
  rw [TypeNode.integerExcess?, uintType, TypeId.integerExcess?, hdigits]
  change TypeId.excess? (List.replicate digits '1') = _
  rw [TypeId.excess?, List.length_replicate, if_pos h]

/-- An integer with too many digits stops the comparison with another type. -/
theorem listChanges_uint_ne_ok {digits : Nat} (h : Numeral.maxDecimalDigits < digits)
    {og ug : TypeGraph} {depth : Nat} {strict a : Bool} {ops : List Operation} :
    listChanges strict (plainChange leniency og ug (depth + 1)) (uintStorage digits).vars
      (uintStorage digits).vars a ≠ .ok ops := by
  intro hok
  obtain ⟨-, rows, -, -, hrows, -⟩ := listChanges_eq_ok_iff.mp hok
  rw [vars_uintStorage] at hrows
  have hchange := variableChange_eq_difference (i := 0) (j := 1) hrows rfl rfl
  have hcheck {a : Bool} {d : Option TypeChange} :
      checkedChange (plainChange leniency og ug (depth + 1)) addressType (uintType digits) a ≠
        .ok d := by
    have hhead : addressType.head ≠ (uintType digits).head :=
      fun heq => beq_eq_false_iff_ne.mp (uintId_beq digits) heq.symm
    rw [checkedChange, plainChange, typeChangeWith, if_pos hhead, integerExcess?_uintType h]
    intro hd
    cases hd
  obtain ⟨type, -, hgravest⟩ := variableChange_eq_gravestChange (by rfl) hchange
  rcases hgravest with ⟨h, -⟩ | ⟨-, h⟩
  · cases h
  · exact hcheck h

theorem layouts_uint_ne_ok {digits : Nat} (h : Numeral.maxDecimalDigits < digits)
    (outcome : Outcome) :
    layouts leniency (uintLayout digits) (uintLayout digits) ≠ .ok outcome := by
  intro hok
  obtain ⟨os, us, hsections, hplain⟩ := (plainStorage_eq_some_iff rfl rfl).mp
    ((layouts_iff_plainStorage rfl rfl).mp ⟨outcome, hok, rfl⟩)
  have hos := hsections.os
  have hus := hsections.us
  rw [resolveStorage_uintLayout] at hos hus
  cases hos
  cases hus
  exact listChanges_uint_ne_ok h hplain

/-! ## What stands in the way -/

/-- A layout with a gap and a word of its name that declares the type of the gap, and what is
added. -/
def declaredGap (added : List Item) : Layout :=
  wordLayout ([gap 2 0, { word "__gap" 2 with retypedFrom := some "uint256[2]" }] ++ added)

/-- Each of the further conditions is needed. A word with the name of a gap that declares a type is
taken for moved; and the comparison is stopped by an integer with too many digits, by a gap in a
struct of which the elements take no byte, and by one that begins too far behind. -/
theorem append_only_counterexample :
    (∃ os us, AppendsTo (declaredGap []) (declaredGap [word "__gap" 3]) os us [] []) ∧
    (∃ outcome, layouts {} (declaredGap []) (declaredGap [word "__gap" 3]) = .ok outcome ∧
      (Report.mk outcome.operations).ok = false) ∧
    (∃ os us, AppendsTo (uintLayout 4301) (uintLayout 4301) os us [] []) ∧
    (∀ outcome, layouts {} (uintLayout 4301) (uintLayout 4301) ≠ .ok outcome) ∧
    (∃ os us, AppendsTo (reservations 0 1 []) (reservations 0 1 []) os us [] []) ∧
    (∀ outcome, layouts {} (reservations 0 1 []) (reservations 0 1 []) ≠ .ok outcome) ∧
    (∃ os us, AppendsTo (reservations (4 * 10 ^ 4298) 3 [])
      (reservations (4 * 10 ^ 4298) 3 []) os us [] []) ∧
    ∀ outcome, layouts {} (reservations (4 * 10 ^ 4298) 3 [])
      (reservations (4 * 10 ^ 4298) 3 []) ≠ .ok outcome := by
  refine ⟨?_, ?_, ?_, ?_, ?_, ?_, ?_, ?_⟩
  · exact appendsTo_of_any rfl rfl rfl rfl (by decide +kernel) (by decide +kernel)
  · have herrors : (plainStorage {} (declaredGap []) (declaredGap [word "__gap" 3])).map
        (fun ops => (Report.mk ops).ok) = some false := by
      decide +kernel
    obtain ⟨ops, hops, hok⟩ := Option.map_eq_some_iff.mp herrors
    obtain ⟨outcome, houtcome, rfl⟩ := (layouts_iff_plainStorage rfl rfl).mpr hops
    exact ⟨outcome, houtcome, hok⟩
  · exact ⟨_, _, appendsTo_self rfl (resolveStorage_uintLayout 4301) (tame_uintStorage 4301)⟩
  · exact layouts_uint_ne_ok (by decide)
  · exact appendsTo_self_of_any rfl (by decide +kernel)
  · exact layouts_ne_ok_of_plainStorage rfl rfl (by decide +kernel)
  · exact appendsTo_self_of_any rfl (by decide +kernel)
  · exact layouts_ne_ok_of_plainStorage rfl rfl (by decide +kernel)

end UpgradeSafety.Compare
