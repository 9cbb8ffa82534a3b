import UpgradeSafety.Proofs.Compare.TakenGap

/-!
# Gaps of structs that give up room

A struct may have a gap among its members, of which further members take the first bytes. The two
struct types are then compared member by member (`taken_members_reported`): where appending is
allowed they do not differ, as long as the gap ends where it ended.

Where appending is forbidden, in an array or before another variable, the index of a member
decides. The members behind the length of the former struct count as appended, so the types differ
although all of them start in the gap (`taken_members_refused`).

The members are two lists of which the updated one takes room, so their operations are known
already: one for the gap, and one for each of the members behind the length of the former struct.
Of these the errors are kept in the difference of the two types (`errorChanges_takesRoom`), and a
gap that ends right has none. The counterexample is a struct of a gap alone, in front of an owner.
-/

namespace UpgradeSafety

/-- The members of a struct type. -/
structure TypeNode.IsStruct (t : TypeNode) (items : List Item) : Prop where
  head : t.head = "t_struct"
  args : t.args.isSome = true
  members : t.members.bind Members.items? = some items

namespace Compare

/-- How two struct types differ, given the errors among their members. -/
def membersChange (o u : TypeNode) (a : Bool) : List Change → Option TypeChange
  | [] => none
  | errors => some (.structMembers o u errors a)

theorem errorChanges_takesRoom (a : Bool) (appended : List Variable) {op : Operation}
    (hop : op.note = true) :
    errorChanges ((if a then [] else appended.map fun v => ⟨.append v, false, none⟩) ++ [op]) =
      if a then [] else appended.map .append := by
  have happended : errorChanges (appended.map fun v => ⟨.append v, false, none⟩) =
      appended.map .append := by
    simp [errorChanges, List.filter_map, Function.comp_def]
  cases a with
  | true => simp [errorChanges, hop]
  | false =>
    rw [← happended]
    simp [errorChanges, hop]

section Struct

variable {o u : TypeNode} {a : Bool}

/-- The types differ by the members behind the length of the former struct, and only where appending
is forbidden. -/
theorem membersChange_drop (added : List Variable) (n : Nat) :
    membersChange o u a (if a then [] else (added.drop n).map .append) =
      if a = true ∨ added.length ≤ n then none
      else some (.structMembers o u ((added.drop n).map .append) false) := by
  cases a with
  | true => simp [membersChange]
  | false =>
    by_cases hle : added.length ≤ n
    · rw [List.drop_eq_nil_of_le hle, if_pos (Or.inr hle)]
      rfl
    · obtain ⟨v, rest, hdrop⟩ := List.exists_cons_of_length_pos
        (show 0 < (added.drop n).length by rw [List.length_drop]; omega)
      simp [membersChange, hle, hdrop]

variable {leniency : Leniency} {og ug : TypeGraph} {os us : List Item} {ops : List Operation}

/-- Two struct types are compared by their members. -/
theorem typeChangeWith_of_struct {inner : CompareTypes (Except Obstacle)} (ho : o.IsStruct os)
    (hu : u.IsStruct us) :
    typeChangeWith leniency (pure ()) og ug inner o u a =
      (listChanges leniency.strictRenames inner (os.map og.variable) (us.map ug.variable) a).map
        fun ops => membersChange o u a (errorChanges ops) := by
  obtain ⟨oArgs, hoArgs⟩ := Option.isSome_iff_exists.mp ho.args
  obtain ⟨uArgs, huArgs⟩ := Option.isSome_iff_exists.mp hu.args
  obtain ⟨om, hom, hos⟩ := Option.bind_eq_some_iff.mp ho.members
  obtain ⟨um, hum, hus⟩ := Option.bind_eq_some_iff.mp hu.members
  have hkind : o.kind = .struct := by
    rw [TypeNode.kind, ho.head]
    decide +kernel
  rw [typeChangeWith, if_neg (not_not.mpr (ho.head.trans hu.head.symm)), hoArgs, huArgs, hkind]
  change structChange leniency (pure ()) og ug inner o u a = _
  rw [structChange, hom, hum]
  dsimp only
  rw [hos, hus]
  dsimp only
  cases listChanges leniency.strictRenames inner (os.map og.variable) (us.map ug.variable) a with
  | error e => rfl
  | ok ops =>
    change (match errorChanges ops with
      | [] => (pure none : Except Obstacle (Option TypeChange))
      | errors => pure (some (.structMembers o u errors a))) =
        .ok (membersChange o u a (errorChanges ops))
    cases errorChanges ops <;> rfl

theorem typeChangeWith_of_listChanges {inner : CompareTypes (Except Obstacle)}
    (ho : o.IsStruct os) (hu : u.IsStruct us)
    (h : listChanges leniency.strictRenames inner (os.map og.variable) (us.map ug.variable) a =
      .ok ops) :
    typeChangeWith leniency (pure ()) og ug inner o u a =
      .ok (membersChange o u a (errorChanges ops)) := by
  rw [typeChangeWith_of_struct ho hu, h]
  rfl

end Struct

/-- What is reported of two struct types of which the updated one has further members in a gap:
those behind the length of the former one are errors where appending is forbidden. -/
theorem taken_members_reported {leniency : Leniency} {former updated : Resolved} {memory : Memory}
    {i j : String} {os us : List Item} {a : Bool} {before after added : List Variable}
    {g g' : Variable} (hunderway : Underway leniency former updated memory)
    (hi : former.graph.lookup i ≠ none) (hj : updated.graph.lookup j ≠ none)
    (ho : (former.graph.node i).IsStruct os) (hu : (updated.graph.node j).IsStruct us)
    (hformer : os.map former.graph.variable = before ++ g :: after)
    (hupdated : us.map updated.graph.variable = before ++ (added ++ g' :: after))
    (htakes : TakesRoom (freshChange leniency former.graph updated.graph) a before after added g g')
    (hcomparable : Comparable (freshChange leniency former.graph updated.graph)
      (os.map former.graph.variable) (us.map updated.graph.variable) a)
    (hends : g.end? = g'.end?) :
    ∃ memory', (typeChange leniency former.graph updated.graph
        (pairBound former.graph updated.graph) [] (former.graph.node i) (updated.graph.node j)
          a).run.run memory =
      (.ok (if a = true ∨ added.length ≤ after.length + 1 then none
        else some (.structMembers (former.graph.node i) (updated.graph.node j)
          ((added.drop (after.length + 1)).map .append) false)), memory') := by
  rw [hformer, hupdated] at hcomparable
  obtain ⟨n, hfresh⟩ := listChanges_takesRoom htakes leniency.strictRenames hcomparable
    fun _ _ _ _ hne => absurd hends hne
  rw [← hformer, ← hupdated] at hfresh
  have ⟨og, ug, hog, hug, _⟩ := hunderway
  have hdeep : plainChange leniency former.graph updated.graph
      (pairBound former.graph updated.graph + 1) (former.graph.node i) (updated.graph.node j) a =
        .ok (membersChange (former.graph.node i) (updated.graph.node j) a _) :=
    typeChangeWith_of_listChanges ho hu ((listChanges_fresh_iff hog.keyed hug.keyed).mp hfresh)
  rw [errorChanges_takesRoom a _ (decide_eq_true hends), membersChange_drop] at hdeep
  exact hunderway.run_type_of_plain hi hj (plainChange_pairBound hdeep)

/-! ## A struct before another variable -/

abbrev reservedId : String := "t_struct(Reservation)1_storage"

/-- A struct before an owner. -/
def reservedLayout (members : List Item) : Layout where
  layoutVersion := some Layout.currentVersion
  storage := [{ label := "reserved", type := reservedId, slot := some 0 }, word "owner" 3]
  types :=
    [("t_uint256", { label := "uint256", numberOfBytes := some 32 }),
      ("t_array(t_uint256)1_storage", { label := "uint256[1]", numberOfBytes := some 32 }),
      ("t_array(t_uint256)3_storage", { label := "uint256[3]", numberOfBytes := some 96 }),
      (reservedId,
        { label := "struct Reservation"
          numberOfBytes := some 96
          members := some (.items members) })]

/-- The type of the struct. -/
def reservedType (members : List Item) : TypeNode where
  id := reservedId
  head := "t_struct"
  tail := some "1_storage"
  label := "struct Reservation"
  numberOfBytes := some 96
  args := some ["Reservation"]
  members := some (.items members)

theorem isStruct_reservedType (members : List Item) : (reservedType members).IsStruct members :=
  ⟨rfl, rfl, rfl⟩

/-- The members of the struct: a gap, and the same gap with two words in its first bytes. -/
abbrev formerMembers : List Item := [gap 3 0]

abbrev takenMembers : List Item := [word "first" 0, word "second" 1]

abbrev updatedMembers : List Item := takenMembers ++ [gap 1 2]

/-- What is known of the two layouts. -/
structure ReservedTaken (os us : Resolved) : Prop where
  sections : Sections (reservedLayout formerMembers) (reservedLayout updatedMembers) os us [] []
  former : os.graph.lookup reservedId = some (reservedType formerMembers)
  updated : us.graph.lookup reservedId = some (reservedType updatedMembers)
  formerVars : formerMembers.map os.graph.variable = [⟨gap 3 0, gapType 3 96⟩]
  updatedVars : updatedMembers.map us.graph.variable =
    takenMembers.map (⟨·, wordType⟩) ++ [⟨gap 1 2, gapType 1 32⟩]
  comparable : Comparable (freshChange {} os.graph us.graph) (formerMembers.map os.graph.variable)
    (updatedMembers.map us.graph.variable) false

theorem exists_reservedTaken : ∃ os us, ReservedTaken os us ∧
    (plainChange {} os.graph us.graph (pairBound os.graph us.graph) (os.graph.node reservedId)
      (us.graph.node reservedId) false).toOption.map Option.isNone = some false := by
  obtain ⟨os, us, hsections, hformer, hupdated, hos, hus, hot, hut, hol, hul, hom, hum, hne⟩ :=
    exists_sections_of_any (reservedLayout formerMembers) (reservedLayout updatedMembers)
      (fun os us => os.graph.lookup reservedId = some (reservedType formerMembers) ∧
        us.graph.lookup reservedId = some (reservedType updatedMembers) ∧
        formerMembers.map os.graph.variable = [⟨gap 3 0, gapType 3 96⟩] ∧
        updatedMembers.map us.graph.variable =
          takenMembers.map (⟨·, wordType⟩) ++ [⟨gap 1 2, gapType 1 32⟩] ∧
        Resolved.Tame ⟨os.graph, formerMembers⟩ ∧ Resolved.Tame ⟨us.graph, updatedMembers⟩ ∧
        (∀ m ∈ formerMembers, os.graph.lookup m.type ≠ none) ∧
        (∀ m ∈ updatedMembers, us.graph.lookup m.type ≠ none) ∧
        (∀ p ∈ os.graph, p.2.Readable ∧ os.graph.GapsMeasured p.2) ∧
        (∀ p ∈ us.graph, p.2.Readable ∧ us.graph.GapsMeasured p.2) ∧
        (plainChange {} os.graph us.graph (pairBound os.graph us.graph) (os.graph.node reservedId)
          (us.graph.node reservedId) false).toOption.map Option.isNone = some false)
      rfl rfl (by decide +kernel)
  have ho : Resolved.Joined (reservedLayout formerMembers).types ⟨os.graph, formerMembers⟩ :=
    ⟨(Layout.resolveStorage_joined hsections.os).2.graph, hol⟩
  have hu : Resolved.Joined (reservedLayout updatedMembers).types ⟨us.graph, updatedMembers⟩ :=
    ⟨(Layout.resolveStorage_joined hsections.us).2.graph, hul⟩
  exact ⟨os, us, ⟨hsections, hformer, hupdated, hos, hus,
    comparable_of_tame ho hu hot hut hom hum false⟩, hne⟩

theorem takesRoom_reserved (tc : CompareTypes (Except Obstacle)) :
    TakesRoom tc false [] [] (takenMembers.map (⟨·, wordType⟩)) ⟨gap 3 0, gapType 3 96⟩
      ⟨gap 1 2, gapType 1 32⟩ where
  kept i v hi hv := absurd (kept_without_after false hi hv).1 List.not_mem_nil
  gaps := by decide +kernel
  placed := ⟨rfl, rfl⟩
  sized := by decide +kernel
  resized := by decide +kernel
  added := by decide +kernel

/-- Two words take the first bytes of the gap. The second one is refused. -/
theorem taken_members_reported_reserved :
    ∃ os us, ReservedTaken os us ∧ ∃ memory', (typeChange {} os.graph us.graph
        (pairBound os.graph us.graph) [] (os.graph.node reservedId) (us.graph.node reservedId)
          false).run.run {} =
      (.ok (some (.structMembers (os.graph.node reservedId) (us.graph.node reservedId)
        [.append ⟨word "second" 1, wordType⟩] false)), memory') := by
  obtain ⟨os, us, h, -⟩ := exists_reservedTaken
  have ho : (os.graph.node reservedId).IsStruct formerMembers := by
    rw [TypeGraph.node_of_lookup h.former]
    exact isStruct_reservedType _
  have hu : (us.graph.node reservedId).IsStruct updatedMembers := by
    rw [TypeGraph.node_of_lookup h.updated]
    exact isStruct_reservedType _
  have hreported := taken_members_reported (h.sections.underway {}) (by rw [h.former]; simp)
    (by rw [h.updated]; simp) ho hu h.formerVars h.updatedVars (takesRoom_reserved _)
    h.comparable (by decide +kernel)
  exact ⟨os, us, h, hreported⟩

/-- Both words start in the gap and end before what is left of it, and the gap ends where it ended.
But the types differ where appending is forbidden, and an upgrade with the struct before another
variable is refused. -/
theorem taken_members_refused :
    (∃ os us, ReservedTaken os us ∧
      TakesRoom (freshChange {} os.graph us.graph) false [] [] (takenMembers.map (⟨·, wordType⟩))
        ⟨gap 3 0, gapType 3 96⟩ ⟨gap 1 2, gapType 1 32⟩ ∧
      freshChange {} os.graph us.graph (os.graph.node reservedId) (us.graph.node reservedId) false ≠
        .ok none) ∧
    (⟨gap 3 0, gapType 3 96⟩ : Variable).end? = (⟨gap 1 2, gapType 1 32⟩ : Variable).end? ∧
    (∀ m ∈ takenMembers, ∃ stop start, (⟨m, wordType⟩ : Variable).end? = some stop ∧
      (⟨gap 1 2, gapType 1 32⟩ : Variable).position? = some start ∧ stop ≤ start) ∧
    ∃ outcome, layouts {} (reservedLayout formerMembers) (reservedLayout updatedMembers) =
      .ok outcome ∧ (Report.mk outcome.operations).ok = false := by
  refine ⟨?_, by decide +kernel, ?_, ?_⟩
  · obtain ⟨os, us, h, hne⟩ := exists_reservedTaken
    refine ⟨os, us, h, takesRoom_reserved _, fun hnone => ?_⟩
    have ho := (Layout.resolveStorage_joined h.sections.os).2.graph.keyed
    have hu := (Layout.resolveStorage_joined h.sections.us).2.graph.keyed
    rw [(freshChange_eq_ok_iff ho hu).mp hnone] at hne
    cases hne
  · intro m hm
    simp only [takenMembers, List.mem_cons, List.not_mem_nil, or_false] at hm
    rcases hm with rfl | rfl
    · exact ⟨32, 64, by decide +kernel, by decide +kernel, by decide⟩
    · exact ⟨64, 64, by decide +kernel, by decide +kernel, by decide⟩
  · exact exists_outcome_of_plainStorage rfl rfl (by decide +kernel)

end Compare

end UpgradeSafety
