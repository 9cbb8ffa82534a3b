import UpgradeSafety.Proofs.Compare.AppendOnly
import UpgradeSafety.Proofs.Compare.GapFree

/-!
# Gaps that give up room

Variables may take the first bytes of a gap when the gap becomes smaller (`TakesRoom`). The
alignment then keeps what stands around the gap, pairs the two gaps and adds the variables between
them: they start in the former gap, and neither its predecessor nor the gap itself can be paired
with one of them for nothing. So all that is reported where appending is allowed is the resized
gap, as a note when it ends where it ended and as an error otherwise (`taken_gap_reported`).

Where appending is forbidden, the variables behind the length of the former list are errors of
their own, since they count as appended (`listChanges_takesRoom`).

The script is known exactly (`TakesRoom.script`), as pairs, additions and pairs again, because all
of it is free and no other free pair is read off the table first. Two conditions cannot be done
without: every pair of the two lists has to be comparable, and a hint that is told has to be short
enough to be written (`taken_gap_counterexample`).
-/

namespace UpgradeSafety.Compare

open UpgradeSafety.Alignment (Filled difference pairs adds)

/-! ## Lists -/

/-- Two lists can be compared: it can be told which of the variables are gaps, and every pair is
compared without being stopped. -/
structure Comparable (tc : CompareTypes (Except Obstacle)) (former updated : List Variable)
    (a : Bool) : Prop where
  gaps : demandGaps former updated = .ok ()
  pairs : ∀ i o, former[i]? = some o → ∀ u ∈ updated, ∃ d,
    variableChange (checkedChange tc o.type u.type (a && i + 1 == former.length)) former i o u =
      .ok d

/-- A list with a gap, and the same list with further variables before the gap. The other variables
do not differ from themselves, the gap is resized, and the further variables have new names and
start in the bytes of the former gap. -/
structure TakesRoom (tc : CompareTypes (Except Obstacle)) (a : Bool)
    (before after added : List Variable) (g g' : Variable) : Prop where
  kept : ∀ i v, i ≠ before.length → (before ++ g :: after)[i]? = some v →
    v.item.renamedFrom = none ∧
      tc v.type v.type (a && i + 1 == (before ++ g :: after).length) = .ok none
  gaps : areGaps g g' = true
  placed : g.item.slot.isSome = true ∧ g'.item.slot.isSome = true
  sized : ∀ n, g'.type.fixedLength? = some n → (n : Int) ≤ g'.size
  resized : ¬ (g.position? = g'.position? ∧ g.type.length? = g'.type.length?)
  added : ∀ v ∈ added, v.item.renamedFrom = none ∧ v.isGap = false ∧ v.startsIn g = true ∧
    ∀ w ∈ before ++ g :: after, v.item.label ≠ w.item.label

/-! ## The resized gap -/

/-- The number of bytes of an element of a gap, as the hint for its size takes it. -/
def elementSize (v : Variable) : Int :=
  match v.type.fixedLength? with
  | some (n + 1) => v.size.fdiv (n + 1 : Nat)
  | _ => 32

/-- The size that a resized gap ought to have can be written, if one is told. -/
def HintWritable (o u : Variable) : Prop :=
  ∀ oEnd start, o.end? = some oEnd → u.position? = some start → o.end? ≠ u.end? → start < oEnd →
    Numeral.isWritable ((oEnd - start).fdiv (elementSize u)) = true

theorem elementSize_ne_zero {v : Variable}
    (h : ∀ n, v.type.fixedLength? = some n → (n : Int) ≤ v.size) : elementSize v ≠ 0 := by
  unfold elementSize
  split
  · rename_i n hn
    have hle := h (n + 1) hn
    have hpos : (0 : Int) < (n + 1 : Nat) := by omega
    rw [Int.fdiv_eq_ediv_of_nonneg _ hpos.le]
    have hone : 1 ≤ v.size / (n + 1 : Nat) := (Int.le_ediv_iff_mul_le hpos).mpr (by omega)
    omega
  · decide

theorem judgeResizedGap_eq {o u : Variable} {oEnd uEnd start : Int} (ho : o.end? = some oEnd)
    (hu : u.end? = some uEnd) (hstart : u.position? = some start) :
    judgeResizedGap o u =
      if oEnd = uEnd then .ok ⟨.resizeGap o u none, true, none⟩
      else if start < oEnd then
        if elementSize u = 0 then .error .emptyElement
        else if Numeral.isWritable ((oEnd - start).fdiv (elementSize u)) then
          .ok ⟨.resizeGap o u (some ((oEnd - start).fdiv (elementSize u))), false, none⟩
        else .error .unwritable
      else .ok ⟨.resizeGap o u none, false, none⟩ := by
  unfold judgeResizedGap
  rw [ho, hu, hstart]
  rfl

/-- The operation of a resized gap whose places are known. -/
theorem judgeResizedGap_of_placed {o u : Variable} (ho : o.item.slot.isSome = true)
    (hu : u.item.slot.isSome = true)
    (hsized : ∀ n, u.type.fixedLength? = some n → (n : Int) ≤ u.size)
    (hwritable : HintWritable o u) :
    ∃ n, judgeResizedGap o u = .ok ⟨.resizeGap o u n, decide (o.end? = u.end?), none⟩ := by
  have hends {v : Variable} (hv : v.item.slot.isSome = true) :
      ∃ start stop, v.position? = some start ∧ v.end? = some stop := by
    obtain ⟨slot, hslot⟩ := Option.isSome_iff_exists.mp hv
    exact ⟨_, _, by rw [Variable.position?, hslot]; rfl,
      by rw [Variable.end?, Variable.position?, hslot]; rfl⟩
  obtain ⟨-, oEnd, -, hoEnd⟩ := hends ho
  obtain ⟨start, uEnd, hstart, huEnd⟩ := hends hu
  rw [judgeResizedGap_eq hoEnd huEnd hstart, hoEnd, huEnd]
  by_cases heq : oEnd = uEnd
  · exact ⟨none, by rw [if_pos heq, heq, decide_eq_true rfl]⟩
  · have hne : o.end? ≠ u.end? := by
      rw [hoEnd, huEnd]
      exact fun h => heq (Option.some.inj h)
    rw [if_neg heq, decide_eq_false fun h => heq (Option.some.inj h)]
    by_cases hlt : start < oEnd
    · rw [if_pos hlt, if_neg (elementSize_ne_zero hsized),
        if_pos (hwritable oEnd start hoEnd hstart hne hlt)]
      exact ⟨_, rfl⟩
    · rw [if_neg hlt]
      exact ⟨none, rfl⟩

/-! ## The alignment -/

section Lists

variable {tc : CompareTypes (Except Obstacle)} {a : Bool}
  {before after added : List Variable} {g g' : Variable} {rows : List (List (Option Change))}
  (h : TakesRoom tc a before after added g g')
  (hrows : differences (checkedChange tc) (before ++ g :: after) (before ++ (added ++ g' :: after))
    a = .ok rows)

theorem getElem?_updated_added {k : Nat} {v : Variable} (hv : added[k]? = some v) :
    (before ++ (added ++ g' :: after))[before.length + k]? = some v := by
  rw [getElem?_append_add, getElem?_append_of_some hv]

theorem getElem?_former_after {k : Nat} {v : Variable} (hv : after[k]? = some v) :
    (before ++ g :: after)[before.length + (k + 1)]? = some v := by
  rw [getElem?_append_add, List.getElem?_cons_succ, hv]

theorem getElem?_updated_after {k : Nat} {v : Variable} (hv : after[k]? = some v) :
    (before ++ (added ++ g' :: after))[before.length + added.length + (k + 1)]? = some v := by
  rw [Nat.add_assoc, getElem?_append_add, getElem?_append_add, List.getElem?_cons_succ, hv]

/-- The steps of the alignment with their variables. -/
def takenEdits (before after added : List Variable) (g g' : Variable) : List VariableEdit :=
  before.map (fun v => .equal v v) ++
    ((added.take (after.length + 1)).map .insert ++ (added.drop (after.length + 1)).map .append ++
      .substitute g g' (.resizeGap g g' none) :: after.map fun v => .equal v v)

/-- What is reported of such a step: `op` is the operation of the resized gap. -/
def takenOperations (a : Bool) (op : Operation) : VariableEdit → List Operation
  | .append v => if a then [] else [⟨.append v, false, none⟩]
  | .substitute .. => [op]
  | _ => []

theorem flatMap_takenEdits (op : Operation) :
    (takenEdits before after added g g').flatMap (takenOperations a op) =
      (if a then [] else
        (added.drop (after.length + 1)).map fun v => ⟨.append v, false, none⟩) ++ [op] := by
  have hequal (l : List Variable) :
      (l.map fun v => .equal v v).flatMap (takenOperations a op) = [] := by
    simp [takenOperations]
  have hinsert (l : List Variable) : (l.map .insert).flatMap (takenOperations a op) = [] := by
    simp [takenOperations]
  have happend (l : List Variable) : (l.map .append).flatMap (takenOperations a op) =
      if a then [] else l.map fun v => ⟨.append v, false, none⟩ := by
    rw [List.flatMap_map, List.map_eq_flatMap]
    cases a <;> simp [takenOperations]
  rw [takenEdits, List.flatMap_append, List.flatMap_append, List.flatMap_append, List.flatMap_cons,
    hequal, hequal, hinsert, happend, List.append_nil]
  rfl

/-- The new variables up to the length of the former list are inserted, those behind it appended. -/
theorem filled_adds :
    List.Forall₂ (Filled (before ++ g :: after) (before ++ (added ++ g' :: after)) rows)
      (adds (before ++ g :: after).length before.length added.length)
      ((added.take (after.length + 1)).map .insert ++
        (added.drop (after.length + 1)).map .append) := by
  have hlength : (before ++ g :: after).length = before.length + (after.length + 1) := by simp
  have hparts : added.length = (added.take (after.length + 1)).length +
      (added.drop (after.length + 1)).length := by
    rw [← List.length_append, List.take_append_drop]
  have htake := List.length_take_le (after.length + 1) added
  rw [hparts, Alignment.adds_add, Alignment.adds_of_add_le (by omega)]
  refine List.rel_append (forall₂_map_range fun i v hv => ?_) ?_
  · rw [List.getElem?_take] at hv
    split at hv
    · exact .insert (getElem?_updated_added hv)
    · cases hv
  · by_cases hlt : added.length ≤ after.length + 1
    · rw [List.drop_eq_nil_of_le hlt]
      exact .nil
    · have hfull : (added.take (after.length + 1)).length = after.length + 1 :=
        List.length_take_of_le (by omega)
      rw [Alignment.adds_of_le (by omega), hfull]
      refine forall₂_map_range fun i v hv => .append ?_
      rw [List.getElem?_drop] at hv
      rw [Nat.add_assoc]
      exact getElem?_updated_added hv

include h

theorem TakesRoom.isGap : g.isGap = true := by
  have hgaps := h.gaps
  rw [areGaps, Bool.and_eq_true, Bool.and_eq_true] at hgaps
  exact hgaps.1.1

theorem TakesRoom.pairPrice_last {l : Nat} {v w : Variable} (hw : w ∈ before)
    (hv : added[l]? = some v) {found : Except Obstacle (Option TypeChange)}
    {siblings : List Variable} {i : Nat} {d : Option Change}
    (hd : variableChange found siblings i w v = .ok d) : pairPrice d ≠ 0 := by
  obtain ⟨hname, hnot, -, hfresh⟩ := h.added v (List.mem_of_getElem? hv)
  have hlabel := hfresh w (List.mem_append_left _ hw)
  have hnames : namesDiffer w.item v.item = true := by
    simp [namesDiffer, hname, hlabel]
  exact pairPrice_of_namesDiffer (areGaps_eq_false (Or.inr hnot)) hnames hd

include hrows

theorem TakesRoom.difference_kept {i j : Nat} {v : Variable} (hi : i ≠ before.length)
    (ho : (before ++ g :: after)[i]? = some v)
    (hu : (before ++ (added ++ g' :: after))[j]? = some v) : difference rows i j = none := by
  obtain ⟨hname, htype⟩ := h.kept i v hi ho
  have hchange := variableChange_eq_difference hrows ho hu
  rw [variableChange_self (checkedChange_eq_none htype) hname] at hchange
  exact (Except.ok.inj hchange).symm

theorem TakesRoom.difference_gap :
    difference rows before.length (before.length + added.length) =
      some (.resizeGap g g' none) := by
  have hchange := variableChange_eq_difference (i := before.length)
    (j := before.length + added.length) (o := g) (u := g') hrows (by simp) (by simp)
  have hresized : ¬ (g.position? == g'.position? && g.type.length? == g'.type.length?) = true := by
    rw [Bool.and_eq_true, beq_iff_eq, beq_iff_eq]
    exact h.resized
  unfold variableChange at hchange
  rw [← areGaps, h.gaps, if_pos rfl, if_neg hresized] at hchange
  exact (Except.ok.inj hchange).symm

/-- The variables around the gap are kept, and the new ones are added before the gap. -/
theorem TakesRoom.script :
    Alignment.script? (prices (before ++ g :: after) (before ++ (added ++ g' :: after)) rows)
        (before ++ g :: after).length (before ++ (added ++ g' :: after)).length =
      some (pairs 0 0 before.length ++
        (adds (before ++ g :: after).length before.length added.length ++
          pairs before.length (before.length + added.length) (after.length + 1))) := by
  have hlength : (before ++ g :: after).length = before.length + (after.length + 1) := by simp
  have hlength' : (before ++ (added ++ g' :: after)).length =
      before.length + added.length + (after.length + 1) := by
    simp
    omega
  rw [hlength, hlength']
  refine Alignment.script?_eq_pairs_adds_pairs (prices_nonneg _ _ _) ?_ ?_ ?_ ?_
  · intro l hl
    have hv := List.getElem?_eq_getElem hl
    rw [prices_pair, h.difference_kept hrows (Nat.ne_of_lt hl) (getElem?_append_of_some hv)
      (getElem?_append_of_some hv)]
    rfl
  · intro l hl
    have hv := List.getElem?_eq_getElem hl
    rw [Alignment.Prices.insertOrAppend]
    split
    · rfl
    · exact prices_insert_eq_zero (getElem?_updated_added hv) (by simp) h.isGap
        (h.added _ (List.getElem_mem hl)).2.2.1
  · -- the last variable before the gap has another name than any new one
    intro r l hr hl
    have hw := List.getElem?_eq_getElem (show r < before.length by omega)
    have hv := List.getElem?_eq_getElem hl
    exact Or.inl (h.pairPrice_last (List.mem_of_getElem? hw) hv
      (variableChange_eq_difference hrows (getElem?_append_of_some hw) (getElem?_updated_added hv)))
  · intro l hl
    rw [prices_pair]
    cases l with
    | zero =>
      rw [Nat.add_zero, Nat.add_zero, h.difference_gap hrows]
      rfl
    | succ l =>
      have hv := List.getElem?_eq_getElem (show l < after.length by omega)
      rw [h.difference_kept hrows (by omega) (getElem?_former_after hv)
        (getElem?_updated_after hv)]
      rfl

theorem TakesRoom.filled :
    List.Forall₂ (Filled (before ++ g :: after) (before ++ (added ++ g' :: after)) rows)
      (pairs 0 0 before.length ++
        (adds (before ++ g :: after).length before.length added.length ++
          pairs before.length (before.length + added.length) (after.length + 1)))
      (takenEdits before after added g g') := by
  refine List.rel_append ?_ (List.rel_append filled_adds ?_)
  · refine forall₂_map_range fun i v hv => ?_
    have hi := (List.getElem?_eq_some_iff.mp hv).1
    rw [Nat.zero_add]
    exact .equal (getElem?_append_of_some hv) (getElem?_append_of_some hv)
      (h.difference_kept hrows (by omega) (getElem?_append_of_some hv)
        (getElem?_append_of_some hv))
  · rw [Alignment.pairs_cons]
    refine .cons (.substitute (by simp) (by simp) (h.difference_gap hrows)) ?_
    refine forall₂_map_range fun i v hv => ?_
    rw [Nat.add_right_comm, Nat.add_right_comm _ 1]
    exact .equal (getElem?_former_after hv) (getElem?_updated_after hv)
      (h.difference_kept hrows (by omega) (getElem?_former_after hv) (getElem?_updated_after hv))

omit hrows

/-- Nothing is reported but the resized gap and, where appending is forbidden, the variables behind
the length of the former list. -/
theorem TakesRoom.judge (strict : Bool) {op : Operation} (hop : judgeResizedGap g g' = .ok op) :
    judge strict a (before ++ g :: after) (takenEdits before after added g g') =
      .ok ((if a then [] else
        (added.drop (after.length + 1)).map fun v => ⟨.append v, false, none⟩) ++ [op]) := by
  rw [Compare.judge, ← flatMap_takenEdits op]
  refine judgeSteps_eq_flatMap (takenOperations a op) fun e he front rest => ?_
  simp only [takenEdits, List.mem_append, List.mem_cons, List.mem_map] at he
  rcases he with ⟨v, -, rfl⟩ | (⟨v, hv, rfl⟩ | ⟨v, -, rfl⟩) | rfl | ⟨v, -, rfl⟩
  · rfl
  · have hstarts : ((before ++ g :: after).filter Variable.isGap).any
        (fun g => v.startsIn g) = true := by
      have hin := (h.added v (List.mem_of_mem_take hv)).2.2.1
      exact List.any_eq_true.mpr ⟨g, List.mem_filter.mpr ⟨by simp, h.isGap⟩, hin⟩
    rw [judgeStep, if_pos hstarts]
    rfl
  · rfl
  · rw [judgeStep, judgePair, hop]
    rfl
  · rfl

/-- A gap that gives up room is reported as resized, and where appending is forbidden, so are the
variables behind the length of the former list as appended. -/
theorem listChanges_takesRoom (strict : Bool)
    (hcomparable : Comparable tc (before ++ g :: after) (before ++ (added ++ g' :: after)) a)
    (hwritable : HintWritable g g') :
    ∃ n, listChanges strict tc (before ++ g :: after) (before ++ (added ++ g' :: after)) a =
      .ok ((if a then [] else
          (added.drop (after.length + 1)).map fun v => ⟨.append v, false, none⟩) ++
        [⟨.resizeGap g g' n, decide (g.end? = g'.end?), none⟩]) := by
  obtain ⟨rows, hrows⟩ := exists_differences hcomparable.pairs
  obtain ⟨n, hn⟩ := judgeResizedGap_of_placed h.placed.1 h.placed.2 h.sized hwritable
  exact ⟨n, listChanges_eq_ok_iff.mpr
    ⟨hcomparable.gaps, rows, _, _, hrows, h.script hrows, h.filled hrows, h.judge strict hn⟩⟩

end Lists

/-! ## Sections -/

/-- A gap of a section that gives up room is all that is reported of the section: as a note when it
ends where it ended, and as an error otherwise. -/
theorem taken_gap_reported {leniency : Leniency} {former updated : Resolved} {memory : Memory}
    {before after added : List Variable} {g g' : Variable}
    (hunderway : Underway leniency former updated memory)
    (hformer : former.vars = before ++ g :: after)
    (hupdated : updated.vars = before ++ (added ++ g' :: after))
    (htakes : TakesRoom (freshChange leniency former.graph updated.graph) true before after added
      g g')
    (hcomparable : Comparable (freshChange leniency former.graph updated.graph) former.vars
      updated.vars true)
    (hwritable : HintWritable g g') :
    ∃ n memory', (sectionChanges leniency former updated).run.run memory =
      (.ok [⟨.resizeGap g g' n, decide (g.end? = g'.end?), none⟩], memory') := by
  rw [hformer, hupdated] at hcomparable
  obtain ⟨n, hfresh⟩ := listChanges_takesRoom htakes leniency.strictRenames hcomparable hwritable
  rw [← hformer, ← hupdated] at hfresh
  obtain ⟨memory', hrun⟩ := hunderway.run_of_fresh hfresh
  exact ⟨n, memory', hrun⟩

/-- Lists can be compared when their types are well formed, do not contain themselves and have
numbers that can be read. -/
theorem comparable_of_measured {leniency : Leniency} {former updated : Resolved}
    {types types' : TypeTable} {a : Bool} (ho : former.Joined types) (hu : updated.Joined types')
    (hacyclic : former.Acyclic) (how : former.WellFormed) (huw : updated.WellFormed)
    (hom : former.Measured) (hum : updated.Measured) :
    Comparable (freshChange leniency former.graph updated.graph) former.vars updated.vars a where
  gaps := demandGaps_eq_ok hom.readable_of_mem hum.readable_of_mem
  pairs i o hi u hmem := by
    have hmem' := List.mem_of_getElem? hi
    obtain ⟨m, hm, rfl⟩ := List.mem_map.mp hmem'
    obtain ⟨k, hk, rfl⟩ := List.mem_map.mp hmem
    obtain ⟨r, hr⟩ := plainChange_total leniency ho hacyclic how huw
      (hom.measuredWith hum) m.type
      (Resolved.reaches_item hm) k.type (Resolved.reaches_item hk)
      (a && i + 1 == former.vars.length)
    have hfresh := (freshChange_vars_iff ho.graph.keyed hu.graph.keyed hmem' hmem).mpr hr
    exact variableChange_total ⟨r, checkedChange_total (hom.readable_of_mem _ hmem')
      (hum.readable_of_mem _ hmem) hfresh⟩ _ _ _ _

/-- The same, checked type by type. -/
theorem comparable_of_tame {leniency : Leniency} {os us : Resolved} {types types' : TypeTable}
    (ho : os.Joined types) (hu : us.Joined types') (hot : os.Tame) (hut : us.Tame)
    (hom : ∀ p ∈ os.graph, p.2.Readable ∧ os.graph.GapsMeasured p.2)
    (hum : ∀ p ∈ us.graph, p.2.Readable ∧ us.graph.GapsMeasured p.2) (a : Bool) :
    Comparable (freshChange leniency os.graph us.graph) os.vars us.vars a :=
  comparable_of_measured ho hu (hot.regular ho).acyclic (hot.regular ho).wellFormed
    (hut.regular hu).wellFormed (Resolved.measured_of_graph ho hom)
    (Resolved.measured_of_graph hu hum)

theorem exists_comparable_of_any (former updated : Layout) (P : Resolved → Resolved → Prop)
    [∀ os us, Decidable (P os us)] (ho : former.namespaces = []) (hu : updated.namespaces = [])
    (h : (former.resolveStorage.toOption.any fun os => updated.resolveStorage.toOption.any fun us =>
      decide (P os us ∧ os.Tame ∧ us.Tame ∧
        (∀ p ∈ os.graph, p.2.Readable ∧ os.graph.GapsMeasured p.2) ∧
        ∀ p ∈ us.graph, p.2.Readable ∧ us.graph.GapsMeasured p.2)) = true) (a : Bool) :
    ∃ os us, Sections former updated os us [] [] ∧ P os us ∧
      Comparable (freshChange {} os.graph us.graph) os.vars us.vars a := by
  obtain ⟨os, us, hsections, hP, hot, hut, hom, hum⟩ :=
    exists_sections_of_any former updated _ ho hu h
  have hoJoined := (Layout.resolveStorage_joined hsections.os).2
  have huJoined := (Layout.resolveStorage_joined hsections.us).2
  exact ⟨os, us, hsections, hP, comparable_of_tame hoJoined huJoined hot hut hom hum a⟩

theorem freshChange_of_args_eq_none {leniency : Leniency} {og ug : TypeGraph} {t : TypeNode}
    (h : t.args = none) (a : Bool) : freshChange leniency og ug t t a = .ok none := by
  rw [freshChange, pairBound, run_typeChange_succ]
  simp [typeChangeWith, h]
  rfl

/-- A word takes the first half of a gap between two others. -/
theorem taken_gap_reported_word :
    ∃ os us, Sections (wordLayout [word "owner" 0, gap 2 1, word "admin" 3])
        (wordLayout [word "owner" 0, word "limit" 1, gap 1 2, word "admin" 3]) os us [] [] ∧
      ∃ n memory', (sectionChanges {} os us).run.run {} =
        (.ok [⟨.resizeGap ⟨gap 2 1, gapType 2 64⟩ ⟨gap 1 2, gapType 1 32⟩ n, true, none⟩],
          memory') := by
  obtain ⟨os, us, hsections, ⟨hos, hus⟩, hcomparable⟩ := exists_comparable_of_any
    (wordLayout [word "owner" 0, gap 2 1, word "admin" 3])
    (wordLayout [word "owner" 0, word "limit" 1, gap 1 2, word "admin" 3])
    (fun os us => os.vars = [⟨word "owner" 0, wordType⟩, ⟨gap 2 1, gapType 2 64⟩,
        ⟨word "admin" 3, wordType⟩] ∧
      us.vars = [⟨word "owner" 0, wordType⟩, ⟨word "limit" 1, wordType⟩,
        ⟨gap 1 2, gapType 1 32⟩, ⟨word "admin" 3, wordType⟩])
    rfl rfl (by decide +kernel) true
  have htakes : TakesRoom (freshChange {} os.graph us.graph) true [⟨word "owner" 0, wordType⟩]
      [⟨word "admin" 3, wordType⟩] [⟨word "limit" 1, wordType⟩] ⟨gap 2 1, gapType 2 64⟩
      ⟨gap 1 2, gapType 1 32⟩ :=
    { kept := fun i v hi hv => by
        have hword : v.type = wordType ∧ v.item.renamedFrom = none := by
          rcases i with _ | _ | _ | i
          · cases hv
            exact ⟨rfl, rfl⟩
          · exact absurd rfl hi
          · cases hv
            exact ⟨rfl, rfl⟩
          · cases hv
        rw [hword.1]
        exact ⟨hword.2, freshChange_of_args_eq_none rfl _⟩
      gaps := by decide +kernel
      placed := ⟨rfl, rfl⟩
      sized := by decide +kernel
      resized := by decide +kernel
      added := by decide +kernel }
  have hends : (⟨gap 2 1, gapType 2 64⟩ : Variable).end? =
      (⟨gap 1 2, gapType 1 32⟩ : Variable).end? := by
    decide +kernel
  have hreported := taken_gap_reported (hsections.underway {}) hos hus htakes hcomparable
    fun _ _ _ _ hne => absurd hends hne
  rw [hends, decide_eq_true rfl] at hreported
  exact ⟨os, us, hsections, hreported⟩

/-! ## What stands in the way -/

theorem kept_without_after {before : List Variable} {g v : Variable} {i : Nat} (a : Bool)
    (hi : i ≠ before.length) (hv : (before ++ [g])[i]? = some v) :
    v ∈ before ∧ (a && i + 1 == (before ++ [g]).length) = false := by
  have hlt := (List.getElem?_eq_some_iff.mp hv).1
  rw [List.length_append, List.length_singleton] at hlt
  rw [List.getElem?_append_left (by omega)] at hv
  have hne : (i + 1 == (before ++ [g]).length) = false := by
    rw [beq_eq_false_iff_ne, List.length_append, List.length_singleton]
    omega
  rw [hne, Bool.and_false]
  exact ⟨List.mem_of_getElem? hv, rfl⟩

/-- Two structs that consist of a gap each, the second one with a byte for three elements, and a gap
behind them that moves behind a word. -/
def movedReservations : Layout :=
  { reservations 0 1 [] with storage :=
      [{ label := "first", type := "t_struct(Reservation1)1_storage" },
        { label := "second", type := "t_struct(Reservation2)2_storage" }, word "limit" 5, gap 2 6] }

theorem takesRoom_movedReservations :
    ∃ os us before, Sections (reservations 0 1 []) movedReservations os us [] [] ∧
      os.vars = before ++ [⟨gap 2 5, gapType 2 64⟩] ∧
      us.vars = before ++ ([⟨word "limit" 5, wordType⟩] ++ [⟨gap 2 6, gapType 2 64⟩]) ∧
      TakesRoom (freshChange {} os.graph us.graph) true before [] [⟨word "limit" 5, wordType⟩]
        ⟨gap 2 5, gapType 2 64⟩ ⟨gap 2 6, gapType 2 64⟩ := by
  obtain ⟨os, us, hsections, hos, hus, hself⟩ := exists_sections_of_any (reservations 0 1 [])
    movedReservations
    (fun os us => os.vars = os.vars.take 2 ++ [⟨gap 2 5, gapType 2 64⟩] ∧
      us.vars = os.vars.take 2 ++ ([⟨word "limit" 5, wordType⟩] ++ [⟨gap 2 6, gapType 2 64⟩]) ∧
      ∀ v ∈ os.vars.take 2, v.item.renamedFrom = none ∧ "limit" ≠ v.item.label ∧
        (plainChange {} os.graph us.graph (pairBound os.graph us.graph) v.type v.type
          false).toOption.map Option.isNone = some true)
    rfl rfl (by decide +kernel)
  obtain ⟨-, ho⟩ := Layout.resolveStorage_joined hsections.os
  obtain ⟨-, hu⟩ := Layout.resolveStorage_joined hsections.us
  refine ⟨os, us, os.vars.take 2, hsections, hos, hus, ?_⟩
  refine
    { kept := fun i v hi hv => ?_
      gaps := by decide +kernel
      placed := ⟨rfl, rfl⟩
      sized := by decide +kernel
      resized := by decide +kernel
      added := fun v hv => ?_ }
  · obtain ⟨hmem, hmode⟩ := kept_without_after true hi hv
    obtain ⟨hname, -, hplain⟩ := hself v hmem
    have hov : v ∈ os.vars := List.mem_of_mem_take hmem
    have huv : v ∈ us.vars := by
      rw [hus]
      exact List.mem_append_left _ hmem
    rw [hmode]
    exact ⟨hname, (freshChange_vars_iff ho.graph.keyed hu.graph.keyed hov huv).mpr
      (eq_ok_none_of_isNone hplain)⟩
  · cases List.mem_singleton.mp hv
    refine ⟨rfl, by decide +kernel, by decide +kernel, fun w hw => ?_⟩
    rcases List.mem_append.mp hw with hw | hw
    · exact (hself w hw).2.1
    · cases List.mem_singleton.mp hw
      decide +kernel

/-- A gap that begins far behind, and the word that takes its place. -/
abbrev farSlot : Int := 10 ^ 4300 - 1

theorem takesRoom_farGap :
    ∃ os us, Sections (wordLayout [gap 2 farSlot]) (wordLayout [word "limit" farSlot, gap 1 0])
        os us [] [] ∧
      os.vars = [⟨gap 2 farSlot, gapType 2 64⟩] ∧
      us.vars = [⟨word "limit" farSlot, wordType⟩] ++ [⟨gap 1 0, gapType 1 32⟩] ∧
      TakesRoom (freshChange {} os.graph us.graph) true [] [] [⟨word "limit" farSlot, wordType⟩]
        ⟨gap 2 farSlot, gapType 2 64⟩ ⟨gap 1 0, gapType 1 32⟩ ∧
      Comparable (freshChange {} os.graph us.graph) os.vars us.vars true := by
  obtain ⟨os, us, hsections, ⟨hos, hus⟩, hcomparable⟩ := exists_comparable_of_any
    (wordLayout [gap 2 farSlot]) (wordLayout [word "limit" farSlot, gap 1 0])
    (fun os us => os.vars = [⟨gap 2 farSlot, gapType 2 64⟩] ∧
      us.vars = [⟨word "limit" farSlot, wordType⟩] ++ [⟨gap 1 0, gapType 1 32⟩])
    rfl rfl (by decide +kernel) true
  refine ⟨os, us, hsections, hos, hus, ?_, hcomparable⟩
  exact
    { kept := fun i v hi hv => absurd (kept_without_after true hi hv).1 List.not_mem_nil
      gaps := by decide +kernel
      placed := ⟨rfl, rfl⟩
      sized := by decide +kernel
      resized := by decide +kernel
      added := by decide +kernel }

/-- Both further conditions are needed: a comparison is stopped by a struct with a gap of which the
elements take no byte, although it does not differ from itself, and by a gap that begins too far
behind. -/
theorem taken_gap_counterexample :
    (∃ os us before, Sections (reservations 0 1 []) movedReservations os us [] [] ∧
      os.vars = before ++ [⟨gap 2 5, gapType 2 64⟩] ∧
      us.vars = before ++ ([⟨word "limit" 5, wordType⟩] ++ [⟨gap 2 6, gapType 2 64⟩]) ∧
      TakesRoom (freshChange {} os.graph us.graph) true before [] [⟨word "limit" 5, wordType⟩]
        ⟨gap 2 5, gapType 2 64⟩ ⟨gap 2 6, gapType 2 64⟩) ∧
    HintWritable ⟨gap 2 5, gapType 2 64⟩ ⟨gap 2 6, gapType 2 64⟩ ∧
    (∀ outcome, layouts {} (reservations 0 1 []) movedReservations ≠ .ok outcome) ∧
    (∃ os us, Sections (wordLayout [gap 2 farSlot]) (wordLayout [word "limit" farSlot, gap 1 0])
        os us [] [] ∧
      os.vars = [⟨gap 2 farSlot, gapType 2 64⟩] ∧
      us.vars = [⟨word "limit" farSlot, wordType⟩] ++ [⟨gap 1 0, gapType 1 32⟩] ∧
      TakesRoom (freshChange {} os.graph us.graph) true [] [] [⟨word "limit" farSlot, wordType⟩]
        ⟨gap 2 farSlot, gapType 2 64⟩ ⟨gap 1 0, gapType 1 32⟩ ∧
      Comparable (freshChange {} os.graph us.graph) os.vars us.vars true) ∧
    ∀ outcome, layouts {} (wordLayout [gap 2 farSlot])
      (wordLayout [word "limit" farSlot, gap 1 0]) ≠ .ok outcome := by
  refine ⟨takesRoom_movedReservations, ?_,
    layouts_ne_ok_of_plainStorage rfl rfl (by decide +kernel), takesRoom_farGap,
    layouts_ne_ok_of_plainStorage rfl rfl (by decide +kernel)⟩
  intro oEnd start hoEnd hstart _ _
  cases hoEnd
  cases hstart
  decide +kernel

end UpgradeSafety.Compare
