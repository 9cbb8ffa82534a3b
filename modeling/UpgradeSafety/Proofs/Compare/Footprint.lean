import UpgradeSafety.Proofs.Compare.Appending
import UpgradeSafety.Proofs.Compare.CarriedOver
import UpgradeSafety.Proofs.Compare.Widening

/-!
# The room that a struct takes

The elements of an array of structs stand one behind the other, each in whole slots, and so do a
struct and the variable behind it. Where appending is forbidden an upgrade without errors leaves
the number of these slots as it was (`slotsTaken_eq_of_clean`), as long as the sizes that the
layouts give for aligned members agree.

Every former member has its end in a slot in which an updated one ends, and the other way round. A
pair that is reported unchanged ends in the same slot: an integer that became wider stays in its
slot, which is where the former one ended if it took no more than a slot. A gap either ends where
it ended, or a member that took its room does. And what is new starts in a former gap, so it ends
there, too: it is apart from what the gap became.
-/

namespace UpgradeSafety.Compare

open UpgradeSafety.Alignment (Step Leads Filled difference)

/-- The number of slots up to a byte. -/
def slotsTo (byte : Int) : Int := (byte + 31) / 32

theorem slotsTo_mono {a b : Int} (h : a ≤ b) : slotsTo a ≤ slotsTo b := by
  unfold slotsTo
  omega

/-- The number of slots that variables take, from the first slot to the last end. -/
def slotsTaken (vars : List Variable) : Option Int :=
  (vars.filterMap Variable.end?).max?.map slotsTo

theorem mem_ends_iff {vars : List Variable} (h : LaidOut vars) {byte : Int} :
    byte ∈ vars.filterMap Variable.end? ↔ ∃ v ∈ vars, v.stop = byte := by
  rw [List.mem_filterMap]
  constructor
  · rintro ⟨v, hv, hend⟩
    rw [(h.placed v hv).end?_eq] at hend
    exact ⟨v, hv, Option.some.inj hend⟩
  · rintro ⟨v, hv, rfl⟩
    exact ⟨v, hv, (h.placed v hv).end?_eq⟩

/-- Variables of which each ends in a slot up to which the others reach take no more slots. -/
theorem slotsTaken_eq_of_ends {former updated : List Variable} (hformer : LaidOut former)
    (hupdated : LaidOut updated)
    (h : ∀ o ∈ former, ∃ u ∈ updated, slotsTo o.stop ≤ slotsTo u.stop)
    (h' : ∀ u ∈ updated, ∃ o ∈ former, slotsTo u.stop ≤ slotsTo o.stop) :
    slotsTaken former = slotsTaken updated := by
  have hle {vars vars' : List Variable} (hvars : LaidOut vars) (hvars' : LaidOut vars')
      (hends : ∀ v ∈ vars, ∃ w ∈ vars', slotsTo v.stop ≤ slotsTo w.stop) {last : Int}
      (hlast : (vars.filterMap Variable.end?).max? = some last) :
      ∃ last', (vars'.filterMap Variable.end?).max? = some last' ∧
        slotsTo last ≤ slotsTo last' := by
    obtain ⟨v, hv, rfl⟩ := (mem_ends_iff hvars).mp (List.max?_eq_some_iff.mp hlast).1
    obtain ⟨w, hw, hvw⟩ := hends v hv
    have hmem := (mem_ends_iff hvars').mpr ⟨w, hw, rfl⟩
    obtain ⟨last', hlast'⟩ := Option.isSome_iff_exists.mp (List.isSome_max?_of_mem hmem)
    exact ⟨last', hlast', hvw.trans (slotsTo_mono ((List.max?_eq_some_iff.mp hlast').2 _ hmem))⟩
  rw [slotsTaken, slotsTaken]
  cases hlast : (former.filterMap Variable.end?).max? with
  | some last =>
    obtain ⟨last', hlast', hto⟩ := hle hformer hupdated h hlast
    obtain ⟨last₂, hlast₂, hto'⟩ := hle hupdated hformer h' hlast'
    rw [hlast] at hlast₂
    cases hlast₂
    rw [hlast', Option.map_some, Option.map_some, Int.le_antisymm hto hto']
  | none =>
    cases hlast' : (updated.filterMap Variable.end?).max? with
    | none => rfl
    | some last' =>
      obtain ⟨last, hsome, -⟩ := hle hupdated hformer h' hlast'
      rw [hlast] at hsome
      cases hsome

/-! ## Pairs -/

/-- The sizes of two members agree, or the updated one is an integer that may become wider and takes as
many bytes as its bits fill. -/
def SizesAgree (former : List Variable) (i : Nat) (o u : Variable) : Prop :=
  u.size = o.size ∨ widens former i o u = true ∧
    ∃ bits, u.type.integer? = some (false, bits) ∧ u.size = (bits / 8 : Nat)

theorem sizesAgree_iff {former : List Variable} {i : Nat} {o u : Variable} :
    SizesAgree former i o u ↔ u.size = o.size ∨ widens former i o u = true ∧
      (u.type.integer?.any fun p => !p.1 && u.size == (p.2 / 8 : Nat)) = true := by
  simp [SizesAgree, Option.any_eq_true]

instance {former : List Variable} {i : Nat} {o u : Variable} : Decidable (SizesAgree former i o u) :=
  decidable_of_iff' _ sizesAgree_iff

/-- A pair of aligned members that is reported unchanged, the former one by its index. -/
def Unchanged (tc : CompareTypes (Except Obstacle)) (former updated : List Variable) (i : Nat)
    (o u : Variable) : Prop :=
  ∃ steps j, alignment tc former updated false = .ok steps ∧ .pair i j ∈ steps ∧
    former[i]? = some o ∧ updated[j]? = some u ∧
    variableChange (checkedChange tc o.type u.type false) former i o u = .ok none

section Pair

variable {found : Except Obstacle (Option TypeChange)} {former : List Variable} {i : Nat}
  {o u : Variable}

/-- Placed variables that do not differ start at the same byte. -/
theorem start_of_variableChange (ho : o.IsPlaced) (hu : u.IsPlaced)
    (h : variableChange found former i o u = .ok none) : u.start = o.start := by
  cases hgaps : areGaps o u with
  | true =>
    unfold variableChange at h
    rw [← areGaps, hgaps, if_pos rfl] at h
    split at h
    · rename_i hsame
      rw [ho.position?_eq, hu.position?_eq] at hsame
      simp only [Bool.and_eq_true, beq_iff_eq, Option.some.injEq] at hsame
      exact hsame.1.symm
    · cases h
  | false =>
    obtain ⟨-, hmove, -⟩ := (variableChange_eq_none_iff hgaps).mp h
    obtain ⟨slot, hslot⟩ := ho.slot
    obtain ⟨slot', hslot'⟩ := hu.slot
    obtain ⟨rfl, hoffset⟩ := move?_eq_none_iff.mp hmove slot slot' hslot hslot'
    rw [Variable.start, Variable.start, hslot, hslot', hoffset]

/-- A pair that is reported unchanged ends in the same slot, when the former variable takes no more than
a slot wherever the updated one is wider. -/
theorem slotsTo_of_variableChange {updated : List Variable} (hformer : LaidOut former)
    (hupdated : LaidOut updated) (ho : o ∈ former) (hu : u ∈ updated)
    (h : variableChange found former i o u = .ok none) (hsizes : SizesAgree former i o u)
    (hslot : u.size ≠ o.size → o.size ≤ 32) : slotsTo u.stop = slotsTo o.stop := by
  have hoPlaced := hformer.placed o ho
  have hstart := start_of_variableChange hoPlaced (hupdated.placed u hu) h
  by_cases hsize : u.size = o.size
  · rw [Variable.stop, Variable.stop, hstart, hsize]
  · obtain ⟨hwidens, bits, hbits, hbytes⟩ := hsizes.resolve_left hsize
    obtain ⟨slot, oBits, uBits, hwidens⟩ := exists_widens_of_widens hwidens
    obtain rfl : bits = uBits := by
      rw [hwidens.updated] at hbits
      cases hbits
      rfl
    have hstop := hwidens.stop_le
    have hbounds := hoPlaced.start_bounds
    have hostop := hformer.stop_le ho (hslot hsize)
    have hopos := hformer.sized o ho
    have hupos := hupdated.sized u hu
    rw [hwidens.formerSlot, Option.getD_some] at hbounds hostop
    simp only [slotsTo, Variable.stop] at hostop ⊢
    omega

end Pair

/-! ## Lists -/

section Lists

variable {tc : CompareTypes (Except Obstacle)} {former updated : List Variable}
  {rows : List (List (Option Change))} {ops : List Operation} {steps : List Step}
  {script : List VariableEdit}

/-- What is known of two lists that are compared without errors. -/
structure CleanScript (tc : CompareTypes (Except Obstacle)) (former updated : List Variable)
    (rows : List (List (Option Change))) (ops : List Operation) (steps : List Step)
    (script : List VariableEdit) : Prop where
  compared : differences (checkedChange tc) former updated false = .ok rows
  aligned : alignment tc former updated false = .ok steps
  leads : Leads former.length 0 0 steps former.length updated.length
  filled : List.Forall₂ (Filled former updated rows) steps script
  judged : judge true false former script = .ok ops
  clean : ∀ op ∈ ops, op.note = true

theorem exists_cleanScript (h : listChanges true tc former updated false = .ok ops)
    (hclean : ∀ op ∈ ops, op.note = true) :
    ∃ rows steps script, CleanScript tc former updated rows ops steps script := by
  obtain ⟨-, rows, steps, script, hrows, hsteps, hfilled, hjudge⟩ := listChanges_eq_ok_iff.mp h
  obtain ⟨steps', hsteps', hleads⟩ :=
    Alignment.script?_leads (prices former updated rows) former.length updated.length
  have haligned := alignment_eq_ok hrows hsteps
  rw [hsteps] at hsteps'
  cases hsteps'
  exact ⟨rows, steps, script, hrows, haligned, hleads, hfilled, hjudge, hclean⟩

variable (h : CleanScript tc former updated rows ops steps script) (hformer : LaidOut former)
  (hupdated : LaidOut updated)
include h hformer hupdated

/-- A former gap ends where an updated variable ends: the gap it became, or one that took its room. -/
theorem exists_stop_of_isGap {i : Nat} {g : Variable} (hg : former[i]? = some g)
    (hgap : g.isGap = true)
    (hsizes : ∀ i o u, Unchanged tc former updated i o u → SizesAgree former i o u) :
    ∃ (l : Nat) (v : Variable), updated[l]? = some v ∧ v.stop = g.stop := by
  have hgPlaced := hformer.placed g (List.mem_of_getElem? hg)
  have hends {l : Nat} {v : Variable} {stop : Int} (hv : updated[l]? = some v)
      (hgEnd : g.end? = some stop) (hvEnd : v.end? = some stop) : v.stop = g.stop := by
    rw [hgPlaced.end?_eq] at hgEnd
    rw [(hupdated.placed v (List.mem_of_getElem? hv)).end?_eq] at hvEnd
    exact (Option.some.inj hvEnd).trans (Option.some.inj hgEnd).symm
  cases gapLivesOn_of_clean h.compared h.leads h.filled h.judged h.clean hg with
  | @unchanged l v hl hv hchange =>
    have hagree := hsizes i g v
      ⟨steps, l, h.aligned, h.leads.partner?_eq_some_iff.mp hl, hg, hv, hchange⟩
    have hsize : v.size = g.size := by
      refine hagree.resolve_right fun hwider => ?_
      rw [widens_of_isGap hgap] at hwider
      cases hwider.1
    have hstart := start_of_variableChange hgPlaced
      (hupdated.placed v (List.mem_of_getElem? hv)) hchange
    exact ⟨l, v, hv, by rw [Variable.stop, Variable.stop, hstart, hsize]⟩
  | @resized l v _ hv _ hlike =>
    obtain ⟨stop, hgEnd, hvEnd⟩ := hlike
    exact ⟨l, v, hv, hends hv hgEnd hvEnd⟩
  | replaced _ _ _ _ _ _ hfills =>
    obtain ⟨last, hlast, -, v, hv, hvEnd⟩ := hfills.ends
    obtain ⟨l, -, -, hl⟩ := mem_extract_iff.mp hv
    exact ⟨l, v, hl, hends hl hlast hvEnd⟩

/-- What starts in a former gap does not end behind it: one updated variable ends where the gap ended,
and the others are apart from it. -/
theorem stop_le_of_startsIn {j : Nat} {g u : Variable} (hu : updated[j]? = some u)
    (hg : g ∈ former) (hgap : g.isGap = true) (hstarts : u.startsIn g = true)
    (hsizes : ∀ i o u, Unchanged tc former updated i o u → SizesAgree former i o u) :
    u.stop ≤ g.stop := by
  obtain ⟨i, hi⟩ := List.mem_iff_getElem?.mp hg
  obtain ⟨l, v, hv, hstop⟩ := exists_stop_of_isGap h hformer hupdated hi hgap hsizes
  by_cases hjl : j = l
  · subst hjl
    rw [hu] at hv
    cases hv
    exact Int.le_of_eq hstop
  · have huPlaced := hupdated.placed u (List.mem_of_getElem? hu)
    have hgPlaced := hformer.placed g hg
    have hin : g.start ≤ u.start ∧ u.start < g.stop := by
      simpa [Variable.startsIn, huPlaced.position?_eq, hgPlaced.position?_eq, hgPlaced.end?_eq]
        using hstarts
    have hvpos := hupdated.sized v (List.mem_of_getElem? hv)
    have hapart := hupdated.apart hu hv hjl
    simp only [Variable.stop] at hstop hin hapart ⊢
    omega

/-- Two lists that are compared without errors take the same number of slots. -/
theorem CleanScript.slotsTaken_eq
    (hsizes : ∀ i o u, Unchanged tc former updated i o u → SizesAgree former i o u)
    (hslot : ∀ i o u, Unchanged tc former updated i o u → u.size ≠ o.size → o.size ≤ 32) :
    slotsTaken former = slotsTaken updated := by
  have hpair {i j : Nat} (hij : .pair i j ∈ steps) : ∃ o u, former[i]? = some o ∧
      updated[j]? = some u ∧ slotsTo u.stop = slotsTo o.stop := by
    obtain ⟨o, u, ho, hu, hchange⟩ :=
      variableChange_of_pair h.compared h.filled h.judged h.clean hij
    have hoMem := List.mem_of_getElem? ho
    have huMem := List.mem_of_getElem? hu
    refine ⟨o, u, ho, hu, ?_⟩
    rcases hchange with hchange | ⟨-, -, stop, hoEnd, huEnd⟩
    · have hunchanged : Unchanged tc former updated i o u :=
        ⟨steps, j, h.aligned, hij, ho, hu, hchange⟩
      exact slotsTo_of_variableChange hformer hupdated hoMem huMem hchange
        (hsizes i o u hunchanged) (hslot i o u hunchanged)
    · rw [(hformer.placed o hoMem).end?_eq] at hoEnd
      rw [(hupdated.placed u huMem).end?_eq] at huEnd
      rw [Option.some.inj hoEnd, Option.some.inj huEnd]
  refine slotsTaken_eq_of_ends hformer hupdated (fun o ho => ?_) fun u hu => ?_
  · obtain ⟨i, hi⟩ := List.mem_iff_getElem?.mp ho
    cases hgap : o.isGap with
    | true =>
      obtain ⟨l, v, hv, hstop⟩ := exists_stop_of_isGap h hformer hupdated hi hgap hsizes
      exact ⟨v, List.mem_of_getElem? hv, by rw [hstop]⟩
    | false =>
      obtain ⟨j, hij⟩ := exists_pair_of_not_isGap h.leads h.filled h.judged h.clean hi hgap
      obtain ⟨o', u, ho', hu, hto⟩ := hpair hij
      rw [hi] at ho'
      cases ho'
      exact ⟨u, List.mem_of_getElem? hu, Int.le_of_eq hto.symm⟩
  · obtain ⟨j, hj⟩ := List.mem_iff_getElem?.mp hu
    by_cases hpaired : ∃ i, .pair i j ∈ steps
    · obtain ⟨i, hij⟩ := hpaired
      obtain ⟨o, u', ho, hu', hto⟩ := hpair hij
      rw [hj] at hu'
      cases hu'
      exact ⟨o, List.mem_of_getElem? ho, Int.le_of_eq hto⟩
    · obtain ⟨g, hg, hgap, hstarts⟩ := (new_of_clean h.leads h.filled h.judged h.clean hj
        (not_exists.mp hpaired)).resolve_right fun happend => Bool.false_ne_true happend.1
      exact ⟨g, hg, slotsTo_mono (stop_le_of_startsIn h hformer hupdated hj hg hgap hstarts hsizes)⟩

end Lists

/-! ## Comparisons under way -/

/-- With strict renames and without appending, a comparison of two lists that are laid out has errors
unless they take the same number of slots, provided that the sizes of every pair reported unchanged
agree, and that a former member takes no more than a slot where the updated one is wider. -/
theorem slotsTaken_eq_of_clean {leniency : Leniency} {former updated : Resolved}
    {memory memory' : Memory} {fuel : Nat} {openPairs : List PairKey} {ops : List Operation}
    (h : Underway leniency former updated memory)
    (hrun : (listChanges true (typeChange leniency former.graph updated.graph fuel openPairs)
      former.vars updated.vars false).run.run memory = (.ok ops, memory'))
    (hclean : ∀ op ∈ ops, op.note = true) (hformer : LaidOut former.vars)
    (hupdated : LaidOut updated.vars)
    (hsizes : ∀ i o u, Unchanged (freshChange leniency former.graph updated.graph) former.vars
      updated.vars i o u → SizesAgree former.vars i o u)
    (hslot : ∀ i o u, Unchanged (freshChange leniency former.graph updated.graph) former.vars
      updated.vars i o u → u.size ≠ o.size → o.size ≤ 32) :
    slotsTaken former.vars = slotsTaken updated.vars := by
  obtain ⟨rows, steps, script, hscript⟩ := exists_cleanScript (h.run hrun).2 hclean
  exact hscript.slotsTaken_eq hformer hupdated hsizes hslot

/-! ## Small structs -/

/-- What can be checked of the pairs of two lists that may be reported unchanged. -/
theorem Unchanged.of_forall {tc : CompareTypes (Except Obstacle)} {former updated : List Variable}
    {i : Nat} {o u : Variable} (hunchanged : Unchanged tc former updated i o u)
    (hformer : LaidOut former) (hupdated : LaidOut updated) {P : Nat → Variable → Variable → Prop}
    (h : ∀ p ∈ former.zipIdx, ∀ u ∈ updated, u.start = p.1.start →
      areGaps p.1 u = true ∨ namesDiffer p.1.item u.item = false → P p.2 p.1 u) : P i o u := by
  obtain ⟨steps, j, -, -, ho, hu, hchange⟩ := hunchanged
  have hoMem := List.mem_of_getElem? ho
  have huMem := List.mem_of_getElem? hu
  refine h (o, i) (List.mem_zipIdx_iff_getElem?.mpr ho) u huMem
    (start_of_variableChange (hformer.placed o hoMem) (hupdated.placed u huMem) hchange) ?_
  cases hgaps : areGaps o u with
  | true => exact Or.inl rfl
  | false => exact Or.inr ((variableChange_eq_none_iff hgaps).mp hchange).1

/-- Two lists of members that are compared without errors from an empty memory. -/
structure ComparedClean (former updated : Resolved) : Prop where
  underway : Underway { strictRenames := true } former updated {}
  clean : ∃ ops memory, (listChanges true (typeChange { strictRenames := true } former.graph
    updated.graph (pairBound former.graph updated.graph) []) former.vars updated.vars
      false).run.run {} = (.ok ops, memory) ∧ ∀ op ∈ ops, op.note = true
  former : LaidOut former.vars
  updated : LaidOut updated.vars

theorem exists_comparedClean {former updated : Layout} {os us : List Variable}
    (hformer : LaidOut os) (hupdated : LaidOut us) (ho : former.namespaces = [])
    (hu : updated.namespaces = [])
    (h : (former.resolveStorage.toOption.any fun r => updated.resolveStorage.toOption.any fun s =>
      decide (r.vars = os ∧ s.vars = us ∧ (listChanges true (plainChange { strictRenames := true }
        r.graph s.graph (pairBound r.graph s.graph)) r.vars s.vars false).toOption.map
          (·.all (·.note)) = some true)) = true) :
    ∃ r s, ComparedClean r s ∧ r.vars = os ∧ s.vars = us := by
  obtain ⟨r, s, hsections, rfl, rfl, hplain⟩ := exists_sections_of_any former updated _ ho hu h
  obtain ⟨ops, hops, hclean⟩ := Option.map_eq_some_iff.mp hplain
  have hunderway := hsections.underway { strictRenames := true }
  have ⟨og, ug, hog, hug, hI⟩ := hunderway
  obtain ⟨memory, hrun, -⟩ := run_listChanges_of_plain hog.keyed hug.keyed hog.agree hug.agree
    hog.items hug.items (eq_ok_of_toOption hops) hI
  exact ⟨r, s, ⟨hunderway, ⟨ops, memory, hrun, List.all_eq_true.mp hclean⟩, hformer, hupdated⟩,
    rfl, rfl⟩

/-- Members in front of which an integer stands, of a layout that gives that integer some bytes. -/
def limitLayout (bytes : Int) (bits : Nat) (rest : List Item) : Layout where
  layoutVersion := some Layout.currentVersion
  storage := { label := "limit", type := s!"t_uint{bits}", slot := some 0, offset := some 0 } ::
    rest.map fun m => { m with offset := some 0 }
  types := (s!"t_uint{bits}", { label := s!"uint{bits}", numberOfBytes := some bytes }) ::
    (wordLayout []).types

/-- These members with their types. -/
def limitVars (bytes : Int) (bits : Nat) (rest : List Variable) : List Variable :=
  ⟨{ label := "limit", type := s!"t_uint{bits}", slot := some 0, offset := some 0 },
    { id := s!"t_uint{bits}"
      head := s!"t_uint{bits}"
      label := s!"uint{bits}"
      numberOfBytes := some bytes }⟩ ::
    rest.map fun v => { v with item := { v.item with offset := some 0 } }

/-- An integer of one byte takes two, and a word the first half of a gap: three slots as before. -/
theorem slotsTaken_eq_of_clean_limit : ∃ former updated, ComparedClean former updated ∧
    former.vars = limitVars 1 8 [⟨gap 2 1, gapType 2 64⟩] ∧
    updated.vars = limitVars 2 16 [⟨word "owner" 1, wordType⟩, ⟨gap 1 2, gapType 1 32⟩] ∧
    slotsTaken former.vars = slotsTaken updated.vars := by
  have hformer : LaidOut (limitVars 1 8 [⟨gap 2 1, gapType 2 64⟩]) :=
    .of_ordered (by decide +kernel) (by decide +kernel) (by decide +kernel) (by decide +kernel)
  have hupdated : LaidOut (limitVars 2 16 [⟨word "owner" 1, wordType⟩, ⟨gap 1 2, gapType 1 32⟩]) :=
    .of_ordered (by decide +kernel) (by decide +kernel) (by decide +kernel) (by decide +kernel)
  obtain ⟨former, updated, h, hvars, hvars'⟩ := exists_comparedClean hformer hupdated
    (show (limitLayout 1 8 [gap 2 1]).namespaces = [] from rfl)
    (show (limitLayout 2 16 [word "owner" 1, gap 1 2]).namespaces = [] from rfl) (by decide +kernel)
  obtain ⟨ops, memory, hrun, hclean⟩ := h.clean
  have hpairs {i : Nat} {o u : Variable} (hunchanged : Unchanged (freshChange { strictRenames := true }
      former.graph updated.graph) former.vars updated.vars i o u) :
      SizesAgree former.vars i o u ∧ (u.size ≠ o.size → o.size ≤ 32) := by
    refine hunchanged.of_forall h.former h.updated (P := fun i o u =>
      SizesAgree former.vars i o u ∧ (u.size ≠ o.size → o.size ≤ 32)) ?_
    rw [hvars, hvars']
    decide +kernel
  exact ⟨former, updated, h, hvars, hvars', slotsTaken_eq_of_clean h.underway hrun hclean h.former
    h.updated (fun _ _ _ h => (hpairs h).1) fun _ _ _ h => (hpairs h).2⟩

/-- A layout may give an integer of one byte more than a slot. One of two bytes takes its place without
an error, and the struct is a slot shorter. -/
theorem slotsTaken_counterexample : ∃ former updated, ComparedClean former updated ∧
    former.items ≠ [] ∧ updated.items ≠ [] ∧
    (∀ m ∈ updated.items, m.retypedFrom = none) ∧
    (∀ i o u, Unchanged (freshChange { strictRenames := true } former.graph updated.graph)
      former.vars updated.vars i o u → SizesAgree former.vars i o u) ∧
    slotsTaken former.vars ≠ slotsTaken updated.vars := by
  have hformer : LaidOut (limitVars 64 8 []) :=
    .of_ordered (by decide +kernel) (by decide +kernel) (by decide +kernel) (by decide +kernel)
  have hupdated : LaidOut (limitVars 2 16 []) :=
    .of_ordered (by decide +kernel) (by decide +kernel) (by decide +kernel) (by decide +kernel)
  obtain ⟨former, updated, h, hvars, hvars'⟩ := exists_comparedClean hformer hupdated
    (show (limitLayout 64 8 []).namespaces = [] from rfl)
    (show (limitLayout 2 16 []).namespaces = [] from rfl) (by decide +kernel)
  refine ⟨former, updated, h, ?_, ?_, ?_, fun i o u hunchanged => ?_, ?_⟩
  · intro hnil
    rw [Resolved.vars, hnil] at hvars
    cases hvars
  · intro hnil
    rw [Resolved.vars, hnil] at hvars'
    cases hvars'
  · intro m hm
    have hmem : updated.graph.variable m ∈ limitVars 2 16 [] :=
      hvars' ▸ List.mem_map_of_mem hm
    have hitem := congrArg Variable.item (List.mem_singleton.mp hmem)
    exact congrArg Item.retypedFrom hitem
  · refine hunchanged.of_forall h.former h.updated (P := SizesAgree former.vars) ?_
    rw [hvars, hvars']
    decide +kernel
  · rw [hvars, hvars']
    decide +kernel

end UpgradeSafety.Compare
