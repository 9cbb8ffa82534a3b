import UpgradeSafety.Proofs.Compare.Judgement

/-!
# Comparisons that are not stopped

A comparison of two types finds something when their members and arguments are of the right sort,
their numbers can be read, and the hint for a resized gap can be given (`typeChangeWith_total`).
Lists are aligned in any case. The obstacles are gone through one by one: each function that can be
stopped has a lemma saying that it is not, under a condition on the types it looks at
(`TypeNode.WellFormed`, `TypeNode.Readable`) and on the gaps of the lists (`Variable.Measured`).
How the types inside are compared is a parameter, of which only is asked that it finds something.

A complete type does not differ from itself (`typeChangeWith_self`): a list of members is aligned
with itself element by element, since only a longer list could be aligned otherwise for nothing.
Both results are about one level of types; the recursion, by depth or along types that do not
contain themselves, is added where it is needed.
-/

namespace UpgradeSafety

/-! ## Types and variables that can be compared -/

/-- The numbers in the id of a type can be read. -/
structure TypeNode.Readable (t : TypeNode) : Prop where
  length : t.lengthExcess? = none
  integer : t.integerExcess? = none

/-- The items of a struct type. -/
def TypeNode.memberItems (t : TypeNode) : List Item := (t.members.bind Members.items?).getD []

/-- The members and arguments of a type are of the sort that its kind needs, as far as they are
there; an array and a mapping have the arguments that are compared. -/
structure TypeNode.WellFormed (t : TypeNode) : Prop where
  struct : t.kind = .struct → ∀ m, t.members = some m → ∃ items, m.items? = some items
  enum : t.kind = .enum → ∀ m, t.members = some m → ∃ names, m.names? = some names
  array : t.kind = .array → ∃ a rest, t.args = some (a :: rest)
  mapping : t.kind = .mapping → ∃ a, t.args.bind List.getLast? = some a

/-- Everything is known that a comparison of a type with itself looks at. -/
structure TypeNode.IsComplete (t : TypeNode) : Prop extends t.WellFormed where
  members : t.kind = .struct ∨ t.kind = .enum → ∃ m, t.members = some m
  size : t.kind = .valueType → ∃ n, t.numberOfBytes = some n
  arrayLength : t.kind = .array → ∃ l, t.length? = some l

/-- The elements of a gap take some bytes, and the difference of two of its ends can be written. -/
structure Variable.Measured (v : Variable) : Prop where
  element : ∀ n, v.type.fixedLength? = some (n + 1) → v.size.fdiv (n + 1 : Nat) ≠ 0
  start : ∀ p, v.position? = some p → 2 * p.natAbs < Nat.pow 10 Numeral.maxDecimalDigits
  stop : ∀ e, v.end? = some e → 2 * e.natAbs < Nat.pow 10 Numeral.maxDecimalDigits

/-- The gaps among the members of a struct type are measured. -/
def TypeGraph.GapsMeasured (g : TypeGraph) (t : TypeNode) : Prop :=
  t.kind = .struct → ∀ m ∈ t.memberItems, (g.variable m).isGap = true → (g.variable m).Measured

/-- Where two lists both have gaps, these are measured. -/
def GapsMeasuredWith (former updated : List Variable) : Prop :=
  ∀ o ∈ former, o.isGap = true → ∀ u ∈ updated, u.isGap = true → o.Measured ∧ u.Measured

/-- Where two struct types both have gaps among their members, these are measured. -/
def TypeGraph.MembersMeasuredWith (og ug : TypeGraph) (o u : TypeNode) : Prop :=
  o.kind = .struct → u.kind = .struct →
    GapsMeasuredWith (o.memberItems.map og.variable) (u.memberItems.map ug.variable)

theorem TypeGraph.GapsMeasured.membersMeasuredWith {og ug : TypeGraph} {o u : TypeNode}
    (ho : og.GapsMeasured o) (hu : ug.GapsMeasured u) : og.MembersMeasuredWith ug o u := by
  intro hok huk
  refine List.forall_mem_map.mpr fun m hm hgap => List.forall_mem_map.mpr fun k hk hgap' => ?_
  exact ⟨ho hok m hm hgap, hu huk k hk hgap'⟩

namespace Compare

open UpgradeSafety.Alignment (Filled difference)

/-! ## Lists -/

theorem demand_none : demand none = .ok () := rfl

theorem lift_demand_none {α : Type} {f : Unit → Except Obstacle α} :
    liftObstacle (demand none) >>= f = f () := rfl

theorem forM_eq_ok {α : Type} {f : α → Except Obstacle Unit} {l : List α}
    (h : ∀ x ∈ l, f x = .ok ()) : l.forM f = .ok () := by
  induction l with
  | nil => rfl
  | cons x l ih =>
    change (f x >>= fun _ => l.forM f) = _
    rw [h x List.mem_cons_self]
    exact ih fun y hy => h y (List.mem_cons_of_mem x hy)

theorem demandGaps_eq_ok {former updated : List Variable}
    (ho : ∀ v ∈ former, v.type.Readable) (hu : ∀ v ∈ updated, v.type.Readable) :
    demandGaps former updated = .ok () := by
  have hexcess {v : Variable} (hv : v.type.Readable) : demand v.gapExcess? = .ok () := by
    rw [Variable.gapExcess?, hv.length, ite_self, demand_none]
  rw [demandGaps, forM_eq_ok fun v hv => hexcess (ho v hv)]
  change (if former.any Variable.isGap then _ else _) = _
  split
  · exact forM_eq_ok fun v hv => hexcess (hu v hv)
  · rfl

/-- Dividing makes no number longer. -/
theorem natAbs_fdiv_le (n d : Int) : (n.fdiv d).natAbs ≤ n.natAbs := by
  rcases le_total 0 d with hd | hd
  · rw [Int.fdiv_eq_ediv_of_nonneg n hd]
    exact Int.natAbs_ediv_le_natAbs n d
  · rw [← Int.neg_fdiv_neg, Int.fdiv_eq_ediv_of_nonneg _ (by omega), ← Int.natAbs_neg n]
    exact Int.natAbs_ediv_le_natAbs (-n) (-d)

theorem judgeResizedGap_total {o u : Variable} (ho : o.Measured) (hu : u.Measured) :
    ∃ op, judgeResizedGap o u = .ok op := by
  unfold judgeResizedGap
  split
  · rename_i oEnd uEnd uStart hoEnd _ huStart
    split
    · exact ⟨_, rfl⟩
    · split
      · rename_i hlt
        extract_lets element fitting
        have helement : element ≠ 0 := by
          simp only [element]
          split
          · rename_i n hn
            exact hu.element n hn
          · decide
        rw [if_neg helement]
        have hwritable : Numeral.isWritable fitting = true := by
          have hstop := ho.stop oEnd hoEnd
          have hstart := hu.start uStart huStart
          have hle : fitting.natAbs ≤ (oEnd - uStart).natAbs := natAbs_fdiv_le _ _
          rw [Numeral.isWritable]
          generalize Nat.pow 10 Numeral.maxDecimalDigits = bound at *
          exact decide_eq_true (by omega)
        rw [if_pos hwritable]
        exact ⟨_, rfl⟩
      · exact ⟨_, rfl⟩
  · exact ⟨_, rfl⟩

/-- A step can be judged when the gaps of a resized pair are measured and the size of a variable
that it adds can be read. -/
def IsJudgeable : VariableEdit → Prop
  | .substitute _ _ (.resizeGap o u _) => o.Measured ∧ u.Measured
  | .insert u | .append u => u.type.Readable
  | _ => True

theorem readable_of_leadingAdded {l : List VariableEdit} (h : ∀ e ∈ l, IsJudgeable e) :
    ∀ v ∈ leadingAdded l, v.type.Readable := by
  induction l with
  | nil => exact fun v hv => by cases hv
  | cons e l ih =>
    have hrest := ih fun e' he' => h e' (List.mem_cons_of_mem e he')
    have hhere := h e List.mem_cons_self
    cases e with
    | insert u =>
      intro v hv
      rcases List.mem_cons.mp hv with rfl | hv
      · exact hhere
      · exact hrest v hv
    | append u =>
      intro v hv
      rcases List.mem_cons.mp hv with rfl | hv
      · exact hhere
      · exact hrest v hv
    | equal o u => exact fun v hv => by cases hv
    | substitute o u c => exact fun v hv => by cases hv
    | delete o => exact fun v hv => by cases hv

theorem judgeStep_total {strict a : Bool} {gaps : List Variable} {before rest : List VariableEdit}
    {step : VariableEdit} (hbefore : ∀ e ∈ before, IsJudgeable e) (hstep : IsJudgeable step)
    (hrest : ∀ e ∈ rest, IsJudgeable e) :
    ∃ ops, judgeStep strict a gaps before step rest = .ok ops := by
  cases step with
  | equal o u => exact ⟨[], rfl⟩
  | substitute v w c =>
    obtain ⟨op, hop⟩ : ∃ op, judgePair strict c = .ok op := by
      unfold judgePair
      split
      · exact judgeResizedGap_total hstep.1 hstep.2
      · exact ⟨_, rfl⟩
      · exact ⟨_, rfl⟩
    exact ⟨[op], by rw [judgeStep, hop]; rfl⟩
  | insert u => exact ⟨_, rfl⟩
  | append u => exact ⟨_, rfl⟩
  | delete o =>
    rw [judgeStep]
    split
    · have hends : ((leadingAdded before).reverse ++ leadingAdded rest).forM demandEnd = .ok () := by
        refine forM_eq_ok fun v hv => ?_
        have hread : v.type.Readable := by
          rcases List.mem_append.mp hv with hv | hv
          · exact readable_of_leadingAdded hbefore v (List.mem_reverse.mp hv)
          · exact readable_of_leadingAdded hrest v hv
        rw [demandEnd, Variable.sizeExcess?, hread.length, ite_self, demand_none, ite_self]
      dsimp only
      rw [hends]
      exact ⟨_, rfl⟩
    · exact ⟨_, rfl⟩

theorem judgeSteps_total {strict a : Bool} {gaps : List Variable}
    {before script : List VariableEdit} (hbefore : ∀ e ∈ before, IsJudgeable e)
    (hscript : ∀ e ∈ script, IsJudgeable e) :
    ∃ ops, judgeSteps strict a gaps before script = .ok ops := by
  induction script generalizing before with
  | nil => exact ⟨[], rfl⟩
  | cons step rest ih =>
    have hstep := hscript step List.mem_cons_self
    have hrest : ∀ e ∈ rest, IsJudgeable e := fun e he => hscript e (List.mem_cons_of_mem step he)
    have hbefore' : ∀ e ∈ step :: before, IsJudgeable e :=
      List.forall_mem_cons.mpr ⟨hstep, hbefore⟩
    obtain ⟨here, hhere⟩ : ∃ here, judgeStep strict a gaps before step rest = .ok here :=
      judgeStep_total hbefore hstep hrest
    obtain ⟨later, hlater⟩ := ih hbefore' hrest
    refine ⟨here ++ later, ?_⟩
    rw [judgeSteps, hhere, hlater]
    rfl

theorem checkedChange_total {inner : CompareTypes (Except Obstacle)} {o u : TypeNode} {a : Bool}
    (ho : o.Readable) (hu : u.Readable) {found : Option TypeChange}
    (h : inner o u a = .ok found) : checkedChange inner o u a = .ok found := by
  rw [checkedChange, h, ho.integer, hu.integer]
  change (if found.isSome = true then _ else _) = _
  split <;> rfl

theorem variableChange_total {found : Except Obstacle (Option TypeChange)}
    (h : ∃ t, found = .ok t) (siblings : List Variable) (i : Nat) (o u : Variable) :
    ∃ d, variableChange found siblings i o u = .ok d := by
  obtain ⟨t, rfl⟩ := h
  unfold variableChange
  split
  · split
    · exact ⟨_, rfl⟩
    · exact ⟨_, rfl⟩
  · split
    · exact ⟨_, rfl⟩
    · exact ⟨_, rfl⟩

section Lists

variable {inner : CompareTypes (Except Obstacle)} {former updated : List Variable} {a : Bool}
  (ho : ∀ v ∈ former, v.type.Readable) (hu : ∀ v ∈ updated, v.type.Readable)
  (hinner : ∀ o ∈ former, ∀ u ∈ updated, ∀ a, ∃ r, inner o.type u.type a = .ok r)
include ho hu hinner

theorem differences_total : ∃ rows, differences (checkedChange inner) former updated a = .ok rows :=
  exists_differences fun i o hi u hmem => by
    have hmem' := List.mem_of_getElem? hi
    obtain ⟨r, hr⟩ := hinner o hmem' u hmem (a && i + 1 == former.length)
    exact variableChange_total ⟨r, checkedChange_total (ho o hmem') (hu u hmem) hr⟩ former i o u

/-- The comparison of two lists finds something when that of all types does. -/
theorem listChanges_total {strict : Bool} (hgaps : GapsMeasuredWith former updated) :
    ∃ ops, listChanges strict inner former updated a = .ok ops := by
  obtain ⟨rows, hrows⟩ := differences_total (a := a) ho hu hinner
  obtain ⟨script, hscript⟩ :=
    Alignment.exists_edits (tariff former.toArray updated.toArray) former updated rows
  obtain ⟨steps, hsteps, hfilled⟩ := Alignment.edits?_eq_some_iff.mp hscript
  have hjudgeable : ∀ e ∈ script, IsJudgeable e := by
    intro e he
    obtain ⟨k, hk⟩ := List.mem_iff_getElem?.mp he
    obtain ⟨s, -, hse⟩ := getElem?_of_forall₂ hfilled.flip hk
    cases hse with
    | equal => exact trivial
    | @substitute i j o u d hi hj hd =>
      have hchange := variableChange_eq_difference hrows hi hj
      rw [hd] at hchange
      cases d with
      | resizeGap v w n =>
        obtain ⟨rfl, rfl, hvg, hwg⟩ := isGap_of_resizeGap hchange
        exact hgaps v (List.mem_of_getElem? hi) hvg w (List.mem_of_getElem? hj) hwg
      | _ => exact trivial
    | insert hj => exact hu _ (List.mem_of_getElem? hj)
    | append hj => exact hu _ (List.mem_of_getElem? hj)
    | delete => exact trivial
  obtain ⟨ops, hops⟩ : ∃ ops, judge strict a former script = .ok ops :=
    judgeSteps_total (fun e he => by cases he) hjudgeable
  exact ⟨ops, listChanges_eq_ok_iff.mpr
    ⟨demandGaps_eq_ok ho hu, rows, steps, script, hrows, hsteps, hfilled, hops⟩⟩

end Lists

/-- A variable that declares no former name does not differ from itself when its type does not. -/
theorem variableChange_self {found : Except Obstacle (Option TypeChange)} (h : found = .ok none)
    {siblings : List Variable} {i : Nat} {v : Variable} (hname : v.item.renamedFrom = none) :
    variableChange found siblings i v v = .ok none := by
  have hgravest : gravestChange siblings i v v none = none := by
    refine gravestChange_eq_none_iff.mpr ⟨?_, ?_, Or.inl rfl⟩
    · simp [namesDiffer, hname]
    · cases hslot : v.item.slot <;> simp [move?, hslot]
  unfold variableChange
  split
  · rw [if_pos (by simp)]
    rfl
  · split
    · rw [hgravest]
      rfl
    · rw [h]
      exact congrArg Except.ok hgravest

/-- A list without declared names has no operations when it is compared with itself and no type
differs from itself. -/
theorem listChanges_self {inner : CompareTypes (Except Obstacle)} {strict a : Bool}
    {l : List Variable} (hread : ∀ v ∈ l, v.type.Readable)
    (hnames : ∀ v ∈ l, v.item.renamedFrom = none)
    (hinner : ∀ o ∈ l, ∀ u ∈ l, ∀ a, ∃ r, inner o.type u.type a = .ok r)
    (hself : ∀ v ∈ l, ∀ a, inner v.type v.type a = .ok none) :
    listChanges strict inner l l a = .ok [] := by
  obtain ⟨rows, hrows⟩ := differences_total (a := a) hread hread hinner
  refine listChanges_eq_nil (demandGaps_eq_ok hread hread) hrows (Nat.le_refl _) (Or.inr rfl)
    (fun i hi => ?_) (fun i j _ hle hlt => by omega)
  have hv := List.getElem?_eq_getElem hi
  have hmem := List.mem_of_getElem? hv
  have hchange := variableChange_eq_difference hrows hv hv
  rw [variableChange_self (checkedChange_total (hread _ hmem) (hread _ hmem) (hself _ hmem _))
    (hnames _ hmem)] at hchange
  exact (Except.ok.inj hchange).symm

/-! ## Types -/

section Types

variable {leniency : Leniency} {og ug : TypeGraph} {inner : CompareTypes (Except Obstacle)}
  {o u : TypeNode}

theorem memberItems_eq {t : TypeNode} {m : Members} {items : List Item} (hm : t.members = some m)
    (hitems : m.items? = some items) : t.memberItems = items := by
  simp [TypeNode.memberItems, hm, hitems]

theorem inside_eq_of_struct {t : TypeNode} (h : t.kind = .struct) :
    t.inside = t.memberItems.map (·.type) := by
  rw [TypeNode.inside, h]
  rfl

theorem mem_inside_of_array {t : TypeNode} {a : String} {rest : List String} (h : t.kind = .array)
    (hargs : t.args = some (a :: rest)) : a ∈ t.inside := by
  simp [TypeNode.inside, h, hargs]

theorem mem_inside_of_mapping {t : TypeNode} {args : List String} {a : String}
    (h : t.kind = .mapping) (hargs : t.args = some args) (ha : args.getLast? = some a) :
    a ∈ t.inside := by
  simp [TypeNode.inside, h, hargs, ha]

theorem unknownMembers_total : ∃ r, unknownMembers leniency (pure () : Except Obstacle Unit) o u =
    .ok r := by
  unfold unknownMembers
  split <;> exact ⟨_, rfl⟩

theorem enumChange_total (ho : ∀ m, o.members = some m → ∃ names, m.names? = some names)
    (hu : ∀ m, u.members = some m → ∃ names, m.names? = some names) :
    ∃ r, enumChange leniency (pure () : Except Obstacle Unit) o u = .ok r := by
  unfold enumChange
  split
  · rename_i om um hom hum
    obtain ⟨os, hos⟩ := ho om hom
    obtain ⟨us, hus⟩ := hu um hum
    rw [hos, hus]
    dsimp only
    split
    · exact ⟨_, rfl⟩
    · obtain ⟨edits, hedits⟩ := Alignment.exists_edits (.standard Unit) os us
        (os.map fun x => us.map fun y => if x = y then none else some ())
      rw [Alignment.align?, hedits]
      dsimp only
      split <;> exact ⟨_, rfl⟩
  · exact unknownMembers_total

theorem enumChange_self {m : Members} {names : List String} (hm : o.members = some m)
    (hnames : m.names? = some names) :
    enumChange leniency (pure () : Except Obstacle Unit) o o = .ok none := by
  obtain ⟨edits, hedits, hequal⟩ := Alignment.align?_self (a := names)
    (d := fun x y => if x = y then none else some ()) (fun x _ => if_pos rfl)
  have hharmless : edits.filter (!harmless ·) = [] := by
    rw [List.filter_eq_nil_iff]
    intro e he
    obtain ⟨x, y, rfl⟩ := hequal e he
    exact Bool.false_ne_true
  unfold enumChange
  rw [hm]
  dsimp only
  rw [hnames]
  dsimp only
  rw [if_neg (not_not.mpr rfl), hedits]
  dsimp only
  rw [hharmless]
  rfl

section Total

variable (hor : ∀ i ∈ o.inside, (og.node i).Readable) (hur : ∀ j ∈ u.inside, (ug.node j).Readable)
  (hinner : ∀ i ∈ o.inside, ∀ j ∈ u.inside, ∀ a, ∃ r, inner (og.node i) (ug.node j) a = .ok r)

include hor hur hinner in
theorem structChange_total (hok : o.kind = .struct) (huk : u.kind = .struct)
    (ho : ∀ m, o.members = some m → ∃ items, m.items? = some items)
    (hu : ∀ m, u.members = some m → ∃ items, m.items? = some items)
    (hgaps : og.MembersMeasuredWith ug o u) (a : Bool) :
    ∃ r, structChange leniency (pure () : Except Obstacle Unit) og ug inner o u a = .ok r := by
  unfold structChange
  split
  · rename_i om um hom hum
    obtain ⟨os, hos⟩ := ho om hom
    obtain ⟨us, hus⟩ := hu um hum
    have hoi {m : Item} (hm : m ∈ os) : m.type ∈ o.inside := by
      rw [inside_eq_of_struct hok, memberItems_eq hom hos]
      exact List.mem_map_of_mem hm
    have hui {m : Item} (hm : m ∈ us) : m.type ∈ u.inside := by
      rw [inside_eq_of_struct huk, memberItems_eq hum hus]
      exact List.mem_map_of_mem hm
    have hgaps' := hgaps hok huk
    rw [memberItems_eq hom hos, memberItems_eq hum hus] at hgaps'
    rw [hos, hus]
    dsimp only
    obtain ⟨ops, hops⟩ : ∃ ops, listChanges leniency.strictRenames inner (os.map og.variable)
        (us.map ug.variable) a = .ok ops := listChanges_total
      (List.forall_mem_map.mpr fun m hm => hor _ (hoi hm))
      (List.forall_mem_map.mpr fun m hm => hur _ (hui hm))
      (List.forall_mem_map.mpr fun m hm => List.forall_mem_map.mpr fun k hk =>
        hinner _ (hoi hm) _ (hui hk)) hgaps'
    cases herrors : errorChanges ops with
    | nil => exact ⟨none, bind_eq_ok_iff.mpr ⟨ops, hops, by rw [herrors]; rfl⟩⟩
    | cons c cs => exact ⟨_, bind_eq_ok_iff.mpr ⟨ops, hops, by rw [herrors]; rfl⟩⟩
  · exact unknownMembers_total

include hinner in
theorem elementChange_total {oArgs uArgs : List String} (hok : o.kind = .array)
    (huk : u.kind = .array) (hoArgs : o.args = some oArgs) (huArgs : u.args = some uArgs)
    (ho : o.WellFormed) (hu : u.WellFormed) :
    ∃ r, elementChange og ug inner o u oArgs uArgs = .ok r := by
  obtain ⟨i, _, hi⟩ := ho.array hok
  obtain ⟨j, _, hj⟩ := hu.array huk
  rw [hoArgs] at hi
  rw [huArgs] at hj
  cases hi
  cases hj
  obtain ⟨r, hr⟩ := hinner i (mem_inside_of_array hok hoArgs) j (mem_inside_of_array huk huArgs)
    false
  rw [elementChange, hr]
  exact ⟨_, rfl⟩

include hinner in
theorem arrayChange_total {oArgs uArgs : List String} (hok : o.kind = .array)
    (huk : u.kind = .array) (hoArgs : o.args = some oArgs) (huArgs : u.args = some uArgs)
    (ho : o.WellFormed) (hu : u.WellFormed) (hol : o.Readable) (hul : u.Readable) (a : Bool) :
    ∃ r, arrayChange og ug inner o u oArgs uArgs a = .ok r := by
  have helement := elementChange_total hinner hok huk hoArgs huArgs ho hu
  rw [arrayChange, hol.length, hul.length, lift_demand_none, lift_demand_none]
  split
  · exact ⟨_, rfl⟩
  · exact ⟨_, rfl⟩
  · exact helement
  · split
    · exact ⟨_, rfl⟩
    · split
      · exact ⟨_, rfl⟩
      · exact helement
  · exact ⟨_, rfl⟩

include hinner in
theorem mappingChange_total {oArgs uArgs : List String} (hok : o.kind = .mapping)
    (huk : u.kind = .mapping) (hoArgs : o.args = some oArgs) (huArgs : u.args = some uArgs)
    (ho : o.WellFormed) (hu : u.WellFormed) :
    ∃ r, mappingChange og ug inner o u oArgs uArgs = .ok r := by
  obtain ⟨i, hi⟩ := ho.mapping hok
  obtain ⟨j, hj⟩ := hu.mapping huk
  rw [hoArgs] at hi
  rw [huArgs] at hj
  change oArgs.getLast? = some i at hi
  change uArgs.getLast? = some j at hj
  obtain ⟨r, hr⟩ := hinner i (mem_inside_of_mapping hok hoArgs hi) j
    (mem_inside_of_mapping huk huArgs hj) true
  rw [mappingChange, hi, hj]
  dsimp only
  rw [hr]
  exact ⟨_, rfl⟩

include hor hur hinner in
/-- The comparison of two types finds something when that of the types inside does. -/
theorem typeChangeWith_total (ho : o.WellFormed) (hu : u.WellFormed) (hol : o.Readable)
    (hul : u.Readable) (hgaps : og.MembersMeasuredWith ug o u) (a : Bool) :
    ∃ r, typeChangeWith leniency (pure ()) og ug inner o u a = .ok r := by
  unfold typeChangeWith
  split
  · exact ⟨_, rfl⟩
  · rename_i hhead
    have hkind : u.kind = o.kind := by
      rw [TypeNode.kind, TypeNode.kind, Decidable.not_not.mp hhead]
    split
    · rename_i oArgs uArgs hoArgs huArgs
      split
      · exact ⟨_, rfl⟩
      · exact ⟨_, rfl⟩
      · rename_i hk
        exact structChange_total hor hur hinner hk (hkind.trans hk) (ho.struct hk)
          (hu.struct (hkind.trans hk)) hgaps a
      · rename_i hk
        exact enumChange_total (ho.enum hk) (hu.enum (hkind.trans hk))
      · rename_i hk
        exact mappingChange_total hinner hk (hkind.trans hk) hoArgs huArgs ho hu
      · rename_i hk
        exact arrayChange_total hinner hk (hkind.trans hk) hoArgs huArgs ho hu hol hul a
      · exact ⟨_, rfl⟩
    · exact ⟨_, rfl⟩
    · exact ⟨_, rfl⟩
    · exact ⟨_, rfl⟩

end Total

section Self

variable (hsame : ∀ i ∈ o.inside, ug.node i = og.node i)
  (hor : ∀ i ∈ o.inside, (og.node i).Readable)
  (htotal : ∀ i ∈ o.inside, ∀ j ∈ o.inside, ∀ a,
    ∃ r, inner (og.node i) (og.node j) a = .ok r)
  (hself : ∀ i ∈ o.inside, ∀ a, inner (og.node i) (og.node i) a = .ok none)
include hsame hself

include hor htotal in
theorem structChange_self {m : Members} {items : List Item} (hk : o.kind = .struct)
    (hm : o.members = some m) (hitems : m.items? = some items)
    (hnames : ∀ m ∈ o.memberItems, m.renamedFrom = none) (a : Bool) :
    structChange leniency (pure () : Except Obstacle Unit) og ug inner o o a = .ok none := by
  have hmembers := memberItems_eq hm hitems
  have hinside {m : Item} (hm : m ∈ items) : m.type ∈ o.inside := by
    rw [inside_eq_of_struct hk, hmembers]
    exact List.mem_map_of_mem hm
  have hvariables : items.map ug.variable = items.map og.variable :=
    List.map_congr_left fun m hm => by
      rw [TypeGraph.variable, TypeGraph.variable, hsame _ (hinside hm)]
  have hnil : listChanges leniency.strictRenames inner (items.map og.variable)
      (items.map og.variable) a = .ok [] :=
    listChanges_self (List.forall_mem_map.mpr fun m hm => hor _ (hinside hm))
      (List.forall_mem_map.mpr fun m hm => hnames m (hmembers ▸ hm))
      (List.forall_mem_map.mpr fun m hm => List.forall_mem_map.mpr fun k hk =>
        htotal _ (hinside hm) _ (hinside hk))
      (List.forall_mem_map.mpr fun m hm => hself _ (hinside hm))
  rw [structChange, hm]
  dsimp only
  rw [hitems]
  dsimp only
  rw [hvariables, hnil]
  rfl

theorem elementChange_self {args : List String} (hk : o.kind = .array) (hargs : o.args = some args)
    (ho : o.WellFormed) : elementChange og ug inner o o args args = .ok none := by
  obtain ⟨i, _, hi⟩ := ho.array hk
  rw [hargs] at hi
  cases hi
  have hmem := mem_inside_of_array hk hargs
  rw [elementChange, hsame i hmem, hself i hmem]
  rfl

theorem arrayChange_self {args : List String} (hk : o.kind = .array) (hargs : o.args = some args)
    (ho : o.IsComplete) (hol : o.Readable) (a : Bool) :
    arrayChange og ug inner o o args args a = .ok none := by
  have helement := elementChange_self hsame hself hk hargs ho.toWellFormed
  obtain ⟨l, hl⟩ := ho.arrayLength hk
  rw [arrayChange, hol.length, hl]
  cases l with
  | dynamic => exact helement
  | fixed n =>
    change (if n < n then _ else if (n < n && !a) = true then _ else _) = _
    rw [if_neg (Nat.lt_irrefl n), if_neg (by simp)]
    exact helement

theorem mappingChange_self {args : List String} (hk : o.kind = .mapping)
    (hargs : o.args = some args) (ho : o.WellFormed) :
    mappingChange og ug inner o o args args = .ok none := by
  obtain ⟨i, hi⟩ := ho.mapping hk
  rw [hargs] at hi
  change args.getLast? = some i at hi
  have hmem := mem_inside_of_mapping hk hargs hi
  rw [mappingChange, hi]
  dsimp only
  rw [hsame i hmem, hself i hmem]
  rfl

include hor htotal in
/-- A complete type does not differ from itself when the types inside do not. -/
theorem typeChangeWith_self (ho : o.IsComplete) (hol : o.Readable)
    (hnames : o.kind = .struct → ∀ m ∈ o.memberItems, m.renamedFrom = none) (a : Bool) :
    typeChangeWith leniency (pure ()) og ug inner o o a = .ok none := by
  unfold typeChangeWith
  rw [if_neg (not_not.mpr rfl)]
  split
  · rename_i oArgs uArgs hoArgs huArgs
    rw [hoArgs] at huArgs
    cases huArgs
    split
    · rfl
    · rename_i hk
      obtain ⟨n, hn⟩ := ho.size hk
      simp [valueTypeChange, hn]
      rfl
    · rename_i hk
      obtain ⟨m, hm⟩ := ho.members (Or.inl hk)
      obtain ⟨items, hitems⟩ := ho.struct hk m hm
      exact structChange_self hsame hor htotal hself hk hm hitems (hnames hk) a
    · rename_i hk
      obtain ⟨m, hm⟩ := ho.members (Or.inr hk)
      obtain ⟨names, hnames⟩ := ho.enum hk m hm
      exact enumChange_self hm hnames
    · rename_i hk
      exact mappingChange_self hsame hself hk hoArgs ho.toWellFormed
    · rename_i hk
      exact arrayChange_self hsame hself hk hoArgs ho hol a
    · rw [if_pos rfl]
      rfl
  · rename_i hsome hnone
    rw [hsome] at hnone
    cases hnone
  · rename_i hnone hsome
    rw [hnone] at hsome
    cases hsome
  · rfl

end Self

end Types

end Compare

end UpgradeSafety
