import UpgradeSafety.Proofs.Compare.MemberGap
import UpgradeSafety.Proofs.Compare.Recursion
import UpgradeSafety.Proofs.TypeId.Reading

/-!
# Calls of one comparator

A comparator is asked about one pair of types after the other. Whatever became of the earlier
calls, it is left with no pair open and a sound memory, and answers like a fresh one
(`Comparator.AtRest.call`). So with well-formed types and numbers that are not too long every call
returns, or it is stopped by a type that contains itself on both sides (`call_returnsOrRecurs`).

The memory of a comparator that was stopped half way is the point: what was found before is kept,
though it was found while other pairs were open. It is sound all the same, since only results that
plain recursion settles are remembered, and those do not depend on the open pairs. A pair that is
not settled is in no sound memory, so that asking for it again ends in the same way
(`typeChange_agree`).

A longer number in the id of a type, or a hint that cannot be written, stops a comparison of types
that do not contain themselves (`call_counterexample`).
-/

namespace UpgradeSafety.Compare

variable {leniency : Leniency} {og ug : TypeGraph}

/-! ## Sound memories -/

/-- From two sound memories two comparisons come to the same, and the memories stay sound. -/
def Transfer.agree (I : Memory → Prop) : Transfer Comparison Comparison where
  rel x y := ∀ memory memory', I memory → I memory' →
    (x.run.run memory).1 = (y.run.run memory').1 ∧ I (x.run.run memory).2 ∧ I (y.run.run memory').2
  pure _ _ _ hI hI' := ⟨rfl, hI, hI'⟩
  throw _ _ _ hI hI' := ⟨rfl, hI, hI'⟩
  bind {α β x y f g} hxy hfg memory memory' hI hI' := by
    rw [run_bind, run_bind]
    obtain ⟨heq, hx, hy⟩ := hxy memory memory' hI hI'
    revert heq hx hy
    rcases x.run.run memory with ⟨_ | a, memory₁⟩ <;> rcases y.run.run memory' with ⟨_ | b, memory₂⟩
    · intro heq hx hy
      cases heq
      exact ⟨rfl, hx, hy⟩
    · intro heq
      cases heq
    · intro heq
      cases heq
    · intro heq hx hy
      cases heq
      exact hfg a memory₁ memory₂ hx hy

section Agreement

variable (hog : og.Keyed) (hug : ug.Keyed)
include hog hug

/-- A pair that plain recursion settles is settled from every sound memory. -/
theorem typeChange_settled {fuel : Nat} {openPairs : List PairKey} (hopen : Open og ug openPairs)
    (hfuel : (pairKeys og ug).card < fuel + openPairs.length)
    (hunsettled : ∀ k l b r, (k, l, b) ∈ openPairs →
      plainChange leniency og ug (pairBound og ug) (og.node k) (ug.node l) b ≠ .ok r)
    {i j : String} {a : Bool} {r : Option TypeChange}
    (h : plainChange leniency og ug (pairBound og ug) (og.node i) (ug.node j) a = .ok r)
    {memory : Memory} (hI : memory.Sound leniency og ug) :
    ∃ memory', (typeChange leniency og ug fuel openPairs (og.node i) (ug.node j) a).run.run memory =
      (.ok r, memory') ∧ memory'.Sound leniency og ug := by
  rw [typeChange_levels hog hug hopen hfuel
    (show _ < fuel + pairBound og ug + openPairs.length by omega)]
  exact typeChange_attains hog hug (.refl og) (.refl ug) (by omega) hunsettled trivial trivial a r h
    memory hI

omit hog hug in
theorem Memory.Sound.known_eq_none {memory : Memory} (h : memory.Sound leniency og ug) {i j : String}
    {a : Bool} (hunsettled : ∀ r,
      plainChange leniency og ug (pairBound og ug) (og.node i) (ug.node j) a ≠ .ok r) :
    memory.known[((i, j, a) : PairKey)]? = none := by
  rw [Option.eq_none_iff_forall_ne_some]
  intro r hknown
  obtain ⟨depth, hdepth⟩ := h i j a r hknown
  exact hunsettled r (plainChange_pairBound hdepth)

/-- The comparison of a pair that is not settled is stopped where the types inside are compared. -/
theorem typeChange_unsettled (fuel : Nat) {openPairs : List PairKey} {i j : String} {a : Bool}
    (hunsettled : ∀ r, plainChange leniency og ug (pairBound og ug) (og.node i) (ug.node j) a ≠ .ok r)
    (hnot : openPairs.contains (i, j, a) = false) {memory : Memory}
    (hI : memory.Sound leniency og ug) :
    ∃ e memory', (typeChangeWith leniency noteUnchecked og ug
        (typeChange leniency og ug fuel ((i, j, a) :: openPairs)) (og.node i) (ug.node j) a).run.run
          memory = (.error e, memory') ∧
      (typeChange leniency og ug (fuel + 1) openPairs (og.node i) (ug.node j) a).run.run memory =
        (.error e, memory') := by
  have htrack := typeChange_tracks (i := i) (j := j) hog hug (.refl og) (.refl ug) (fuel + 1) openPairs
    trivial trivial a memory hI
  rw [run_typeChange_succ, hog.id_node, hug.id_node, hI.known_eq_none hunsettled, hnot] at htrack ⊢
  cases hrun : (typeChangeWith leniency noteUnchecked og ug
      (typeChange leniency og ug fuel ((i, j, a) :: openPairs)) (og.node i) (ug.node j) a).run.run
        memory with
  | mk x memory' =>
    cases x with
    | error e => exact ⟨e, memory', rfl, by simp⟩
    | ok r =>
      rw [hrun] at htrack
      exact absurd (htrack r _ rfl).2 (hunsettled r)

/-- What a comparison comes to does not depend on the memory, as long as that is sound. A pair that is
open is not settled, so no memory holds it. -/
theorem typeChange_agree {fuel : Nat} {openPairs : List PairKey} (hopen : Open og ug openPairs)
    (hfuel : (pairKeys og ug).card < fuel + openPairs.length)
    (hunsettled : ∀ k l b r, (k, l, b) ∈ openPairs →
      plainChange leniency og ug (pairBound og ug) (og.node k) (ug.node l) b ≠ .ok r)
    (i j : String) (a : Bool) :
    (Transfer.agree (Memory.Sound leniency og ug)).rel
      (typeChange leniency og ug fuel openPairs (og.node i) (ug.node j) a)
      (typeChange leniency og ug fuel openPairs (og.node i) (ug.node j) a) := by
  have hle := hopen.length_le
  induction fuel generalizing openPairs i j a with
  | zero => omega
  | succ fuel ih =>
    intro memory memory' hI hI'
    -- a settled pair may be known to one memory only; one that is not settled is known to neither
    by_cases hsettled : ∃ r,
        plainChange leniency og ug (pairBound og ug) (og.node i) (ug.node j) a = .ok r
    · obtain ⟨r, hr⟩ := hsettled
      obtain ⟨_, hrun, hI₁⟩ := typeChange_settled hog hug hopen hfuel hunsettled hr hI
      obtain ⟨_, hrun', hI₁'⟩ := typeChange_settled hog hug hopen hfuel hunsettled hr hI'
      rw [hrun, hrun']
      exact ⟨rfl, hI₁, hI₁'⟩
    · rw [not_exists] at hsettled
      cases hnot : openPairs.contains (i, j, a) with
      | true =>
        rw [run_typeChange_succ, run_typeChange_succ, hog.id_node, hug.id_node,
          hI.known_eq_none hsettled, hI'.known_eq_none hsettled, hnot]
        exact ⟨rfl, hI, hI'⟩
      | false =>
        have hinside : (Transfer.agree (Memory.Sound leniency og ug)).rel
            (typeChangeWith leniency noteUnchecked og ug
              (typeChange leniency og ug fuel ((i, j, a) :: openPairs)) (og.node i) (ug.node j) a)
            (typeChangeWith leniency noteUnchecked og ug
              (typeChange leniency og ug fuel ((i, j, a) :: openPairs)) (og.node i) (ug.node j) a) := by
          refine Transfer.typeChangeWith _ (fun _ _ => rfl) (fun _ _ => rfl)
            (fun k hk l hl b => ?_) (fun _ _ hI hI' => ⟨rfl, hI, hI'⟩) a
          have hopen' := hopen.cons hnot hk hl
          refine ih hopen' (by rw [List.length_cons]; omega) (fun k l b r hmem => ?_) k l b
            hopen'.length_le
          rcases List.mem_cons.mp hmem with heq | hmem
          · cases heq
            exact hsettled r
          · exact hunsettled k l b r hmem
        obtain ⟨e, memory₁, hrun, hstop⟩ := typeChange_unsettled hog hug fuel hsettled hnot hI
        obtain ⟨e', memory₁', hrun', hstop'⟩ :=
          typeChange_unsettled hog hug fuel hsettled hnot hI'
        have hsame := hinside memory memory' hI hI'
        rw [hrun, hrun'] at hsame
        rw [hstop, hstop']
        exact hsame

end Agreement

/-! ## Comparators -/

namespace Comparator

/-- A call: a comparator compares two types, at most so many levels down. -/
def call (depleted : Obstacle) (levels : Nat) (leniency : Leniency) (og ug : TypeGraph)
    (c : Comparator) (key : PairKey) : Except Obstacle (Option TypeChange) × Comparator :=
  (visitChange depleted leniency og ug levels (og.node key.1) (ug.node key.2.1) key.2.2).run.run c

/-- What calls, one after the other, make of a comparator. -/
def calls (depleted : Obstacle) (levels : Nat) (leniency : Leniency) (og ug : TypeGraph)
    (c : Comparator) (keys : List PairKey) : Comparator :=
  keys.foldl (fun c key => (c.call depleted levels leniency og ug key).2) c

/-- Between two calls no pair is open, and the memory is sound. -/
structure AtRest (leniency : Leniency) (og ug : TypeGraph) (c : Comparator) : Prop where
  visited : c.visited = []
  sound : c.memory.Sound leniency og ug

theorem atRest_fresh : AtRest leniency og ug {} := ⟨rfl, Memory.sound_empty⟩

variable (hog : og.Keyed) (hug : ug.Keyed) {depleted : Obstacle} {levels : Nat}
  (hlevels : pairBound og ug ≤ levels) {c : Comparator}
include hog hug hlevels

/-- A call comes to the same as one of a fresh comparator and leaves no pair open, even when it is
stopped. -/
theorem AtRest.call (h : c.AtRest leniency og ug) (key : PairKey) :
    (c.call depleted levels leniency og ug key).1 =
        freshChange leniency og ug (og.node key.1) (ug.node key.2.1) key.2.2 ∧
      (c.call depleted levels leniency og ug key).2.AtRest leniency og ug := by
  obtain ⟨memory, visited⟩ := c
  obtain ⟨rfl, hI⟩ := h
  have hcard := card_pairKeys_lt og ug
  have hbound : (pairKeys og ug).card < pairBound og ug + ([] : List PairKey).length := hcard
  have hfuel : (pairKeys og ug).card < levels + ([] : List PairKey).length :=
    hcard.trans_le hlevels
  have hrun : Comparator.call depleted levels leniency og ug ⟨memory, []⟩ key = _ :=
    run_visitChange hog hug depleted .nil hfuel hbound key.1 key.2.1 key.2.2 memory
  obtain ⟨heq, hI', -⟩ := typeChange_agree hog hug .nil hbound
    (fun _ _ _ _ hmem => absurd hmem List.not_mem_nil) key.1 key.2.1 key.2.2 memory {} hI
    Memory.sound_empty
  rw [hrun]
  exact ⟨heq, rfl, hI'⟩

theorem AtRest.calls (h : c.AtRest leniency og ug) (keys : List PairKey) :
    (c.calls depleted levels leniency og ug keys).AtRest leniency og ug := by
  induction keys generalizing c with
  | nil => exact h
  | cons key keys ih => exact ih (h.call hog hug hlevels key).2

end Comparator

/-- Whatever a comparator was asked before, and whatever is to happen when the levels are used up: a
call on well-formed types returns, or it is stopped by a type that contains itself on both sides. No
pair is open afterwards, and the call comes to the same as that of a fresh comparator. -/
theorem call_returnsOrRecurs (hog : og.Keyed) (hug : ug.Keyed) {levels : Nat}
    (hlevels : pairBound og ug ≤ levels) (depleted : Obstacle) (leniency : Leniency)
    (earlier : List PairKey) {i j : String} (ho : og.WellFormedFrom i) (hu : ug.WellFormedFrom j)
    (hfit : og.NumbersFit ug i j) (a : Bool) :
    let c := Comparator.calls depleted levels leniency og ug {} earlier
    let outcome := c.call depleted levels leniency og ug (i, j, a)
    ReturnsOrRecurs og ug i j outcome.1 ∧ outcome.2.visited = [] ∧
      outcome.1 = (Comparator.call depleted levels leniency og ug {} (i, j, a)).1 ∧
      outcome.1 = freshChange leniency og ug (og.node i) (ug.node j) a := by
  intro c outcome
  have hrest : c.AtRest leniency og ug := Comparator.atRest_fresh.calls hog hug hlevels earlier
  obtain ⟨heq, hafter⟩ := hrest.call hog hug hlevels (i, j, a)
  obtain ⟨hfresh, -⟩ := Comparator.atRest_fresh.call hog hug hlevels (i, j, a)
  refine ⟨?_, hafter.visited, heq.trans hfresh.symm, heq⟩
  rw [show outcome.1 = freshChange leniency og ug (og.node i) (ug.node j) a from heq]
  exact freshChange_returnsOrRecurs hog hug ho hu hfit a

/-! ## A tree -/

/-- A struct with an array of itself. -/
def treeType : TypeNode where
  id := "t_struct(Tree)1_storage"
  head := "t_struct"
  tail := some "1_storage"
  label := "struct Tree"
  numberOfBytes := some 128
  args := some ["Tree"]
  members := some (.items [word "value" 0,
    { label := "children", type := "t_array(t_struct(Tree)1_storage)dyn_storage", slot := some 1 },
    gap 2 2])

/-- The types of a tree. -/
def treeGraph : TypeGraph :=
  [(treeType.id, treeType), ("t_uint256", wordType),
    ("t_array(t_struct(Tree)1_storage)dyn_storage",
      { id := "t_array(t_struct(Tree)1_storage)dyn_storage"
        head := "t_array"
        tail := some "dyn_storage"
        label := "struct Tree[]"
        numberOfBytes := some 32
        args := some [treeType.id] }),
    ("t_array(t_uint256)2_storage", gapType 2 64)]

/-- The comparison of a tree with itself is stopped, for the second time like for the first. -/
theorem call_returnsOrRecurs_tree :
    let c := Comparator.calls .unaligned (pairBound treeGraph treeGraph) {} treeGraph treeGraph {}
      [(treeType.id, treeType.id, true)]
    let outcome := c.call .unaligned (pairBound treeGraph treeGraph) {} treeGraph treeGraph
      (treeType.id, treeType.id, true)
    (∃ label, outcome.1 = .error (.recursion label)) ∧ outcome.2.visited = [] ∧
      treeGraph.IsRecursive treeType.id := by
  have hkeyed : treeGraph.Keyed := TypeGraph.keyed_of_graph (by decide +kernel)
  have hclosed : treeGraph.Closed := by decide +kernel
  have hlookup : treeGraph.lookup treeType.id ≠ none := by decide +kernel
  have hcomplete : ∀ p ∈ treeGraph, p.2.IsComplete ∧
      ∀ n ∈ p.2.fixedLength?, ∀ bytes ∈ p.2.numberOfBytes, (n : Int) ≤ bytes := by
    decide +kernel
  have hmeasured : ∀ p ∈ treeGraph, p.2.Readable ∧ treeGraph.GapsMeasured p.2 := by
    decide +kernel
  have hwell : treeGraph.WellFormedFrom treeType.id := TypeGraph.wellFormedFrom_of_graph hclosed hlookup
    fun p hp => ⟨(hcomplete p hp).1.toWellFormed, (hcomplete p hp).2⟩
  obtain ⟨hresult, hvisited, -, hfresh⟩ := call_returnsOrRecurs hkeyed hkeyed
    (Nat.le_refl (pairBound treeGraph treeGraph)) .unaligned {} [(treeType.id, treeType.id, true)]
    hwell hwell
    (TypeGraph.numbersFit_of_graph hclosed hclosed hlookup hlookup hmeasured hmeasured) true
  have hplain : (plainChange {} treeGraph treeGraph (pairBound treeGraph treeGraph)
      (treeGraph.node treeType.id) (treeGraph.node treeType.id) true).toBool = false := by
    decide +kernel
  obtain ⟨r, hr⟩ | ⟨e, he, ⟨label, rfl⟩, hrecursive, -⟩ := hresult
  · rw [hfresh, freshChange_eq_ok_iff hkeyed hkeyed] at hr
    rw [hr] at hplain
    cases hplain
  · exact ⟨⟨label, he⟩, hvisited, hrecursive⟩

/-! ## Numbers that are too long -/

/-- Two well-formed types, the comparison of which neither returns nor is stopped by a type that
contains itself. -/
structure Obstructed (og ug : TypeGraph) (i j : String) : Prop where
  keyed : og.Keyed ∧ ug.Keyed
  former : og.WellFormedFrom i
  updated : ug.WellFormedFrom j
  stopped : ¬ ReturnsOrRecurs og ug i j
    (Comparator.call .unaligned (pairBound og ug) {} og ug {} (i, j, true)).1

/-- Types that do not contain themselves are obstructed when plain recursion finds nothing. -/
theorem obstructed_of_plain {g : TypeGraph} {i j : String} (hkeyed : g.Keyed)
    (hi : g.WellFormedFrom i) (hj : g.WellFormedFrom j) (hnot : ¬ g.IsRecursive i)
    (hplain : ∀ r, plainChange {} g g (pairBound g g) (g.node i) (g.node j) true ≠ .ok r) :
    Obstructed g g i j where
  keyed := ⟨hkeyed, hkeyed⟩
  former := hi
  updated := hj
  stopped := by
    have hfresh : (Comparator.call .unaligned (pairBound g g) {} g g {} (i, j, true)).1 =
        freshChange {} g g (g.node i) (g.node j) true :=
      (Comparator.atRest_fresh.call hkeyed hkeyed (Nat.le_refl (pairBound g g)) (i, j, true)).1
    rw [hfresh]
    rintro (⟨r, hr⟩ | ⟨-, -, -, hrecursive, -⟩)
    · exact hplain r ((freshChange_eq_ok_iff hkeyed hkeyed).mp hr)
    · exact hnot hrecursive

theorem elements_of_sizeless {t : TypeNode} (h : t.numberOfBytes = none) :
    ∀ n ∈ t.fixedLength?, ∀ bytes ∈ t.numberOfBytes, (n : Int) ≤ bytes := by
  intro _ _ bytes hbytes
  rw [h] at hbytes
  cases hbytes

/-- A type that contains types with nothing inside is obstructed when plain recursion finds nothing in
its comparison with itself. -/
theorem obstructed_self {t : TypeNode} {rest : TypeGraph} (hkeyed : ∀ p ∈ rest, p.2.id = p.1)
    (hwell : ∀ p ∈ (t.id, t) :: rest, p.2.WellFormed ∧
      ∀ n ∈ p.2.fixedLength?, ∀ bytes ∈ p.2.numberOfBytes, (n : Int) ≤ bytes)
    (hrest : ∀ p ∈ rest, p.2.inside = [])
    (hinside : ∀ k ∈ t.inside, k ≠ t.id ∧ rest.lookup k ≠ none)
    (hplain : ∀ r, plainChange {} ((t.id, t) :: rest) ((t.id, t) :: rest)
      (pairBound ((t.id, t) :: rest) ((t.id, t) :: rest)) t t true ≠ .ok r) :
    Obstructed ((t.id, t) :: rest) ((t.id, t) :: rest) t.id t.id := by
  have hempty {p : String × TypeNode} (hp : p ∈ rest) {k : String} : k ∉ p.2.inside := by
    simp [hrest p hp]
  have hlookup : List.lookup t.id ((t.id, t) :: rest) = some t := by simp
  have hclosed : TypeGraph.Closed ((t.id, t) :: rest) := by
    refine List.forall_mem_cons.mpr ⟨fun k hk => ?_, fun p hp k hk => absurd hk (hempty hp)⟩
    obtain ⟨hne, hk⟩ := hinside k hk
    rwa [List.lookup_cons, beq_eq_false_iff_ne.mpr hne]
  have hwell' : TypeGraph.WellFormedFrom ((t.id, t) :: rest) t.id :=
    TypeGraph.wellFormedFrom_of_graph hclosed (by simp [hlookup]) hwell
  refine obstructed_of_plain (TypeGraph.keyed_of_graph (List.forall_mem_cons.mpr ⟨rfl, hkeyed⟩))
    hwell' hwell' (TypeGraph.not_isRecursive_of_rank (fun i => if i = t.id then 1 else 0) ?_ t.id) ?_
  · refine List.forall_mem_cons.mpr ⟨fun k hk => ?_, fun p hp k hk => absurd hk (hempty hp)⟩
    simp [(hinside k hk).1]
  · rwa [TypeGraph.node_of_lookup hlookup]

/-- An array type with a length that cannot be read stops a comparison. -/
theorem typeChangeWith_ne_ok_of_length {inner : CompareTypes (Except Obstacle)} {o : TypeNode}
    {args : List String} (hkind : o.kind = .array) (hargs : o.args = some args) {digits : Nat}
    (h : o.lengthExcess? = some digits) (a : Bool) (r : Option TypeChange) :
    typeChangeWith leniency (pure ()) og ug inner o o a ≠ .ok r := by
  rw [typeChangeWith, if_neg (not_not.mpr rfl), hargs]
  dsimp only
  rw [hkind]
  dsimp only
  rw [arrayChange, h]
  intro hok
  cases hok

/-- An array of words, the length of which is written with so many digits. -/
def wordsType (digits : Nat) : TypeNode where
  id := String.ofList ('t' :: '_' :: 'a' :: ("rray(t_uint256)".toList ++ List.replicate digits '1' ++
    "_storage".toList))
  head := "t_array"
  tail := some (String.ofList (List.replicate digits '1' ++ "_storage".toList))
  label := "uint256[]"
  args := some ["t_uint256"]

/-- Its types. -/
def wordsGraph (digits : Nat) : TypeGraph :=
  [((wordsType digits).id, wordsType digits), ("t_uint256", wordType)]

theorem kind_wordsType (digits : Nat) : (wordsType digits).kind = .array := by
  change TypeId.kindOfHead "t_array" = .array
  decide +kernel

theorem lengthExcess?_wordsType {digits : Nat} (h : Numeral.maxDecimalDigits < digits) :
    (wordsType digits).lengthExcess? = some digits :=
  TypeId.lengthExcess?_storage h

/-- The array is compared with itself. -/
theorem obstructed_words {digits : Nat} (h : Numeral.maxDecimalDigits < digits) :
    Obstructed (wordsGraph digits) (wordsGraph digits) (wordsType digits).id
      (wordsType digits).id := by
  have hinside : (wordsType digits).inside = ["t_uint256"] := by
    rw [TypeNode.inside, kind_wordsType]
    rfl
  have hwell : (wordsType digits).WellFormed := by
    refine ⟨fun hk => ?_, fun hk => ?_, fun _ => ⟨_, _, rfl⟩, fun hk => ?_⟩ <;>
      rw [kind_wordsType] at hk <;> cases hk
  have hword : wordType.IsComplete := by decide +kernel
  refine obstructed_self (List.forall_mem_singleton.mpr rfl)
    (List.forall_mem_cons.mpr ⟨⟨hwell, elements_of_sizeless rfl⟩,
      List.forall_mem_singleton.mpr ⟨hword.toWellFormed, by decide +kernel⟩⟩)
    (List.forall_mem_singleton.mpr (inside_eq_nil rfl rfl)) (fun k hk => ?_) fun r hr => ?_
  · rw [hinside, List.mem_singleton] at hk
    subst hk
    refine ⟨fun heq => ?_, by simp⟩
    have hchars : (wordsType digits).id.toList =
        't' :: '_' :: 'a' :: ("rray(t_uint256)".toList ++ List.replicate digits '1' ++
          "_storage".toList) := String.toList_ofList
    have hthird : (wordsType digits).id.toList[2]? = some 'a' := by
      rw [hchars, List.getElem?_cons_succ, List.getElem?_cons_succ, List.getElem?_cons_zero]
    rw [← heq] at hthird
    exact absurd hthird (by decide)
  · rw [pairBound, plainChange] at hr
    exact typeChangeWith_ne_ok_of_length (kind_wordsType digits) rfl (lengthExcess?_wordsType h) true r hr

/-- A struct with an address and an integer, the size of which is written with so many digits. -/
def limitsType (digits : Nat) : TypeNode where
  id := "t_struct(Limits)1_storage"
  head := "t_struct"
  tail := some "1_storage"
  label := "struct Limits"
  args := some ["Limits"]
  members := some (.items (uintStorage digits).items)

/-- Its types. -/
def limitsGraph (digits : Nat) : TypeGraph :=
  ((limitsType digits).id, limitsType digits) :: (uintStorage digits).graph

theorem isStruct_limitsType (digits : Nat) :
    (limitsType digits).IsStruct (uintStorage digits).items := ⟨rfl, rfl, rfl⟩

theorem kind_limitsType (digits : Nat) : (limitsType digits).kind = .struct := by
  change TypeId.kindOfHead "t_struct" = .struct
  decide +kernel

/-- The address in the struct is compared with the integer. -/
theorem obstructed_limits {digits : Nat} (h : Numeral.maxDecimalDigits < digits) :
    Obstructed (limitsGraph digits) (limitsGraph digits) (limitsType digits).id
      (limitsType digits).id := by
  have hinside : (limitsType digits).inside = ["t_address", uintId digits] := by
    rw [TypeNode.inside, kind_limitsType]
    rfl
  have hcomplete : (limitsType digits).IsComplete := by
    rw [TypeNode.isComplete_iff, kind_limitsType]
    simp [(isStruct_limitsType digits).members]
  have haddress : addressType.IsComplete := by decide +kernel
  refine obstructed_self (List.forall_mem_cons.mpr ⟨rfl, List.forall_mem_singleton.mpr rfl⟩)
    (List.forall_mem_cons.mpr ⟨⟨hcomplete.toWellFormed, elements_of_sizeless rfl⟩,
      List.forall_mem_cons.mpr ⟨⟨haddress.toWellFormed, by decide +kernel⟩,
        List.forall_mem_singleton.mpr
          ⟨(isComplete_uintType digits).toWellFormed, elements_of_sizeless rfl⟩⟩⟩)
    (List.forall_mem_cons.mpr ⟨inside_eq_nil rfl rfl,
      List.forall_mem_singleton.mpr (inside_eq_nil rfl rfl)⟩) (fun k hk => ?_) fun r hr => ?_
  · have hlookup : (uintStorage digits).graph.lookup "t_address" ≠ none ∧
        (uintStorage digits).graph.lookup (uintId digits) ≠ none := by
      simp [uintStorage, List.lookup_cons, uintId_beq]
    rw [hinside, List.mem_pair] at hk
    rcases hk with rfl | rfl
    · exact ⟨show "t_address" ≠ "t_struct(Limits)1_storage" by decide, hlookup.1⟩
    · exact ⟨uintId_ne digits "t_struct(Limits)1_storage" (by decide), hlookup.2⟩
  · have hvars : (uintStorage digits).items.map (limitsGraph digits).variable =
        (uintStorage digits).vars := by
      have hne := beq_eq_false_iff_ne.mpr (uintId_ne digits "t_struct(Limits)1_storage" (by decide))
      simp [Resolved.vars, uintStorage, uintLayout, limitsGraph, limitsType, TypeGraph.variable,
        TypeGraph.node, address, List.lookup_cons, uintId_beq, hne]
    rw [pairBound, plainChange,
      typeChangeWith_of_struct (isStruct_limitsType digits) (isStruct_limitsType digits)] at hr
    obtain ⟨ops, hops, -⟩ := map_eq_ok_iff.mp hr
    exact listChanges_uint_ne_ok h (hvars ▸ hops)

/-- A struct that consists of a gap. -/
def reservationType (number : Nat) (reserved : Item) : TypeNode where
  id := s!"t_struct(Reservation{number}){number}_storage"
  head := "t_struct"
  tail := some s!"{number}_storage"
  label := s!"struct Reservation{number}"
  args := some [s!"Reservation{number}"]
  members := some (.items [reserved])

/-- Two such structs with their types. The slot of the first gap is free, and the elements of the
second one take a byte each. -/
def reservationGraph (slot : Int) : TypeGraph :=
  [((reservationType 1 (gap 2 slot)).id, reservationType 1 (gap 2 slot)),
    ("t_array(t_uint256)2_storage", gapType 2 64), ("t_uint256", wordType),
    ((reservationType 2 (gap 3 0)).id, reservationType 2 (gap 3 0)),
    ("t_array(t_uint256)3_storage", gapType 3 3)]

/-- The second gap would fit if it had as many elements as there are bytes up to the end of the first
one, a number that cannot be written. -/
theorem obstructed_reservations :
    Obstructed (reservationGraph (4 * 10 ^ 4298)) (reservationGraph (4 * 10 ^ 4298))
      "t_struct(Reservation1)1_storage" "t_struct(Reservation2)2_storage" := by
  have hclosed : (reservationGraph (4 * 10 ^ 4298)).Closed := by decide +kernel
  have hcomplete : ∀ p ∈ reservationGraph (4 * 10 ^ 4298), p.2.IsComplete ∧
      ∀ n ∈ p.2.fixedLength?, ∀ bytes ∈ p.2.numberOfBytes, (n : Int) ≤ bytes := by
    decide +kernel
  have hplain : (plainChange {} (reservationGraph (4 * 10 ^ 4298)) (reservationGraph (4 * 10 ^ 4298))
      (pairBound (reservationGraph (4 * 10 ^ 4298)) (reservationGraph (4 * 10 ^ 4298)))
      ((reservationGraph (4 * 10 ^ 4298)).node "t_struct(Reservation1)1_storage")
      ((reservationGraph (4 * 10 ^ 4298)).node "t_struct(Reservation2)2_storage") true).toBool =
        false := by
    decide +kernel
  have hwell {i : String} (hi : (reservationGraph (4 * 10 ^ 4298)).lookup i ≠ none) :
      (reservationGraph (4 * 10 ^ 4298)).WellFormedFrom i :=
    TypeGraph.wellFormedFrom_of_graph hclosed hi fun p hp =>
      ⟨(hcomplete p hp).1.toWellFormed, (hcomplete p hp).2⟩
  refine obstructed_of_plain (TypeGraph.keyed_of_graph (by decide +kernel))
    (hwell (by decide +kernel)) (hwell (by decide +kernel))
    (TypeGraph.not_isRecursive_of_rank String.length (by decide +kernel) _) fun r hr => ?_
  rw [hr] at hplain
  cases hplain

/-- The numbers have to fit: a comparison is stopped by the length of an array and by the size of an
integer that is a member of a struct when they have too many digits, and by a gap that begins too far
behind. -/
theorem call_counterexample :
    Obstructed (wordsGraph 4301) (wordsGraph 4301) (wordsType 4301).id (wordsType 4301).id ∧
    Obstructed (limitsGraph 4301) (limitsGraph 4301) (limitsType 4301).id (limitsType 4301).id ∧
    Obstructed (reservationGraph (4 * 10 ^ 4298)) (reservationGraph (4 * 10 ^ 4298))
      "t_struct(Reservation1)1_storage" "t_struct(Reservation2)2_storage" :=
  ⟨obstructed_words (by decide), obstructed_limits (by decide), obstructed_reservations⟩

end UpgradeSafety.Compare
