import UpgradeSafety.Proofs.Compare.Acyclic
import UpgradeSafety.Proofs.Compare.Visiting

/-!
# Types that contain themselves

A comparison of two types returns, or it is stopped by a type that contains itself
(`freshChange_returnsOrRecurs`), when the types have the members and arguments of their kinds and
the numbers that it reads and writes are not too long. It is stopped so only when there are such
types inside both: the pairs that are open lead from one to the next, so a pair that is met again
closes a cycle in either graph.

The comparison is run beside one that takes nothing for the answer wherever plain recursion has
none (`assumedChange`). That one always returns, because well-formed types are compared without an
obstacle of their own. So whenever the two part, it was at a pair that was open, and
`Transfer.unless` carries this through all steps: where the comparison is stopped by anything but a
recursion, so is the other one.

The conditions speak of all types that a type reaches. For a closed graph they can be checked type
by type.
-/

namespace UpgradeSafety

namespace TypeGraph

variable {g : TypeGraph} {i j k : String}

/-- The types inside a type at any depth, and the type itself. -/
def Reaches (g : TypeGraph) (i j : String) : Prop := Relation.ReflTransGen g.HasInside i j

theorem Reaches.inside (h : g.Reaches i j) (hk : k ∈ (g.node j).inside) : g.Reaches i k :=
  Relation.ReflTransGen.tail h hk

/-- A type that contains itself is reached from a type. -/
def IsRecursive (g : TypeGraph) (i : String) : Prop :=
  ∃ j, g.Reaches i j ∧ Relation.TransGen g.HasInside j j

/-- The members and arguments of the types that a type reaches are of the sort that their kinds need,
and an array of fixed length has at least one byte for each element. -/
structure WellFormedFrom (g : TypeGraph) (i : String) : Prop where
  types : ∀ j, g.Reaches i j → (g.node j).WellFormed
  elements : ∀ j, g.Reaches i j → ∀ n ∈ (g.node j).fixedLength?, ∀ bytes ∈ (g.node j).numberOfBytes,
    (n : Int) ≤ bytes

end TypeGraph

/-- The difference of two ends of the variable can be written. -/
structure Variable.EndsFit (v : Variable) : Prop where
  start : ∀ p, v.position? = some p → 2 * p.natAbs < Nat.pow 10 Numeral.maxDecimalDigits
  stop : ∀ e, v.end? = some e → 2 * e.natAbs < Nat.pow 10 Numeral.maxDecimalDigits

/-- The elements of an array take some bytes when each of them has at least one. -/
theorem Variable.EndsFit.measured {v : Variable} (h : v.EndsFit)
    (helements : ∀ n ∈ v.type.fixedLength?, ∀ bytes ∈ v.type.numberOfBytes, (n : Int) ≤ bytes) :
    v.Measured where
  start := h.start
  stop := h.stop
  element n hn := by
    have hsize : ((n + 1 : Nat) : Int) ≤ v.size := by
      rw [Variable.size, hn]
      cases hbytes : v.type.numberOfBytes with
      | some bytes => exact helements (n + 1) hn bytes hbytes
      | none =>
        dsimp only
        omega
    have hpos : (0 : Int) < (n + 1 : Nat) := by omega
    rw [Int.fdiv_eq_ediv_of_nonneg _ hpos.le]
    have hone : 1 ≤ v.size / (n + 1 : Nat) := Int.le_ediv_of_mul_le hpos (by rwa [one_mul])
    omega

/-- The numbers that a comparison of two types reads and writes are not too long: those in the ids of
the types that they reach, and those from which the hint for a resized gap is found. -/
structure TypeGraph.NumbersFit (og ug : TypeGraph) (i j : String) : Prop where
  former : ∀ k, og.Reaches i k → (og.node k).Readable
  updated : ∀ l, ug.Reaches j l → (ug.node l).Readable
  gaps : ∀ k, og.Reaches i k → ∀ l, ug.Reaches j l →
    (og.node k).kind = .struct → (ug.node l).kind = .struct →
    ∀ m ∈ (og.node k).memberItems, (og.variable m).isGap = true →
    ∀ n ∈ (ug.node l).memberItems, (ug.variable n).isGap = true →
      (og.variable m).EndsFit ∧ (ug.variable n).EndsFit

theorem TypeGraph.NumbersFit.membersMeasuredWith {og ug : TypeGraph} {i j k l : String}
    (h : og.NumbersFit ug i j) (ho : og.WellFormedFrom i) (hu : ug.WellFormedFrom j)
    (hk : og.Reaches i k) (hl : ug.Reaches j l) :
    og.MembersMeasuredWith ug (og.node k) (ug.node l) := by
  intro hok hul
  refine List.forall_mem_map.mpr fun m hm hmgap => List.forall_mem_map.mpr fun n hn hngap => ?_
  obtain ⟨hmfit, hnfit⟩ := h.gaps k hk l hl hok hul m hm hmgap n hn hngap
  exact ⟨hmfit.measured (ho.elements m.type (hk.inside
      (by rw [Compare.inside_eq_of_struct hok]; exact List.mem_map_of_mem hm))),
    hnfit.measured (hu.elements n.type (hl.inside
      (by rw [Compare.inside_eq_of_struct hul]; exact List.mem_map_of_mem hn)))⟩

namespace Compare

variable {leniency : Leniency} {og ug : TypeGraph}

/-- An obstacle is a type that contains itself, and there are such types inside both types. -/
def Recurs (og ug : TypeGraph) (i j : String) (e : Obstacle) : Prop :=
  (∃ label, e = .recursion label) ∧ og.IsRecursive i ∧ ug.IsRecursive j

/-- A comparison returns, or it is stopped by a type that contains itself. -/
def ReturnsOrRecurs (og ug : TypeGraph) (i j : String) (x : Except Obstacle (Option TypeChange)) :
    Prop :=
  (∃ r, x = .ok r) ∨ ∃ e, x = .error e ∧ Recurs og ug i j e

/-- What a comparison finds from a sound memory, the other computation finds; and where it is stopped
by an obstacle outside a class, so is the other. -/
def Transfer.unless (I : Memory → Prop) (P : Obstacle → Prop) :
    Transfer Comparison (Except Obstacle) where
  rel x y := ∀ memory, I memory → match x.run.run memory with
    | (.ok a, memory') => I memory' ∧ y = .ok a
    | (.error e, _) => P e ∨ y = .error e
  pure _ _ hI := ⟨hI, rfl⟩
  throw _ _ _ := Or.inr rfl
  bind {α β x y f g} hxy hfg memory hI := by
    rw [run_bind]
    have hx := hxy memory hI
    cases hrun : x.run.run memory with
    | mk r memory₁ =>
      rw [hrun] at hx
      cases r with
      | ok a =>
        obtain ⟨hI₁, hy⟩ := hx
        rw [hy]
        exact hfg a memory₁ hI₁
      | error e =>
        refine hx.imp_right fun hy => ?_
        rw [hy]
        rfl

/-- What plain recursion finds, and nothing where it is stopped. -/
def assumedChange (leniency : Leniency) (og ug : TypeGraph) : CompareTypes (Except Obstacle) :=
  fun o u a =>
    match plainChange leniency og ug (pairBound og ug) o u a with
    | .ok r => .ok r
    | .error _ => .ok none

theorem assumedChange_total (o u : TypeNode) (a : Bool) :
    ∃ r, assumedChange leniency og ug o u a = .ok r := by
  rw [assumedChange]
  split <;> exact ⟨_, rfl⟩

section

variable (hog : og.Keyed) (hug : ug.Keyed) {i₀ j₀ : String} (ho : og.WellFormedFrom i₀)
  (hu : ug.WellFormedFrom j₀) (hfit : og.NumbersFit ug i₀ j₀)
include hog hug ho hu hfit

omit hog hug in
theorem typeChangeWith_assumed {i j : String} (hi : og.Reaches i₀ i) (hj : ug.Reaches j₀ j)
    (a : Bool) : ∃ r, typeChangeWith leniency (pure ()) og ug (assumedChange leniency og ug)
      (og.node i) (ug.node j) a = .ok r :=
  typeChangeWith_total (fun k hk => hfit.former k (hi.inside hk))
    (fun l hl => hfit.updated l (hj.inside hl))
    (fun k _ l _ b => assumedChange_total (og.node k) (ug.node l) b) (ho.types i hi) (hu.types j hj)
    (hfit.former i hi) (hfit.updated j hj) (hfit.membersMeasuredWith ho hu hi hj) a

/-- The pairs that are open lead to the pair that is compared, so only a type that contains itself can
stop the comparison. -/
theorem typeChange_unless {fuel : Nat} {openPairs : List PairKey} (hopen : Open og ug openPairs)
    (hfuel : (pairKeys og ug).card < fuel + openPairs.length) {i j : String} (hi : og.Reaches i₀ i)
    (hj : ug.Reaches j₀ j)
    (hpath : ∀ key ∈ openPairs, Relation.TransGen og.HasInside key.1 i ∧
      Relation.TransGen ug.HasInside key.2.1 j) (a : Bool) :
    (Transfer.unless (Memory.Sound leniency og ug) (Recurs og ug i₀ j₀)).rel
      (typeChange leniency og ug fuel openPairs (og.node i) (ug.node j) a)
      (assumedChange leniency og ug (og.node i) (ug.node j) a) := by
  have hle := hopen.length_le
  induction fuel generalizing openPairs i j a with
  | zero => omega
  | succ fuel ih =>
    intro memory hI
    cases hrun : (typeChange leniency og ug (fuel + 1) openPairs (og.node i) (ug.node j) a).run.run
        memory with
    | mk x memory' =>
      cases x with
      | ok r =>
        obtain ⟨hI', hplain⟩ := typeChange_tracks hog hug (.refl og) (.refl ug) (fuel + 1) openPairs
          trivial trivial a memory hI r memory' hrun
        exact ⟨hI', by rw [assumedChange, hplain]⟩
      | error e =>
        left
        rw [run_typeChange_succ, hog.id_node, hug.id_node] at hrun
        split at hrun
        · cases hrun
        · split at hrun
          · -- the pair was met before, so the path from there to here closes a cycle in either graph
            rename_i hmem
            cases hrun
            obtain ⟨hcycle, hcycle'⟩ := hpath (i, j, a) (List.contains_iff_mem.mp hmem)
            exact ⟨⟨_, rfl⟩, ⟨i, hi, hcycle⟩, ⟨j, hj, hcycle'⟩⟩
          · rename_i hnot
            rw [Bool.not_eq_true] at hnot
            have hinside : (Transfer.unless (Memory.Sound leniency og ug) (Recurs og ug i₀ j₀)).rel
                (typeChangeWith leniency noteUnchecked og ug
                  (typeChange leniency og ug fuel ((i, j, a) :: openPairs)) (og.node i) (ug.node j) a)
                (typeChangeWith leniency (pure ()) og ug (assumedChange leniency og ug) (og.node i)
                  (ug.node j) a) := by
              refine Transfer.typeChangeWith _ (fun _ _ => rfl) (fun _ _ => rfl)
                (fun k hk l hl b => ?_) (fun _ hI => ⟨hI, rfl⟩) a
              have hopen' := hopen.cons hnot hk hl
              refine ih hopen' (by rw [List.length_cons]; omega) (hi.inside hk) (hj.inside hl)
                (List.forall_mem_cons.mpr ⟨⟨.single hk, .single hl⟩, fun key hkey => ?_⟩) b
                hopen'.length_le
              exact ⟨(hpath key hkey).1.tail hk, (hpath key hkey).2.tail hl⟩
            have hstep := hinside memory hI
            obtain ⟨r, hr⟩ := typeChangeWith_assumed ho hu hfit hi hj a
            rw [hr] at hstep
            split at hrun
            · cases hrun
            · rename_i e' _ hrun'
              cases hrun
              rw [hrun'] at hstep
              exact hstep.resolve_right fun hok => by cases hok

/-- A comparison that starts with an empty memory returns, or it is stopped by a type that contains
itself. -/
theorem freshChange_returnsOrRecurs (a : Bool) :
    ReturnsOrRecurs og ug i₀ j₀ (freshChange leniency og ug (og.node i₀) (ug.node j₀) a) := by
  have hfuel : (pairKeys og ug).card < pairBound og ug + ([] : List PairKey).length :=
    card_pairKeys_lt og ug
  obtain ⟨r, hr⟩ : ∃ r, assumedChange leniency og ug (og.node i₀) (ug.node j₀) a = .ok r :=
    assumedChange_total (og.node i₀) (ug.node j₀) a
  have hempty : Memory.Sound leniency og ug {} := Memory.sound_empty
  have hrel := typeChange_unless hog hug ho hu hfit .nil hfuel .refl .refl
    (fun _ h => absurd h List.not_mem_nil) a {} hempty
  rw [hr] at hrel
  rw [freshChange]
  split at hrel
  · rename_i r' _ hrun
    exact .inl ⟨r', by rw [hrun]⟩
  · rename_i e _ hrun
    exact .inr ⟨e, by rw [hrun], hrel.resolve_right fun hok => by cases hok⟩

end

end Compare

/-! ## Conditions that can be checked -/

namespace TypeGraph

variable {g : TypeGraph} {i j : String}

theorem keyed_of_graph (h : ∀ p ∈ g, p.2.id = p.1) : g.Keyed :=
  fun i t hi => h (i, t) (Compare.mem_of_lookup hi)

/-- A graph holds the types inside its types. -/
def Closed (g : TypeGraph) : Prop := ∀ p ∈ g, ∀ k ∈ p.2.inside, g.lookup k ≠ none

instance (g : TypeGraph) : Decidable g.Closed :=
  inferInstanceAs (Decidable (∀ p ∈ g, ∀ k ∈ p.2.inside, g.lookup k ≠ none))

/-- A closed graph holds the types that a type of it reaches. -/
theorem Reaches.mem_graph (h : g.Reaches i j) (hclosed : g.Closed) (hi : g.lookup i ≠ none) :
    (j, g.node j) ∈ g := by
  have hlookup : g.lookup j ≠ none := by
    induction h with
    | refl => exact hi
    | @tail k l _ hl ih =>
      obtain ⟨n, hn⟩ := Option.ne_none_iff_exists'.mp ih
      rw [HasInside, node_of_lookup hn] at hl
      exact hclosed (k, n) (Compare.mem_of_lookup hn) l hl
  obtain ⟨n, hn⟩ := Option.ne_none_iff_exists'.mp hlookup
  rw [node_of_lookup hn]
  exact Compare.mem_of_lookup hn

theorem wellFormedFrom_of_graph (hclosed : g.Closed) (hi : g.lookup i ≠ none)
    (h : ∀ p ∈ g, p.2.WellFormed ∧
      ∀ n ∈ p.2.fixedLength?, ∀ bytes ∈ p.2.numberOfBytes, (n : Int) ≤ bytes) :
    g.WellFormedFrom i where
  types _ hj := (h _ (hj.mem_graph hclosed hi)).1
  elements _ hj := (h _ (hj.mem_graph hclosed hi)).2

theorem numbersFit_of_graph {og ug : TypeGraph} (ho : og.Closed) (hu : ug.Closed)
    (hi : og.lookup i ≠ none) (hj : ug.lookup j ≠ none)
    (hog : ∀ p ∈ og, p.2.Readable ∧ og.GapsMeasured p.2)
    (hug : ∀ p ∈ ug, p.2.Readable ∧ ug.GapsMeasured p.2) : og.NumbersFit ug i j where
  former _ hk := (hog _ (hk.mem_graph ho hi)).1
  updated _ hl := (hug _ (hl.mem_graph hu hj)).1
  gaps _ hk _ hl hok hul m hm hmgap n hn hngap := by
    have hmeasured := (hog _ (hk.mem_graph ho hi)).2 hok m hm hmgap
    have hmeasured' := (hug _ (hl.mem_graph hu hj)).2 hul n hn hngap
    exact ⟨⟨hmeasured.start, hmeasured.stop⟩, hmeasured'.start, hmeasured'.stop⟩

/-- No type contains itself when the types inside a type have a lower rank. -/
theorem not_isRecursive_of_rank (rank : String → Nat)
    (h : ∀ p ∈ g, ∀ j ∈ p.2.inside, rank j < rank p.1) (i : String) : ¬ g.IsRecursive i := by
  rintro ⟨j, -, hcycle⟩
  have hstep {k l : String} (hl : g.HasInside k l) : rank l < rank k := by
    obtain ⟨n, hn⟩ := Option.ne_none_iff_exists'.mp (Compare.lookup_ne_none_of_mem_inside hl)
    rw [HasInside, node_of_lookup hn] at hl
    exact h (k, n) (Compare.mem_of_lookup hn) l hl
  have hlt : ∀ k, Relation.TransGen g.HasInside j k → rank k < rank j := by
    intro k hpath
    induction hpath with
    | single hk => exact hstep hk
    | tail _ hk ih => exact (hstep hk).trans ih
  exact Nat.lt_irrefl _ (hlt j hcycle)

end TypeGraph

end UpgradeSafety
