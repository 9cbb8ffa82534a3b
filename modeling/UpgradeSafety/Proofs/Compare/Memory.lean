import UpgradeSafety.Proofs.Compare.Plain

/-!
# What a comparison remembers

A memory is *sound* when plain recursion finds what it holds (`Memory.Sound`). From a sound memory a
comparison of two types finds what plain recursion finds, whatever pairs are open, and leaves the
memory sound (`typeChange_tracks`); and it does find it, unless the pairs that are open are in its
way (`typeChange_attains`). So the memory is invisible:

* `freshChange_eq_ok_iff`: a comparison that starts with an empty memory finds what plain recursion
  finds.

The graphs of the types that are compared may be parts of larger graphs to which the memory refers:
sections of one layout are compared one after the other with the same memory.
-/

namespace UpgradeSafety.Compare

variable {leniency : Leniency} {og ug : TypeGraph}

/-- What a comparison that starts with an empty memory finds for two types. -/
def freshChange (leniency : Leniency) (og ug : TypeGraph) : CompareTypes (Except Obstacle) :=
  fun o u allowAppend =>
    ((typeChange leniency og ug (pairBound og ug) [] o u allowAppend).run.run {}).1

/-- Plain recursion finds what the memory holds. -/
def Memory.Sound (leniency : Leniency) (og ug : TypeGraph) (memory : Memory) : Prop :=
  ∀ i j a found, memory.known[((i, j, a) : PairKey)]? = some found →
    ∃ depth, plainChange leniency og ug depth (og.node i) (ug.node j) a = .ok found

theorem Memory.sound_empty : Memory.Sound leniency og ug {} := by
  intro i j a found h
  rw [Std.HashMap.getElem?_empty] at h
  cases h

theorem Memory.Sound.insert {memory : Memory} (h : memory.Sound leniency og ug) {i j : String}
    {a : Bool} {found : Option TypeChange} {depth : Nat}
    (hfound : plainChange leniency og ug depth (og.node i) (ug.node j) a = .ok found) :
    Memory.Sound leniency og ug { memory with known := memory.known.insert (i, j, a) found } := by
  intro k l b found' h'
  rw [Std.HashMap.getElem?_insert] at h'
  split at h'
  · rename_i heq
    cases beq_iff_eq.mp heq
    cases h'
    exact ⟨depth, hfound⟩
  · exact h k l b found' h'

/-! ## Runs -/

theorem run_bind {α β : Type} (x : Comparison α) (f : α → Comparison β) (memory : Memory) :
    (x >>= f).run.run memory =
      match x.run.run memory with
      | (.ok a, memory') => (f a).run.run memory'
      | (.error e, memory') => (.error e, memory') := by
  rw [ExceptT.run_bind, StateT.run_bind]
  cases h : x.run.run memory with
  | mk r memory' => cases r <;> rfl

/-- What a comparison finds from a sound memory, the other computation finds, and the memory stays
sound. -/
def Transfer.tracks (I : Memory → Prop) : Transfer Comparison (Except Obstacle) where
  rel x y := ∀ memory, I memory → ∀ a memory', x.run.run memory = (.ok a, memory') →
    I memory' ∧ y = .ok a
  pure a memory hI b memory' h := by
    cases h
    exact ⟨hI, rfl⟩
  throw e memory _ b memory' h := by cases h
  bind {α β x y f g} hxy hfg memory hI b memory' h := by
    rw [run_bind] at h
    cases hx : x.run.run memory with
    | mk r memory₁ =>
      rw [hx] at h
      cases r with
      | error e => cases h
      | ok a =>
        obtain ⟨hI₁, hy⟩ := hxy memory hI a memory₁ hx
        obtain ⟨hI', hg⟩ := hfg a memory₁ hI₁ b memory' h
        rw [hy]
        exact ⟨hI', hg⟩

/-- What a computation finds, the comparison finds from every sound memory, and the memory stays
sound. -/
def Transfer.attains (I : Memory → Prop) : Transfer (Except Obstacle) Comparison where
  rel y x := ∀ a, y = .ok a → ∀ memory, I memory →
    ∃ memory', x.run.run memory = (.ok a, memory') ∧ I memory'
  pure a b h memory hI := by
    cases h
    exact ⟨memory, rfl, hI⟩
  throw e a h := by cases h
  bind {α β y x g f} hyx hgf b hb memory hI := by
    cases hy : y with
    | error e => rw [hy] at hb; cases hb
    | ok a =>
      rw [hy] at hb
      obtain ⟨memory₁, hx, hI₁⟩ := hyx a hy memory hI
      obtain ⟨memory', hf, hI'⟩ := hgf a b hb memory₁ hI₁
      refine ⟨memory', ?_, hI'⟩
      rw [run_bind, hx]
      exact hf

/-- A comparison looks into its memory first, then for the pair among the open ones, and last into
the two types. -/
theorem run_typeChange_succ (fuel : Nat) (openPairs : List PairKey) (o u : TypeNode) (a : Bool)
    (memory : Memory) :
    (typeChange leniency og ug (fuel + 1) openPairs o u a).run.run memory =
      match memory.known[((o.id, u.id, a) : PairKey)]? with
      | some found => (.ok found, memory)
      | none =>
        if openPairs.contains (o.id, u.id, a) then (.error (.recursion u.label), memory)
        else
          match (typeChangeWith leniency noteUnchecked og ug
              (typeChange leniency og ug fuel ((o.id, u.id, a) :: openPairs)) o u a).run.run
              memory with
          | (.ok found, memory') =>
            (.ok found, { memory' with known := memory'.known.insert (o.id, u.id, a) found })
          | (.error e, memory') => (.error e, memory') := by
  rw [typeChange, run_bind]
  change (match memory.known[((o.id, u.id, a) : PairKey)]? with
    | some found => (pure found : Comparison (Option TypeChange))
    | none => _).run.run memory = _
  cases memory.known[((o.id, u.id, a) : PairKey)]? with
  | some found => rfl
  | none =>
    dsimp only
    split
    · rfl
    · rw [run_bind]
      rcases (typeChangeWith leniency noteUnchecked og ug _ o u a).run.run memory with ⟨_ | _, _⟩
        <;> rfl

theorem noteUnchecked_tracks :
    (Transfer.tracks (Memory.Sound leniency og ug)).rel noteUnchecked (pure ()) := by
  intro memory hI _ memory' h
  cases h
  exact ⟨hI, rfl⟩

theorem noteUnchecked_attains :
    (Transfer.attains (Memory.Sound leniency og ug)).rel (pure ()) noteUnchecked := by
  intro _ h memory hI
  cases h
  exact ⟨_, rfl, hI⟩

/-! ## Types -/

section Sound

variable {C D : String → Prop} {og' ug' : TypeGraph} (hog : og.Keyed) (hug : ug.Keyed)
  (ho : og.AgreeOn C og') (hu : ug.AgreeOn D ug')
include hog hug ho hu

/-- From a memory that is sound for larger graphs, a comparison finds what plain recursion finds. -/
theorem typeChange_tracks (fuel : Nat) (openPairs : List PairKey) {i j : String} (hi : C i)
    (hj : D j) (a : Bool) :
    (Transfer.tracks (Memory.Sound leniency og' ug')).rel
      (typeChange leniency og ug fuel openPairs (og.node i) (ug.node j) a)
      (plainChange leniency og ug (pairBound og ug) (og.node i) (ug.node j) a) := by
  induction fuel generalizing openPairs i j a with
  | zero =>
    intro memory _ r memory' h
    cases h
  | succ fuel ih =>
    intro memory hI r memory' h
    rw [run_typeChange_succ, hog.id_node, hug.id_node] at h
    split at h
    · rename_i found hknown
      cases h
      obtain ⟨depth, hdepth⟩ := hI i j a r hknown
      exact ⟨hI, plainChange_pairBound (plainChange_congr ho.symm hu.symm hi hj hdepth)⟩
    · split at h
      · cases h
      · have htrack : (Transfer.tracks (Memory.Sound leniency og' ug')).rel
            (typeChangeWith leniency noteUnchecked og ug
              (typeChange leniency og ug fuel ((i, j, a) :: openPairs)) (og.node i) (ug.node j) a)
            (plainChange leniency og ug (pairBound og ug + 1) (og.node i) (ug.node j) a) :=
          Transfer.typeChangeWith _ (fun _ _ => rfl) (fun _ _ => rfl)
            (fun k hk l hl b => ih ((i, j, a) :: openPairs) (ho.inside i hi k hk)
              (hu.inside j hj l hl) b) noteUnchecked_tracks a
        split at h
        · rename_i found memory₁ hrun
          cases h
          obtain ⟨hI₁, hdeep⟩ := htrack memory hI r memory₁ hrun
          exact ⟨hI₁.insert (plainChange_congr ho hu hi hj hdeep), plainChange_pairBound hdeep⟩
        · cases h

/-- What plain recursion finds, a comparison finds from a memory that is sound for larger graphs,
unless a pair that is open stands in its way. -/
theorem typeChange_attains {depth fuel : Nat} (hfuel : depth ≤ fuel) {openPairs : List PairKey}
    (hopen : ∀ k l b r, (k, l, b) ∈ openPairs →
      plainChange leniency og ug depth (og.node k) (ug.node l) b ≠ .ok r)
    {i j : String} (hi : C i) (hj : D j) (a : Bool) :
    (Transfer.attains (Memory.Sound leniency og' ug')).rel
      (plainChange leniency og ug depth (og.node i) (ug.node j) a)
      (typeChange leniency og ug fuel openPairs (og.node i) (ug.node j) a) := by
  induction depth generalizing fuel openPairs i j a with
  | zero =>
    intro r h
    cases h
  | succ depth ih =>
    intro r h memory hI
    -- a pair that a smaller depth settles is not open by the induction hypothesis already
    by_cases hless : ∃ s, plainChange leniency og ug depth (og.node i) (ug.node j) a = .ok s
    · obtain ⟨s, hs⟩ := hless
      cases plainChange_unique h hs
      exact ih (by omega) (fun k l b r' hmem h' => hopen k l b r' hmem (plainChange_succ h')) hi hj
        a r hs memory hI
    · obtain ⟨fuel, rfl⟩ : ∃ n, fuel = n + 1 := ⟨fuel - 1, by omega⟩
      have hnot : openPairs.contains (i, j, a) = false := by
        rw [← Bool.not_eq_true, List.contains_iff_mem]
        exact fun hmem => hopen i j a r hmem h
      have hopen' : ∀ k l b r', (k, l, b) ∈ (i, j, a) :: openPairs →
          plainChange leniency og ug depth (og.node k) (ug.node l) b ≠ .ok r' := by
        intro k l b r' hmem h'
        rcases List.mem_cons.mp hmem with heq | hmem'
        · cases heq
          exact hless ⟨r', h'⟩
        · exact hopen k l b r' hmem' (plainChange_succ h')
      have hattain : (Transfer.attains (Memory.Sound leniency og' ug')).rel
          (plainChange leniency og ug (depth + 1) (og.node i) (ug.node j) a)
          (typeChangeWith leniency noteUnchecked og ug
            (typeChange leniency og ug fuel ((i, j, a) :: openPairs)) (og.node i) (ug.node j) a) :=
        Transfer.typeChangeWith _ (fun _ _ => rfl) (fun _ _ => rfl)
          (fun k hk l hl b => ih (by omega) hopen' (ho.inside i hi k hk) (hu.inside j hj l hl) b)
          noteUnchecked_attains a
      obtain ⟨memory₁, hrun, hI₁⟩ := hattain r h memory hI
      rw [run_typeChange_succ, hog.id_node, hug.id_node, hnot]
      cases hknown : memory.known[((i, j, a) : PairKey)]? with
      | some found =>
        obtain ⟨depth', hdepth'⟩ := hI i j a found hknown
        cases plainChange_unique h (plainChange_congr ho.symm hu.symm hi hj hdepth')
        exact ⟨memory, rfl, hI⟩
      | none =>
        refine ⟨_, by simp only [hrun, Bool.false_eq_true, if_false]; rfl, ?_⟩
        exact hI₁.insert (plainChange_congr ho hu hi hj h)

end Sound

/-- Starting with an empty memory, a comparison finds what plain recursion finds. -/
theorem freshChange_eq_ok_iff (hog : og.Keyed) (hug : ug.Keyed) {i j : String} {a : Bool}
    {r : Option TypeChange} :
    freshChange leniency og ug (og.node i) (ug.node j) a = .ok r ↔
      plainChange leniency og ug (pairBound og ug) (og.node i) (ug.node j) a = .ok r := by
  constructor
  · intro h
    unfold freshChange at h
    cases hrun : (typeChange leniency og ug (pairBound og ug) [] (og.node i) (ug.node j) a).run.run
        {} with
    | mk x memory' =>
      rw [hrun] at h
      cases h
      exact (typeChange_tracks hog hug (.refl og) (.refl ug) _ [] trivial trivial a {}
        Memory.sound_empty r memory' hrun).2
  · intro h
    have hnone : ∀ k l b r, (k, l, b) ∈ ([] : List PairKey) →
        plainChange leniency og ug (pairBound og ug) (og.node k) (ug.node l) b ≠ .ok r :=
      fun _ _ _ _ hmem => by cases hmem
    obtain ⟨memory', hrun, -⟩ := typeChange_attains hog hug (.refl og) (.refl ug)
      (Nat.le_refl _) hnone trivial trivial a r h {} Memory.sound_empty
    rw [freshChange, hrun]

end UpgradeSafety.Compare
