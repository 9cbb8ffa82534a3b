import UpgradeSafety.Proofs.Compare.Memory

/-!
# Pairs that are being compared

The comparison of two types takes the pairs that are open as an argument and a number of levels to
go down. Here the open pairs are part of the state, next to the memory: a pair is entered before
the types inside are compared and taken out again afterwards, whatever came of it; and what happens
when the levels are used up is left open. Both are the same (`run_visitChange`): the open pairs are
what they were before, and the levels are never used up, since no more pairs can be open than the
graphs have.

The open pairs are all different and all of types of the two graphs that contain others (`Open`),
so their number has a bound, and a pair that can be opened leaves room for itself.

* `typeChange_levels`: so the number of levels does not matter, as long as it is not too small.
-/

namespace UpgradeSafety.Compare

variable {leniency : Leniency} {og ug : TypeGraph}

/-- What a comparator remembers, and the pairs that it is comparing. -/
structure Comparator where
  memory : Memory := {}
  visited : List PairKey := []

/-- A comparison by a comparator. -/
abbrev Visiting := ExceptT Obstacle (StateM Comparator)

/-- Changes what the comparator remembers. -/
def Visiting.remember (change : Memory → Memory) : Visiting Unit :=
  modify fun c => { c with memory := change c.memory }

/-- Does something while a pair is open. The pair is closed whatever comes of it. -/
def Visiting.visit {α : Type} (key : PairKey) (x : Visiting α) : Visiting α := do
  modify fun c => { c with visited := key :: c.visited }
  try x
  finally modify fun c => { c with visited := c.visited.erase key }

/-- Compares two types, remembering the result, at most so many levels down; `depleted` is the obstacle
when they are used up. -/
def visitChange (depleted : Obstacle) (leniency : Leniency) (og ug : TypeGraph) :
    Nat → CompareTypes Visiting
  | 0, _, _, _ => throw depleted
  | levels + 1, o, u, allowAppend => do
    let key : PairKey := (o.id, u.id, allowAppend)
    match (← get).memory.known[key]? with
    | some found => return found
    | none =>
      if (← get).visited.contains key then throw (.recursion u.label)
      else
        let found ← Visiting.visit key
          (typeChangeWith leniency
            (Visiting.remember fun memory => { memory with uncheckedCustomTypes := true }) og ug
            (visitChange depleted leniency og ug levels) o u allowAppend)
        Visiting.remember fun memory => { memory with known := memory.known.insert key found }
        return found

/-! ## Runs -/

theorem run_visiting_bind {α β : Type} (x : Visiting α) (f : α → Visiting β) (c : Comparator) :
    (x >>= f).run.run c =
      match x.run.run c with
      | (.ok a, c') => (f a).run.run c'
      | (.error e, c') => (.error e, c') := by
  rw [ExceptT.run_bind, StateT.run_bind]
  cases h : x.run.run c with
  | mk r c' => cases r <;> rfl

theorem run_visit {α : Type} (key : PairKey) (x : Visiting α) (c : Comparator) :
    (Visiting.visit key x).run.run c =
      match x.run.run { c with visited := key :: c.visited } with
      | (r, c') => (r, { c' with visited := c'.visited.erase key }) := by
  cases h : x.run.run { c with visited := key :: c.visited } with
  | mk r c' =>
    have hx : x { c with visited := key :: c.visited } = (r, c') := h
    simp only [Visiting.visit, tryFinally, MonadFinally.tryFinally', bind, ExceptT.bind, ExceptT.mk,
      ExceptT.run, StateT.bind, StateT.run, modify, modifyGet, MonadStateOf.modifyGet, monadLift,
      MonadLift.monadLift, ExceptT.lift, StateT.modifyGet, pure, Functor.map, StateT.map, ExceptT.map,
      ExceptT.bindCont]
    rw [hx]
    cases r <;> rfl

/-- A comparator looks into its memory first, then for the pair among the open ones, and last, with the
pair open, into the two types. -/
theorem run_visitChange_succ (depleted : Obstacle) (levels : Nat) (o u : TypeNode) (a : Bool)
    (c : Comparator) :
    (visitChange depleted leniency og ug (levels + 1) o u a).run.run c =
      match c.memory.known[((o.id, u.id, a) : PairKey)]? with
      | some found => (.ok found, c)
      | none =>
        if c.visited.contains (o.id, u.id, a) then (.error (.recursion u.label), c)
        else
          match (typeChangeWith leniency
              (Visiting.remember fun memory => { memory with uncheckedCustomTypes := true }) og ug
              (visitChange depleted leniency og ug levels) o u a).run.run
              { c with visited := (o.id, u.id, a) :: c.visited } with
          | (.ok found, c') => (.ok found,
              ⟨{ c'.memory with known := c'.memory.known.insert (o.id, u.id, a) found },
                c'.visited.erase (o.id, u.id, a)⟩)
          | (.error e, c') => (.error e, { c' with visited := c'.visited.erase (o.id, u.id, a) }) := by
  rw [visitChange, run_visiting_bind]
  change (match c.memory.known[((o.id, u.id, a) : PairKey)]? with
    | some found => (pure found : Visiting (Option TypeChange))
    | none => _).run.run c = _
  cases c.memory.known[((o.id, u.id, a) : PairKey)]? with
  | some found => rfl
  | none =>
    dsimp only
    rw [run_visiting_bind]
    change (if c.visited.contains (o.id, u.id, a) then (throw (.recursion u.label) : Visiting _)
      else _).run.run c = _
    split
    · rfl
    · rw [run_visiting_bind, run_visit]
      rcases (typeChangeWith (m := Visiting) leniency _ og ug _ o u a).run.run
        { c with visited := (o.id, u.id, a) :: c.visited } with ⟨_ | _, _⟩ <;> rfl

/-! ## Open pairs -/

/-- There are no types inside a type without arguments and members. -/
theorem inside_eq_nil {t : TypeNode} (hargs : t.args = none) (hmembers : t.members = none) :
    t.inside = [] := by
  rw [TypeNode.inside, hargs, hmembers]
  split <;> rfl

theorem lookup_ne_none_of_mem_inside {g : TypeGraph} {i k : String} (hk : k ∈ (g.node i).inside) :
    g.lookup i ≠ none := by
  intro hnone
  rw [TypeGraph.node, hnone, Option.getD_none, inside_eq_nil rfl rfl] at hk
  exact absurd hk List.not_mem_nil

/-- Pairs of types of the two graphs that can be open at once. -/
structure Open (og ug : TypeGraph) (openPairs : List PairKey) : Prop where
  nodup : openPairs.Nodup
  known : ∀ key ∈ openPairs, key ∈ pairKeys og ug

namespace Open

variable {openPairs : List PairKey}

theorem nil : Open og ug [] := ⟨List.nodup_nil, fun _ h => absurd h List.not_mem_nil⟩

theorem length_le (h : Open og ug openPairs) : openPairs.length ≤ (pairKeys og ug).card := by
  rw [← List.toFinset_card_of_nodup h.nodup]
  exact Finset.card_le_card fun key hkey => h.known key (List.mem_toFinset.mp hkey)

/-- A pair with types inside can be opened. -/
theorem cons (h : Open og ug openPairs) {i j k l : String} {a : Bool}
    (hnot : openPairs.contains (i, j, a) = false) (hk : k ∈ (og.node i).inside)
    (hl : l ∈ (ug.node j).inside) : Open og ug ((i, j, a) :: openPairs) where
  nodup := List.nodup_cons.mpr ⟨by rwa [← Bool.not_eq_true, List.contains_iff_mem] at hnot, h.nodup⟩
  known := List.forall_mem_cons.mpr ⟨mem_pairKeys (lookup_ne_none_of_mem_inside hk)
    (lookup_ne_none_of_mem_inside hl), h.known⟩

end Open

/-! ## Comparators -/

/-- A comparator does the same as a comparison, and the pairs that it is comparing are afterwards what
they were. -/
def Transfer.alongside (openPairs : List PairKey) : Transfer Visiting Comparison where
  rel x y := ∀ memory, x.run.run ⟨memory, openPairs⟩ =
    ((y.run.run memory).1, ⟨(y.run.run memory).2, openPairs⟩)
  pure _ _ := rfl
  throw _ _ := rfl
  bind {α β x y f g} hxy hfg memory := by
    rw [run_visiting_bind, run_bind, hxy memory]
    rcases y.run.run memory with ⟨_ | a, memory'⟩
    · rfl
    · exact hfg a memory'

/-- A comparator does the same as a comparison when neither has too few levels, whatever the obstacle
is that would stop it when they are used up. -/
theorem run_visitChange (hog : og.Keyed) (hug : ug.Keyed) (depleted : Obstacle) {levels fuel : Nat}
    {openPairs : List PairKey} (hopen : Open og ug openPairs)
    (hlevels : (pairKeys og ug).card < levels + openPairs.length)
    (hfuel : (pairKeys og ug).card < fuel + openPairs.length) (i j : String) (a : Bool) :
    (Transfer.alongside openPairs).rel
      (visitChange depleted leniency og ug levels (og.node i) (ug.node j) a)
      (typeChange leniency og ug fuel openPairs (og.node i) (ug.node j) a) := by
  have hle := hopen.length_le
  induction levels generalizing fuel openPairs i j a with
  | zero => omega
  | succ levels ih =>
    obtain ⟨fuel, rfl⟩ : ∃ n, fuel = n + 1 := ⟨fuel - 1, by omega⟩
    intro memory
    rw [run_visitChange_succ, run_typeChange_succ, hog.id_node, hug.id_node]
    cases memory.known[((i, j, a) : PairKey)]? with
    | some found => rfl
    | none =>
      dsimp only
      cases hnot : openPairs.contains (i, j, a) with
      | true => rfl
      | false =>
        rw [if_neg Bool.false_ne_true, if_neg Bool.false_ne_true]
        have hinside : (Transfer.alongside ((i, j, a) :: openPairs)).rel
            (typeChangeWith leniency
              (Visiting.remember fun memory => { memory with uncheckedCustomTypes := true }) og ug
              (visitChange depleted leniency og ug levels) (og.node i) (ug.node j) a)
            (typeChangeWith leniency noteUnchecked og ug
              (typeChange leniency og ug fuel ((i, j, a) :: openPairs)) (og.node i) (ug.node j) a) :=
          Transfer.typeChangeWith _ (fun _ _ => rfl) (fun _ _ => rfl)
            (fun k hk l hl b => by
              have hopen' := hopen.cons hnot hk hl
              exact ih hopen' (by rw [List.length_cons]; omega) (by rw [List.length_cons]; omega) k l b
                hopen'.length_le)
            (fun _ => rfl) a
        rw [hinside memory]
        rcases (typeChangeWith leniency noteUnchecked og ug _ (og.node i) (ug.node j) a).run.run memory
          with ⟨_ | _, _⟩ <;> simp only [List.erase_cons_head]

/-- The number of levels of a comparison does not matter when it is not too small. -/
theorem typeChange_levels (hog : og.Keyed) (hug : ug.Keyed) {fuel fuel' : Nat}
    {openPairs : List PairKey} (hopen : Open og ug openPairs)
    (hfuel : (pairKeys og ug).card < fuel + openPairs.length)
    (hfuel' : (pairKeys og ug).card < fuel' + openPairs.length) (i j : String) (a : Bool)
    (memory : Memory) :
    (typeChange leniency og ug fuel openPairs (og.node i) (ug.node j) a).run.run memory =
      (typeChange leniency og ug fuel' openPairs (og.node i) (ug.node j) a).run.run memory := by
  let visiting : Visiting (Option TypeChange) :=
    visitChange .unaligned leniency og ug fuel (og.node i) (ug.node j) a
  have h : visiting.run.run ⟨memory, openPairs⟩ = _ :=
    run_visitChange hog hug .unaligned hopen hfuel hfuel i j a memory
  have h' : visiting.run.run ⟨memory, openPairs⟩ = _ :=
    run_visitChange hog hug .unaligned hopen hfuel hfuel' i j a memory
  obtain ⟨hfound, hafter⟩ := Prod.mk.inj (h.symm.trans h')
  exact Prod.ext hfound (congrArg Comparator.memory hafter)

end UpgradeSafety.Compare
