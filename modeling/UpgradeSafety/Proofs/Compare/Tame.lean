import UpgradeSafety.Proofs.Compare.Acyclic

/-!
# Conditions that can be checked

The conditions under which lists are compared speak of all types that a list reaches. Each of them
can be decided type by type over the whole graph: a list is *tame* when all types of its graph are
complete, and contain only types with shorter ids, and no variable declares a former name.

The length of an id serves as the rank by which types are shown not to contain themselves
(`acyclic_of_length_lt`). It is a rank that every id of the compiler has without cycles, since the
id of an array or a mapping contains those of its elements; for the members of structs it holds of
the small layouts here. What holds of all types of a graph holds of those that a list reaches
(`Joined.of_graph`), so tame lists are regular (`Tame.regular`), and their conditions are closed by
evaluation. Instances that decide completeness by the kind of a type belong here, too, since
nothing but these checks evaluates them.
-/

namespace UpgradeSafety

/-! ## Types -/

namespace TypeNode

/-- What has to be known of a complete type, by its kind. -/
theorem isComplete_iff {t : TypeNode} :
    t.IsComplete ↔
      (t.kind = .struct → (t.members.bind Members.items?).isSome) ∧
      (t.kind = .enum → (t.members.bind Members.names?).isSome) ∧
      (t.kind = .array → (t.args.bind List.head?).isSome ∧ t.length?.isSome) ∧
      (t.kind = .mapping → (t.args.bind List.getLast?).isSome) ∧
      (t.kind = .valueType → t.numberOfBytes.isSome) := by
  simp only [Option.isSome_iff_exists]
  constructor
  · intro h
    refine ⟨fun hk => ?_, fun hk => ?_, fun hk => ⟨?_, h.arrayLength hk⟩, h.mapping, h.size⟩
    · obtain ⟨m, hm⟩ := h.members (Or.inl hk)
      obtain ⟨items, hitems⟩ := h.struct hk m hm
      exact ⟨items, by rw [hm, Option.bind_some, hitems]⟩
    · obtain ⟨m, hm⟩ := h.members (Or.inr hk)
      obtain ⟨names, hnames⟩ := h.enum hk m hm
      exact ⟨names, by rw [hm, Option.bind_some, hnames]⟩
    · obtain ⟨a, rest, hargs⟩ := h.array hk
      exact ⟨a, by rw [hargs, Option.bind_some, List.head?_cons]⟩
  · rintro ⟨hstruct, henum, harray, hmapping, hsize⟩
    refine
      { struct := fun hk m hm => ?_
        enum := fun hk m hm => ?_
        array := fun hk => ?_
        mapping := hmapping
        members := ?_
        size := hsize
        arrayLength := fun hk => (harray hk).2 }
    · obtain ⟨items, hitems⟩ := hstruct hk
      rw [hm, Option.bind_some] at hitems
      exact ⟨items, hitems⟩
    · obtain ⟨names, hnames⟩ := henum hk
      rw [hm, Option.bind_some] at hnames
      exact ⟨names, hnames⟩
    · obtain ⟨⟨a, ha⟩, -⟩ := harray hk
      obtain ⟨args, hargs, ha⟩ := Option.bind_eq_some_iff.mp ha
      obtain ⟨rest, rfl⟩ := List.head?_eq_some_iff.mp ha
      exact ⟨a, rest, hargs⟩
    · rintro (hk | hk)
      · obtain ⟨_, h⟩ := hstruct hk
        obtain ⟨m, hm, -⟩ := Option.bind_eq_some_iff.mp h
        exact ⟨m, hm⟩
      · obtain ⟨_, h⟩ := henum hk
        obtain ⟨m, hm, -⟩ := Option.bind_eq_some_iff.mp h
        exact ⟨m, hm⟩

instance (t : TypeNode) : Decidable t.IsComplete := decidable_of_iff _ isComplete_iff.symm

instance (t : TypeNode) : Decidable t.Readable :=
  decidable_of_iff (t.lengthExcess? = none ∧ t.integerExcess? = none)
    ⟨fun h => ⟨h.1, h.2⟩, fun h => ⟨h.length, h.integer⟩⟩

end TypeNode

instance (v : Variable) : Decidable v.Measured :=
  decidable_of_iff
    ((∀ n ∈ v.type.fixedLength?, n ≠ 0 → v.size.fdiv (n : Nat) ≠ 0) ∧
      (∀ p ∈ v.position?, 2 * p.natAbs < Nat.pow 10 Numeral.maxDecimalDigits) ∧
      ∀ e ∈ v.end?, 2 * e.natAbs < Nat.pow 10 Numeral.maxDecimalDigits)
    ⟨fun h => ⟨fun n hn => h.1 (n + 1) hn (Nat.succ_ne_zero n), h.2.1, h.2.2⟩,
      fun h => ⟨fun n hn hne => by
        obtain ⟨k, rfl⟩ := Nat.exists_eq_succ_of_ne_zero hne
        exact h.element k hn, h.start, h.stop⟩⟩

instance (g : TypeGraph) (t : TypeNode) : Decidable (g.GapsMeasured t) :=
  inferInstanceAs (Decidable (t.kind = .struct → ∀ m ∈ t.memberItems, (g.variable m).isGap = true →
    (g.variable m).Measured))

/-! ## Lists -/

namespace Resolved

variable {types : TypeTable} {r : Resolved}

/-- What holds of all types of the graph holds of those that the list reaches. -/
theorem Joined.of_graph (h : r.Joined types) {P : String → TypeNode → Prop}
    (hgraph : ∀ p ∈ r.graph, P p.1 p.2) : ∀ i, r.Reaches i → P i (r.graph.node i) := by
  intro i hi
  obtain ⟨n, hn⟩ := Option.ne_none_iff_exists'.mp (h.lookup_ne_none hi)
  rw [TypeGraph.node_of_lookup hn]
  exact hgraph (i, n) (Compare.mem_of_lookup hn)

/-- No type contains itself when all types contain only types with shorter ids. -/
theorem acyclic_of_length_lt
    (h : ∀ i, r.Reaches i → ∀ j ∈ (r.graph.node i).inside, j.length < i.length) : r.Acyclic := by
  intro i hi hcycle
  have hlt : ∀ j, Relation.TransGen r.graph.HasInside i j → r.Reaches j ∧ j.length < i.length := by
    intro j hpath
    induction hpath with
    | single hj => exact ⟨hi.inside hj, h i hi _ hj⟩
    | tail _ hk ih =>
      have := h _ ih.1 _ hk
      exact ⟨ih.1.inside hk, by omega⟩
  exact absurd (hlt i hcycle).2 (Nat.lt_irrefl _)

/-- All types are complete and contain only types with shorter ids, and no variable declares a
former name. -/
structure Tame (r : Resolved) : Prop where
  complete : ∀ p ∈ r.graph, p.2.IsComplete
  shorter : ∀ p ∈ r.graph, ∀ j ∈ p.2.inside, j.length < p.1.length
  names : ∀ m ∈ r.items, m.renamedFrom = none
  memberNames : ∀ p ∈ r.graph, ∀ m ∈ p.2.memberItems, m.renamedFrom = none

instance (r : Resolved) : Decidable r.Tame :=
  decidable_of_iff
    ((∀ p ∈ r.graph, p.2.IsComplete) ∧
      (∀ p ∈ r.graph, ∀ j ∈ p.2.inside, j.length < p.1.length) ∧
      (∀ m ∈ r.items, m.renamedFrom = none) ∧
      ∀ p ∈ r.graph, ∀ m ∈ p.2.memberItems, m.renamedFrom = none)
    ⟨fun h => ⟨h.1, h.2.1, h.2.2.1, h.2.2.2⟩,
      fun h => ⟨h.complete, h.shorter, h.names, h.memberNames⟩⟩

theorem Tame.regular (h : r.Tame) (hjoined : r.Joined types) : r.Regular where
  acyclic := acyclic_of_length_lt (hjoined.of_graph
    (P := fun i t => ∀ j ∈ t.inside, j.length < i.length) h.shorter)
  complete := hjoined.of_graph (P := fun _ t => t.IsComplete) h.complete
  names := h.names
  memberNames i hi _ := hjoined.of_graph
    (P := fun _ t => ∀ m ∈ t.memberItems, m.renamedFrom = none) h.memberNames i hi

theorem measured_of_graph (hjoined : r.Joined types)
    (h : ∀ p ∈ r.graph, p.2.Readable ∧ r.graph.GapsMeasured p.2) : r.Measured where
  readable i hi := (hjoined.of_graph (P := fun _ t => t.Readable ∧ r.graph.GapsMeasured t) h i hi).1
  gaps i hi := (hjoined.of_graph (P := fun _ t => t.Readable ∧ r.graph.GapsMeasured t) h i hi).2

end Resolved

end UpgradeSafety
