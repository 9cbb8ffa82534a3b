import UpgradeSafety.Compare.Comparator

/-!
# Comparisons in two monads

The comparison of two types is written for every monad that an obstacle can stop. It does nothing
but return, bind and stop, so a relation between computations of two monads that these three keep
also holds between the comparisons in the two monads, when it holds between the comparisons of the
types inside (`Transfer.typeChangeWith`). The graphs may differ as long as they agree on the types
inside.

So the code of a comparison is gone through once, here, and every other module that relates two
comparisons gives a `Transfer` and has the rest: a comparison with a memory and plain recursion,
one that is stopped and one that assumes an answer, a comparator with its open pairs and a
comparison that is told of them, and two comparisons over graphs that hold the same types. What is
left to each of them is the recursion into the types inside, where memory, open pairs and levels
come in.
-/

namespace UpgradeSafety

/-- The ids of the types inside a type that a comparison looks at. -/
def TypeNode.inside (t : TypeNode) : List String :=
  match t.kind with
  | .struct => ((t.members.bind Members.items?).getD []).map (·.type)
  | .array => (t.args.bind List.head?).toList
  | .mapping => (t.args.bind List.getLast?).toList
  | _ => []

namespace Compare

/-- A relation between the computations of two monads that the steps of a comparison keep. -/
structure Transfer (m₁ m₂ : Type → Type) [Monad m₁] [Monad m₂] [MonadExceptOf Obstacle m₁]
    [MonadExceptOf Obstacle m₂] where
  rel : {α : Type} → m₁ α → m₂ α → Prop
  pure : ∀ {α : Type} (a : α), rel (Pure.pure a : m₁ α) (Pure.pure a)
  bind : ∀ {α β : Type} {x : m₁ α} {y : m₂ α} {f : α → m₁ β} {g : α → m₂ β},
    rel x y → (∀ a, rel (f a) (g a)) → rel (x >>= f) (y >>= g)
  throw : ∀ {α : Type} (e : Obstacle), rel (MonadExcept.throw e : m₁ α) (MonadExcept.throw e)

namespace Transfer

variable {m₁ m₂ : Type → Type} [Monad m₁] [Monad m₂] [MonadExceptOf Obstacle m₁]
  [MonadExceptOf Obstacle m₂] (T : Transfer m₁ m₂)

theorem lift {α : Type} (x : Except Obstacle α) :
    T.rel (liftObstacle x : m₁ α) (liftObstacle x) := by
  cases x with
  | ok a => exact T.pure a
  | error e => exact T.throw e

theorem mapM [LawfulMonad m₁] [LawfulMonad m₂] {α β : Type} {f : α → m₁ β} {g : α → m₂ β}
    {l : List α} (h : ∀ a ∈ l, T.rel (f a) (g a)) : T.rel (l.mapM f) (l.mapM g) := by
  induction l with
  | nil => exact T.pure []
  | cons a l ih =>
    rw [List.mapM_cons, List.mapM_cons]
    refine T.bind (h a List.mem_cons_self) (fun b => ?_)
    refine T.bind (ih fun a' ha' => h a' (List.mem_cons_of_mem a ha')) (fun bs => ?_)
    exact T.pure (b :: bs)

/-! ## Lists of variables -/

theorem variableChange {x : m₁ (Option TypeChange)} {y : m₂ (Option TypeChange)} (h : T.rel x y)
    (siblings : List Variable) (i : Nat) (o u : Variable) :
    T.rel (Compare.variableChange x siblings i o u) (Compare.variableChange y siblings i o u) := by
  unfold Compare.variableChange
  split
  · split
    · exact T.pure none
    · exact T.pure _
  · split
    · exact T.pure _
    · exact T.bind h (fun type => T.pure _)

theorem checkedChange {inner₁ : CompareTypes m₁} {inner₂ : CompareTypes m₂} {o u : TypeNode}
    {a : Bool} (h : T.rel (inner₁ o u a) (inner₂ o u a)) :
    T.rel (Compare.checkedChange inner₁ o u a) (Compare.checkedChange inner₂ o u a) := by
  unfold Compare.checkedChange
  refine T.bind h (fun found => ?_)
  split
  · exact T.bind (T.lift _) (fun _ => T.bind (T.lift _) (fun _ => T.pure found))
  · exact T.pure found

theorem differences [LawfulMonad m₁] [LawfulMonad m₂] {tc₁ : CompareTypes m₁} {tc₂ : CompareTypes m₂} {former updated : List Variable}
    {a : Bool} (h : ∀ o ∈ former, ∀ u ∈ updated, ∀ a, T.rel (tc₁ o.type u.type a)
      (tc₂ o.type u.type a)) :
    T.rel (Compare.differences tc₁ former updated a) (Compare.differences tc₂ former updated a) := by
  unfold Compare.differences
  refine T.mapM (fun oi hoi => T.mapM (fun u hu => ?_))
  exact T.variableChange (h oi.1 (List.fst_mem_of_mem_zipIdx hoi) u hu _) former oi.2 oi.1 u

theorem listChanges [LawfulMonad m₁] [LawfulMonad m₂] {tc₁ : CompareTypes m₁} {tc₂ : CompareTypes m₂} {former updated : List Variable}
    (strictRenames a : Bool) (h : ∀ o ∈ former, ∀ u ∈ updated, ∀ a, T.rel (tc₁ o.type u.type a)
      (tc₂ o.type u.type a)) :
    T.rel (Compare.listChanges strictRenames tc₁ former updated a)
      (Compare.listChanges strictRenames tc₂ former updated a) := by
  unfold Compare.listChanges
  refine T.bind (T.lift _) (fun _ => T.bind (T.differences fun o ho u hu a => ?_) (fun _ => ?_))
  · exact T.checkedChange (h o ho u hu a)
  · exact T.lift _

/-! ## Types -/

section Types

variable {leniency : Leniency} {overlook₁ : m₁ Unit} {overlook₂ : m₂ Unit}
  {og₁ ug₁ og₂ ug₂ : TypeGraph} {inner₁ : CompareTypes m₁} {inner₂ : CompareTypes m₂}
  {o u : TypeNode}

theorem unknownMembers (hov : T.rel overlook₁ overlook₂) :
    T.rel (Compare.unknownMembers leniency overlook₁ o u)
      (Compare.unknownMembers leniency overlook₂ o u) := by
  unfold Compare.unknownMembers
  split
  · exact T.bind hov (fun _ => T.pure none)
  · exact T.pure _

theorem enumChange (hov : T.rel overlook₁ overlook₂) :
    T.rel (Compare.enumChange leniency overlook₁ o u)
      (Compare.enumChange leniency overlook₂ o u) := by
  unfold Compare.enumChange
  split
  · split
    · split
      · exact T.pure _
      · dsimp only
        split
        · exact T.throw _
        · split <;> exact T.pure _
    · exact T.throw _
  · exact T.unknownMembers hov

variable (ho : ∀ i ∈ o.inside, og₁.node i = og₂.node i)
  (hu : ∀ i ∈ u.inside, ug₁.node i = ug₂.node i)
  (h : ∀ i ∈ o.inside, ∀ j ∈ u.inside, ∀ a,
    T.rel (inner₁ (og₁.node i) (ug₁.node j) a) (inner₂ (og₁.node i) (ug₁.node j) a))
include ho hu h

theorem structChange [LawfulMonad m₁] [LawfulMonad m₂]
    (hov : T.rel overlook₁ overlook₂) (a : Bool) (hok : o.kind = .struct) (huk : u.kind = .struct) :
    T.rel (Compare.structChange leniency overlook₁ og₁ ug₁ inner₁ o u a)
      (Compare.structChange leniency overlook₂ og₂ ug₂ inner₂ o u a) := by
  unfold Compare.structChange
  split
  · rename_i om um hom hum
    split
    · rename_i os us hos hus
      have hoi : o.inside = os.map (·.type) := by simp [TypeNode.inside, hok, hom, hos]
      have hui : u.inside = us.map (·.type) := by simp [TypeNode.inside, huk, hum, hus]
      have hov' : os.map og₂.variable = os.map og₁.variable :=
        List.map_congr_left fun i hi => by
          rw [TypeGraph.variable, TypeGraph.variable, ho i.type (hoi ▸ List.mem_map_of_mem hi)]
      have huv' : us.map ug₂.variable = us.map ug₁.variable :=
        List.map_congr_left fun i hi => by
          rw [TypeGraph.variable, TypeGraph.variable, hu i.type (hui ▸ List.mem_map_of_mem hi)]
      rw [hov', huv']
      refine T.bind (T.listChanges _ _ fun v hv w hw a => ?_) (fun ops => ?_)
      · obtain ⟨i, hi, rfl⟩ := List.mem_map.mp hv
        obtain ⟨j, hj, rfl⟩ := List.mem_map.mp hw
        exact h i.type (hoi ▸ List.mem_map_of_mem hi) j.type (hui ▸ List.mem_map_of_mem hj) a
      · split <;> exact T.pure _
    · exact T.throw _
  · exact T.unknownMembers hov

theorem mappingChange {oArgs uArgs : List String} (hok : o.kind = .mapping)
    (huk : u.kind = .mapping) (hoArgs : o.args = some oArgs) (huArgs : u.args = some uArgs) :
    T.rel (Compare.mappingChange og₁ ug₁ inner₁ o u oArgs uArgs)
      (Compare.mappingChange og₂ ug₂ inner₂ o u oArgs uArgs) := by
  unfold Compare.mappingChange
  split
  · rename_i i j hi hj
    have hoi : i ∈ o.inside := by simp [TypeNode.inside, hok, hoArgs, hi]
    have huj : j ∈ u.inside := by simp [TypeNode.inside, huk, huArgs, hj]
    rw [← ho i hoi, ← hu j huj]
    exact T.bind (h i hoi j huj true) (fun _ => T.pure _)
  · exact T.throw _

theorem elementChange {oArgs uArgs : List String} (hok : o.kind = .array) (huk : u.kind = .array)
    (hoArgs : o.args = some oArgs) (huArgs : u.args = some uArgs) :
    T.rel (Compare.elementChange og₁ ug₁ inner₁ o u oArgs uArgs)
      (Compare.elementChange og₂ ug₂ inner₂ o u oArgs uArgs) := by
  unfold Compare.elementChange
  split
  · rename_i i _ j _
    have hoi : i ∈ o.inside := by simp [TypeNode.inside, hok, hoArgs]
    have huj : j ∈ u.inside := by simp [TypeNode.inside, huk, huArgs]
    rw [← ho i hoi, ← hu j huj]
    exact T.bind (h i hoi j huj false) (fun _ => T.pure _)
  · exact T.throw _

theorem arrayChange {oArgs uArgs : List String} (a : Bool) (hok : o.kind = .array)
    (huk : u.kind = .array) (hoArgs : o.args = some oArgs) (huArgs : u.args = some uArgs) :
    T.rel (Compare.arrayChange og₁ ug₁ inner₁ o u oArgs uArgs a)
      (Compare.arrayChange og₂ ug₂ inner₂ o u oArgs uArgs a) := by
  unfold Compare.arrayChange
  have helement := T.elementChange ho hu h hok huk hoArgs huArgs
  refine T.bind (T.lift _) (fun _ => T.bind (T.lift _) (fun _ => ?_))
  split
  · exact T.pure _
  · exact T.pure _
  · exact helement
  · split
    · exact T.pure _
    · split
      · exact T.pure _
      · exact helement
  · exact T.pure _

/-- The comparisons of two types are related when those of the types inside are. -/
theorem typeChangeWith [LawfulMonad m₁] [LawfulMonad m₂]
    (hov : T.rel overlook₁ overlook₂) (a : Bool) :
    T.rel (Compare.typeChangeWith leniency overlook₁ og₁ ug₁ inner₁ o u a)
      (Compare.typeChangeWith leniency overlook₂ og₂ ug₂ inner₂ o u a) := by
  unfold Compare.typeChangeWith
  split
  · exact T.pure _
  · rename_i hhead
    have hkind : u.kind = o.kind := by
      rw [TypeNode.kind, TypeNode.kind, Decidable.not_not.mp hhead]
    split
    · rename_i oArgs uArgs hoArgs huArgs
      split
      · exact T.pure none
      · exact T.pure _
      · rename_i hstruct
        exact T.structChange ho hu h hov a hstruct (hkind.trans hstruct)
      · exact T.enumChange hov
      · rename_i hmapping
        exact T.mappingChange ho hu h hmapping (hkind.trans hmapping) hoArgs huArgs
      · rename_i harray
        exact T.arrayChange ho hu h a harray (hkind.trans harray) hoArgs huArgs
      · split <;> exact T.pure _
    · exact T.pure _
    · exact T.pure _
    · exact T.pure none

end Types

end Transfer

end Compare

end UpgradeSafety
