import UpgradeSafety.Proofs.Json.Equivalence
import UpgradeSafety.Proofs.Syntax.Spots

/-!
# Lookups by id

A lookup takes the node that is remembered for its id or searches the trees
(`run_lookUp_eq_ok_iff`). Lookups of nodes of the same types do not change each other
(`finds_lookUp`).

In trees in which no two nodes have the same id (`UniqueIds`), what a lookup gives does not depend
on the lookups before it. So every reading that looks up nodes gives the same result in whatever
order it is run with others (`Determined`).

What is remembered under an id may have been looked up as a node of other types, so without unique
ids an earlier lookup could decide what a later one finds. With them an id has one answer
(`Answers.eq`), and what was remembered are answers (`Nodes.Sound`). Ids are compared as values
are, so that a whole float counts as the integer. Results alone are told of (`Gives`), and nothing
of readings that fail.
-/

namespace UpgradeSafety.Syntax

open Json (same_symm same_trans eq_null_of_same)

/-! ## Ids -/

/-- The objects of some trees. -/
def objects (trees : List Json) : List Json := (trees.flatMap (spots [])).map (·.node)

/-- Whether a value is a node with an id. -/
def hasId (v : Json) : Bool := isNode v && v.field "id" != .null

/-- No two nodes of some trees have the same id. -/
def UniqueIds (trees : List Json) : Prop :=
  ((objects trees).filter hasId).Pairwise fun n m => (n.field "id").same (m.field "id") = false

instance (trees : List Json) : Decidable (UniqueIds trees) :=
  inferInstanceAs (Decidable (List.Pairwise _ _))

variable {trees : List Json} {wanted : List String} {id id' n n' : Json}

theorem isTidy_of_hashable {v : Json} (h : v.hashable = true) : v.IsTidy := by
  cases v with
  | null | bool _ | int _ | float _ | str _ => trivial
  | arr _ | obj _ => cases h

theorem hashable_of_same (hid : id.hashable = true) (h : n.same id = true) : n.hashable = true := by
  cases n with
  | null | bool _ | int _ | float _ | str _ => rfl
  | arr items =>
    obtain ⟨_, rfl⟩ := Json.exists_arr_of_same h
    cases hid
  | obj fields =>
    obtain ⟨_, rfl⟩ := Json.exists_obj_of_same h
    cases hid

theorem hashable_symm (hn : n.hashable = true) (hid : id.hashable = true) (h : n.same id = true) :
    id.same n = true := same_symm (isTidy_of_hashable hn) (isTidy_of_hashable hid) h

theorem same_of_same (hid : id.hashable = true) (h : n.same id = true) (h' : n'.same id = true) :
    n.same n' = true :=
  same_trans h (hashable_symm (hashable_of_same hid h') hid h')

/-- Of values with different ids only one has a given id. -/
theorem eq_of_pairwise_differ {α : Type} {l : List α} {f : α → Json} {a b : α}
    (h : l.Pairwise fun a b => (f a).same (f b) = false) (hid : id.hashable = true) (ha : a ∈ l)
    (hsame : (f a).same id = true) (hb : b ∈ l) (hsame' : (f b).same id = true) : b = a := by
  have hto := same_of_same hid hsame hsame'
  have hfrom := same_of_same hid hsame' hsame
  by_contra hne
  let Differ (a b : α) : Prop := (f a).same (f b) = false ∨ (f b).same (f a) = false
  have hdiffer : l.Pairwise Differ := h.imp Or.inl
  have : Std.Symm Differ := ⟨fun _ _ => Or.symm⟩
  rcases hdiffer.forall hb ha hne with hfalse | hfalse
  · rw [hfrom] at hfalse
    cases hfalse
  · rw [hto] at hfalse
    cases hfalse

/-- Nodes of one id are the same. -/
theorem UniqueIds.eq (h : UniqueIds trees) (hid : id.hashable = true)
    (hn : n ∈ (objects trees).filter hasId) (hsame : (n.field "id").same id = true)
    (hn' : n' ∈ (objects trees).filter hasId) (hsame' : (n'.field "id").same id = true) : n' = n :=
  eq_of_pairwise_differ h hid hn hsame hn' hsame'

/-! ## Searches -/

theorem objects_append (trees trees' : List Json) :
    objects (trees ++ trees') = objects trees ++ objects trees' := by
  unfold objects
  rw [List.flatMap_append, List.map_append]

theorem objects_cons (v : Json) (rest : List Json) :
    objects (v :: rest) = (spots [] v).map (·.node) ++ objects rest := by
  unfold objects
  rw [List.flatMap_cons, List.map_append]

theorem objects_cons_obj (fields : Fields) (rest : List Json) : objects (.obj fields :: rest) =
    .obj fields :: objects (fieldValues fields ++ rest) := by
  have hinside : ((fieldValues fields).flatMap (spots (enclosing [] (.obj fields)))).map (·.node) =
      objects (fieldValues fields) := by
    unfold objects
    rw [List.map_flatMap, List.map_flatMap]
    exact List.flatMap_congr fun v _ => map_node_spots _ _ v
  rw [objects_cons, objects_append, spots_obj, List.map_cons, hinside, List.cons_append]

theorem objects_cons_arr (items rest : List Json) :
    objects (.arr items :: rest) = objects (items ++ rest) := by
  rw [objects_cons, objects_append, spots_arr]
  rfl

/-- The objects of an object of a tree are objects of the tree. -/
theorem objects_of_mem_spots {v : Json} {around : List Json} {x : Spot} (hx : x ∈ spots around v) :
    (spots [] x.node).map (·.node) ⊆ (spots around v).map (·.node) := by
  induction v using Json.induct generalizing around with
  | arr items ih =>
    rw [spots_arr] at hx ⊢
    obtain ⟨w, hw, hx⟩ := List.mem_flatMap.mp hx
    exact List.Subset.trans (ih w hw hx) (List.map_subset _ (fun _ => List.mem_flatMap_of_mem hw))
  | obj fields ih =>
    rw [spots_obj] at hx
    rcases List.mem_cons.mp hx with rfl | hx
    · rw [map_node_spots [] around]
      exact List.Subset.refl _
    · obtain ⟨w, hw, hx⟩ := List.mem_flatMap.mp hx
      obtain ⟨f, hf, rfl⟩ := List.mem_map.mp hw
      rw [spots_obj]
      refine List.Subset.trans (ih f hf hx) (List.map_subset _ ?_)
      exact List.Subset.trans (fun _ => List.mem_flatMap_of_mem hw) (List.subset_cons_self _ _)
  | null | bool _ | int _ | float _ | str _ => cases hx

theorem objects_of_mem_objects (hn : n ∈ objects trees) :
    objects [n] ⊆ objects trees := by
  obtain ⟨x, hx, rfl⟩ := List.mem_map.mp hn
  obtain ⟨v, hv, hx⟩ := List.mem_flatMap.mp hx
  rw [objects_cons]
  refine List.append_subset.mpr ⟨?_, fun _ h => absurd h List.not_mem_nil⟩
  exact List.Subset.trans (objects_of_mem_spots hx) (List.map_subset _ (fun _ => List.mem_flatMap_of_mem hv))

/-- There are no more objects in trees than values. -/
theorem length_objects_le (trees : List Json) : (objects trees).length ≤ weightItems trees := by
  have hitems (items : List Json) (around : List Json)
      (h : ∀ v ∈ items, (spots around v).length ≤ weight v) :
      (items.flatMap (spots around)).length ≤ weightItems items := by
    induction items with
    | nil => exact Nat.le_refl 0
    | cons v items ih =>
      rw [List.forall_mem_cons] at h
      rw [List.flatMap_cons, List.length_append, weightItems]
      exact Nat.add_le_add h.1 (ih h.2)
  have hspots (v : Json) : ∀ around, (spots around v).length ≤ weight v := by
    induction v using Json.induct with
    | arr items ih =>
      intro around
      have hinside := hitems items around fun v hv => ih v hv around
      rw [spots_arr, weight]
      omega
    | obj fields ih =>
      intro around
      have hinside := hitems (fieldValues fields) (enclosing around (.obj fields)) fun v hv => by
        obtain ⟨f, hf, rfl⟩ := List.mem_map.mp hv
        exact ih f hf _
      rw [spots_obj, weight, List.length_cons, ← weightItems_fieldValues]
      omega
    | null | bool _ | int _ | float _ | str _ => exact fun _ => Nat.zero_le _
  rw [objects, List.length_map]
  exact hitems trees [] fun v _ => hspots v []

/-- What a walk finds was found before or is an object of the trees to walk over. -/
theorem mem_nodes_walk {visit : Visitor} {found pending : List Json}
    (h : n ∈ (walk visit found pending).nodes) :
    n ∈ found ∨ n ∈ objects pending ∧ visit n = .ok (.descend true) := by
  induction found, pending using walk.induct visit with
  | case1 found =>
    rw [walk, List.mem_reverse] at h
    exact Or.inl h
  | case2 found fields rest e hvisit =>
    rw [walk, hvisit, List.mem_reverse] at h
    exact Or.inl h
  | case3 found fields rest hvisit ih =>
    rw [walk, hvisit] at h
    refine (ih h).imp_right (And.imp_left fun hn => ?_)
    rw [objects_cons]
    exact List.mem_append_right _ hn
  | case4 found fields rest isFound hvisit ih =>
    rw [walk, hvisit] at h
    rw [objects_cons_obj]
    rcases ih h with hn | ⟨hn, hfound⟩
    · cases isFound with
      | false => exact Or.inl hn
      | true =>
        rcases List.mem_cons.mp hn with rfl | hn
        · exact Or.inr ⟨List.mem_cons_self, hvisit⟩
        · exact Or.inl hn
    · exact Or.inr ⟨List.mem_cons_of_mem _ hn, hfound⟩
  | case5 found items rest ih =>
    rw [walk] at h
    rw [objects_cons_arr]
    exact ih h
  | case6 found head rest hobj harr ih =>
    rw [walk] at h
    · refine (ih h).imp_right (And.imp_left fun hn => ?_)
      rw [objects_cons]
      exact List.mem_append_right _ hn
    · exact hobj
    · exact harr

theorem hasType_of_visitor (h : visitor wanted none n = .ok (.descend true)) :
    hasType wanted n = true := by
  unfold visitor at h
  obtain ⟨type, htype, h⟩ := bind_eq_ok_iff.mp h
  dsimp only at h
  rw [pure_bind, if_neg Bool.false_ne_true] at h
  split at h
  · cases h
  · cases n with
    | obj fields =>
      cases htype
      exact (Visit.descend.inj (Except.ok.inj h))
    | null | bool _ | int _ | float _ | str _ | arr _ => cases htype

/-- What a search finds is an object of one of the wanted types. -/
theorem mem_nodes_search {tree : Json} (h : n ∈ (search wanted tree).nodes) :
    n ∈ objects [tree] ∧ hasType wanted n = true := by
  rcases mem_nodes_walk h with hn | ⟨hn, hfound⟩
  · cases hn
  · exact ⟨hn, hasType_of_visitor hfound⟩

theorem findNode_eq_ok (h : findNode wanted id trees = .ok n) :
    n ∈ objects trees ∧ hasType wanted n = true ∧ (n.field "id").same id = true := by
  induction trees with
  | nil => cases h
  | cons tree rest ih =>
    unfold findNode at h
    dsimp only at h
    rw [objects_cons]
    split at h
    · rename_i found hfound
      cases h
      obtain ⟨hn, htype⟩ := mem_nodes_search (List.mem_of_find?_eq_some hfound)
      rw [objects_cons] at hn
      exact ⟨List.mem_append_left _ (by simpa [objects] using hn), htype,
        List.find?_some (p := fun node : Json => (node.field "id").same id) hfound⟩
    · split at h
      · cases h
      · obtain ⟨hn, hfound⟩ := ih h
        exact ⟨List.mem_append_right _ hn, hfound⟩

/-- What has a type is a node. -/
theorem isNode_of_hasType (hwanted : "" ∉ wanted) (h : hasType wanted n = true) :
    isNode n = true := by
  obtain ⟨w, hw, htype⟩ := List.any_eq_true.mp h
  have htext : (n.field "nodeType").text? = some w := beq_iff_eq.mp htype
  have hne : w ≠ "" := fun hempty => hwanted (hempty ▸ hw)
  unfold isNode
  cases hfield : n.field "nodeType" with
  | str s =>
    rw [hfield] at htext
    cases htext
    simpa [Json.truthy] using hne
  | null | bool _ | int _ | float _ | arr _ | obj _ =>
    rw [hfield] at htext
    cases htext

/-! ## Lookups -/

/-- A node is what a lookup by an id gives. Without an id only contracts are looked up. -/
structure Answers (trees : List Json) (id node : Json) : Prop where
  hashable : id.hashable = true
  named : id ≠ .null → node ∈ (objects trees).filter hasId ∧ (node.field "id").same id = true
  unnamed : id = .null → findNode ["ContractDefinition"] .null trees = .ok node

/-- What was looked up so far are answers. -/
structure Nodes.Sound (trees : List Json) (nodes : Nodes) : Prop where
  trees_eq : nodes.trees = trees
  known : ∀ e ∈ nodes.known, Answers trees e.1 e.2

theorem eq_null_of_same_null (hid : id.hashable = true) (h : id.same .null = true) : id = .null :=
  eq_null_of_same (hashable_symm hid rfl h)

theorem Answers.of_same (h : Answers trees id n) (hid' : id'.hashable = true)
    (hsame : id.same id' = true) : Answers trees id' n := by
  refine ⟨hid', fun hne => ?_, fun heq => ?_⟩
  · have hnull : id ≠ .null := by
      rintro rfl
      exact hne (eq_null_of_same hsame)
    exact ⟨(h.named hnull).1, same_trans (h.named hnull).2 hsame⟩
  · subst heq
    exact h.unnamed (eq_null_of_same_null h.hashable hsame)

/-- An id has one answer. -/
theorem Answers.eq (hunique : UniqueIds trees) (h : Answers trees id n) (h' : Answers trees id n') :
    n' = n := by
  by_cases hnull : id = .null
  · have hsame := (h.unnamed hnull).symm.trans (h'.unnamed hnull)
    cases hsame
    rfl
  · exact hunique.eq h.hashable (h.named hnull).1 (h.named hnull).2 (h'.named hnull).1
      (h'.named hnull).2

theorem Answers.of_findNode (hid : id.hashable = true) (hwanted : "" ∉ wanted)
    (hnull : id = .null → wanted = ["ContractDefinition"]) (h : findNode wanted id trees = .ok n) :
    Answers trees id n := by
  refine ⟨hid, fun hne => ?_, fun heq => ?_⟩
  · obtain ⟨hn, htype, hsame⟩ := findNode_eq_ok h
    refine ⟨List.mem_filter.mpr ⟨hn, Bool.and_eq_true_iff.mpr
      ⟨isNode_of_hasType hwanted htype, bne_iff_ne.mpr fun hfield => ?_⟩⟩, hsame⟩
    rw [hfield] at hsame
    exact hne (eq_null_of_same hsame)
  · rw [← hnull heq, ← heq]
    exact h

/-- The node that is remembered for a lookup. -/
def Nodes.hit? (s : Nodes) (wanted : List String) (id : Json) : Option Json :=
  ((s.known.find? fun e => e.1.same id).filter fun e => hasType wanted e.2).map (·.2)

/-- A lookup takes the node that is remembered, or searches the trees and remembers what it finds. -/
theorem run_lookUp_eq_ok_iff {s s' : Nodes} :
    (lookUp wanted id).run s = .ok (n, s') ↔ id.hashable = true ∧
      (s.hit? wanted id = some n ∧ s' = s ∨
        s.hit? wanted id = none ∧ findNode wanted id s.trees = .ok n ∧
          s' = { s with known := (id, n) :: s.known }) := by
  unfold lookUp
  rw [StateT.run_bind, show (get : Reading Nodes).run s = .ok (s, s) from rfl, ok_bind]
  dsimp only
  cases hid : id.hashable with
  | false =>
    rw [Bool.not_false, if_pos rfl]
    exact ⟨nofun, fun h => absurd h.1 Bool.false_ne_true⟩
  | true =>
    rw [Bool.not_true, if_neg Bool.false_ne_true, Nodes.hit?]
    split
    · rename_i k node hknown
      rw [hknown]
      change (Except.ok (node, s) : Except Failure _) = .ok (n, s') ↔ _
      simp [eq_comm]
    · rename_i hknown
      rw [hknown]
      cases findNode wanted id s.trees with
      | error e =>
        change (Except.error e : Except Failure _) = .ok (n, s') ↔ _
        simp
      | ok node =>
        change (Except.ok (node, { s with known := (id, node) :: s.known }) : Except Failure _) =
          .ok (n, s') ↔ _
        simp only [Except.ok.injEq, Prod.mk.injEq, Option.map_none, reduceCtorEq, false_and, true_and,
          false_or]
        constructor
        · rintro ⟨rfl, rfl⟩
          exact ⟨rfl, rfl⟩
        · rintro ⟨rfl, rfl⟩
          exact ⟨rfl, rfl⟩

/-- A lookup gives the answer for its id, and remembers answers only. -/
theorem answers_lookUp {s s' : Nodes} (hs : s.Sound trees) (hwanted : "" ∉ wanted)
    (hnull : id = .null → wanted = ["ContractDefinition"])
    (h : (lookUp wanted id).run s = .ok (n, s')) : Answers trees id n ∧ s'.Sound trees := by
  obtain ⟨hid, ⟨hhit, rfl⟩ | ⟨-, hfind, rfl⟩⟩ := run_lookUp_eq_ok_iff.mp h
  · obtain ⟨e, he, rfl⟩ := Option.map_eq_some_iff.mp hhit
    obtain ⟨hentry, -⟩ := Option.filter_eq_some_iff.mp he
    have hsame := List.find?_some (p := fun e : Json × Json => e.1.same id) hentry
    exact ⟨(hs.known e (List.mem_of_find?_eq_some hentry)).of_same hid hsame, hs⟩
  · rw [hs.trees_eq] at hfind
    have hanswer := Answers.of_findNode hid hwanted hnull hfind
    exact ⟨hanswer, hs.trees_eq, List.forall_mem_cons.mpr ⟨hanswer, hs.known⟩⟩

/-- The type of what a lookup finds is a wanted one. -/
theorem hasType_lookUp {s s' : Nodes} (h : (lookUp wanted id).run s = .ok (n, s')) :
    hasType wanted n = true := by
  obtain ⟨-, ⟨hhit, -⟩ | ⟨-, hfind, -⟩⟩ := run_lookUp_eq_ok_iff.mp h
  · obtain ⟨e, he, rfl⟩ := Option.map_eq_some_iff.mp hhit
    exact (Option.filter_eq_some_iff.mp he).2
  · exact (findNode_eq_ok hfind).2.1

/-! ## Looking up again -/

/-- A lookup finds a node. -/
def Finds (s : Nodes) (wanted : List String) (id n : Json) : Prop :=
  ∃ s', (lookUp wanted id).run s = .ok (n, s')

theorem finds_iff {s : Nodes} : Finds s wanted id n ↔ id.hashable = true ∧
    (s.hit? wanted id = some n ∨ s.hit? wanted id = none ∧ findNode wanted id s.trees = .ok n) := by
  unfold Finds
  simp only [run_lookUp_eq_ok_iff]
  constructor
  · rintro ⟨s', hid, ⟨hhit, -⟩ | ⟨hhit, hfind, -⟩⟩
    · exact ⟨hid, Or.inl hhit⟩
    · exact ⟨hid, Or.inr ⟨hhit, hfind⟩⟩
  · rintro ⟨hid, hhit | ⟨hhit, hfind⟩⟩
    · exact ⟨s, hid, Or.inl ⟨hhit, rfl⟩⟩
    · exact ⟨_, hid, Or.inr ⟨hhit, hfind, rfl⟩⟩

/-- Nothing tells two ids that mean the same apart. -/
theorem same_eq_of_same (hid : id.hashable = true) (hid' : id'.hashable = true)
    (h : id.same id' = true) (k : Json) : k.same id' = k.same id := by
  rw [Bool.eq_iff_iff]
  exact ⟨fun hk => Json.same_trans hk (hashable_symm hid hid' h), fun hk => Json.same_trans hk h⟩

theorem findNode_of_same (hid : id.hashable = true) (hid' : id'.hashable = true)
    (h : id.same id' = true) (hfind : findNode wanted id trees = .ok n) :
    findNode wanted id' trees = .ok n := by
  induction trees with
  | nil => cases hfind
  | cons tree rest ih =>
    unfold findNode at hfind ⊢
    dsimp only at hfind ⊢
    simp only [same_eq_of_same hid hid' h]
    split at hfind
    · exact hfind
    · split at hfind
      · cases hfind
      · exact ih hfind

/-- A lookup changes nothing about other lookups of nodes of the same types. -/
theorem finds_lookUp {s s' : Nodes} {m : Json} (h : (lookUp wanted id).run s = .ok (n, s')) :
    Finds s' wanted id' m ↔ Finds s wanted id' m := by
  obtain ⟨hid, ⟨-, rfl⟩ | ⟨hhit, hfind, rfl⟩⟩ := run_lookUp_eq_ok_iff.mp h
  · exact Iff.rfl
  · rw [finds_iff, finds_iff]
    refine and_congr_right fun hid' => ?_
    -- what is newly remembered answers the ids that mean the same, and the trees would answer them alike
    cases hsame : id.same id' with
    | false =>
      have hkept : Nodes.hit? { s with known := (id, n) :: s.known } wanted id' =
          s.hit? wanted id' := by
        simp [Nodes.hit?, hsame]
      rw [hkept]
    | true =>
      have hnew : Nodes.hit? { s with known := (id, n) :: s.known } wanted id' = some n := by
        simp [Nodes.hit?, hsame, (findNode_eq_ok hfind).2.1]
      have hold : s.hit? wanted id' = none := by
        rw [← hhit, Nodes.hit?, Nodes.hit?]
        simp only [same_eq_of_same hid hid' hsame]
      rw [hnew, hold, findNode_of_same hid hid' hsame hfind]
      simp [eq_comm]

/-! ## Determined readings -/

/-- A reading has one result, whatever was looked up before. -/
def Determined {α : Type} (trees : List Json) (x : Reading α) : Prop :=
  ∀ s a s', s.Sound trees → x.run s = .ok (a, s') → s'.Sound trees ∧
    ∀ t b t', t.Sound trees → x.run t = .ok (b, t') → b = a

namespace Determined

variable {α β : Type}

theorem pure (a : α) : Determined trees (Pure.pure a : Reading α) := by
  intro s b s' hs h
  cases h
  refine ⟨hs, fun t c t' _ h' => ?_⟩
  cases h'
  rfl

theorem throw (e : Failure) : Determined trees (MonadExcept.throw e : Reading α) := nofun

theorem lift (x : Except Failure α) : Determined trees (liftM x : Reading α) := by
  intro s a s' hs h
  cases x with
  | error e => cases h
  | ok b =>
    cases h
    refine ⟨hs, fun t c t' _ h' => ?_⟩
    cases h'
    rfl

theorem bind {x : Reading α} {f : α → Reading β} (hx : Determined trees x)
    (hf : ∀ a, Determined trees (f a)) : Determined trees (x >>= f) := by
  intro s b s' hs h
  rw [StateT.run_bind] at h
  obtain ⟨⟨a, s₁⟩, ha, hb⟩ := bind_eq_ok_iff.mp h
  obtain ⟨hs₁, hxs⟩ := hx s a s₁ hs ha
  obtain ⟨hs', hfs⟩ := hf a s₁ b s' hs₁ hb
  refine ⟨hs', fun t c t' ht h' => ?_⟩
  rw [StateT.run_bind] at h'
  obtain ⟨⟨a', t₁⟩, ha', hc⟩ := bind_eq_ok_iff.mp h'
  obtain rfl := hxs t a' t₁ ht ha'
  exact hfs t₁ c t' (hx t a' t₁ ht ha').1 hc

/-- The trees are always the same. -/
theorem withTrees {f : List Json → Reading β} (h : ∀ ts, Determined trees (f ts)) :
    Determined trees (do f (← get).trees) := by
  intro s b s' hs hrun
  have hrun : (f s.trees).run s = .ok (b, s') := hrun
  rw [hs.trees_eq] at hrun
  obtain ⟨hs', hone⟩ := h trees s b s' hs hrun
  refine ⟨hs', fun t c t' ht hrun' => ?_⟩
  have hrun' : (f t.trees).run t = .ok (c, t') := hrun'
  rw [ht.trees_eq] at hrun'
  exact hone t c t' ht hrun'

theorem foldlM {f : β → α → Reading β} (h : ∀ b a, Determined trees (f b a)) (l : List α) (b : β) :
    Determined trees (l.foldlM f b) := by
  induction l generalizing b with
  | nil => exact pure b
  | cons a l ih =>
    rw [List.foldlM_cons]
    exact bind (h b a) ih

theorem mapM {f : α → Reading β} (h : ∀ a, Determined trees (f a)) (l : List α) :
    Determined trees (l.mapM f) := by
  induction l with
  | nil => exact pure []
  | cons a l ih =>
    rw [List.mapM_cons]
    exact bind (h a) fun b => bind ih fun bs => pure (b :: bs)

theorem filterMapM {f : α → Reading (Option β)} (h : ∀ a, Determined trees (f a)) (l : List α) :
    Determined trees (l.filterMapM f) := by
  induction l with
  | nil => exact pure []
  | cons a l ih =>
    rw [List.filterMapM_cons]
    refine bind (h a) fun b => ?_
    cases b with
    | none => exact ih
    | some b => exact bind ih fun bs => pure (b :: bs)

end Determined

theorem determined_lookUp (hunique : UniqueIds trees) (hwanted : "" ∉ wanted)
    (hnull : id = .null → wanted = ["ContractDefinition"]) : Determined trees (lookUp wanted id) := by
  intro s a s' hs h
  obtain ⟨hanswer, hs'⟩ := answers_lookUp hs hwanted hnull h
  exact ⟨hs', fun t b t' ht h' => hanswer.eq hunique (answers_lookUp ht hwanted hnull h').1⟩

/-! ## Results -/

/-- A reading has a result. -/
def Gives {α : Type} (trees : List Json) (x : Reading α) (a : α) : Prop :=
  ∃ s s', s.Sound trees ∧ x.run s = .ok (a, s')

namespace Gives

variable {α β : Type}

theorem eq {x : Reading α} {a b : α} (hx : Determined trees x) (ha : Gives trees x a)
    (hb : Gives trees x b) : b = a := by
  obtain ⟨s, s', hs, ha⟩ := ha
  obtain ⟨t, t', ht, hb⟩ := hb
  exact (hx s a s' hs ha).2 t b t' ht hb

theorem of_pure {a b : α} (h : Gives trees (pure a : Reading α) b) : b = a := by
  obtain ⟨s, s', hs, h⟩ := h
  cases h
  rfl

theorem not_throw {e : Failure} {a : α} : ¬ Gives trees (throw e : Reading α) a := by
  rintro ⟨s, s', hs, h⟩
  cases h

theorem of_lift {x : Except Failure α} {a : α} (h : Gives trees (liftM x : Reading α) a) :
    x = .ok a := by
  obtain ⟨s, s', hs, h⟩ := h
  cases x with
  | error e => cases h
  | ok b =>
    cases h
    rfl

theorem of_bind {x : Reading α} {f : α → Reading β} {b : β} (hx : Determined trees x)
    (h : Gives trees (x >>= f) b) : ∃ a, Gives trees x a ∧ Gives trees (f a) b := by
  obtain ⟨s, s', hs, h⟩ := h
  rw [StateT.run_bind] at h
  obtain ⟨⟨a, s₁⟩, ha, hb⟩ := bind_eq_ok_iff.mp h
  exact ⟨a, ⟨s, s₁, hs, ha⟩, s₁, s', (hx s a s₁ hs ha).1, hb⟩

/-- A lifted computation at the start of a reading. -/
theorem of_lift_bind {x : Except Failure α} {f : α → Reading β} {b : β}
    (h : Gives trees (liftM x >>= f) b) : ∃ a, x = .ok a ∧ Gives trees (f a) b := by
  obtain ⟨a, ha, hb⟩ := of_bind (.lift x) h
  exact ⟨a, of_lift ha, hb⟩

theorem of_mapM {f : α → Reading β} (hf : ∀ a, Determined trees (f a)) {l : List α} {bs : List β}
    (h : Gives trees (l.mapM f) bs) : List.Forall₂ (fun a b => Gives trees (f a) b) l bs := by
  induction l generalizing bs with
  | nil =>
    obtain rfl := of_pure h
    exact .nil
  | cons a l ih =>
    rw [List.mapM_cons] at h
    obtain ⟨b, hb, h⟩ := of_bind (hf a) h
    obtain ⟨rest, hrest, h⟩ := of_bind (.mapM hf l) h
    obtain rfl := of_pure h
    exact .cons hb (ih hrest)

theorem of_filterMapM {f : α → Reading (Option β)} (hf : ∀ a, Determined trees (f a)) {l : List α}
    {bs : List β} (h : Gives trees (l.filterMapM f) bs) :
    ∃ os, List.Forall₂ (fun a o => Gives trees (f a) o) l os ∧ bs = os.reduceOption := by
  induction l generalizing bs with
  | nil =>
    obtain rfl := of_pure h
    exact ⟨[], .nil, rfl⟩
  | cons a l ih =>
    rw [List.filterMapM_cons] at h
    obtain ⟨o, ho, h⟩ := of_bind (hf a) h
    cases o with
    | none =>
      obtain ⟨os, hos, rfl⟩ := ih h
      exact ⟨none :: os, .cons ho hos, rfl⟩
    | some b =>
      obtain ⟨rest, hrest, h⟩ := of_bind (.filterMapM hf l) h
      obtain rfl := of_pure h
      obtain ⟨os, hos, rfl⟩ := ih hrest
      exact ⟨some b :: os, .cons ho hos, rfl⟩

theorem of_foldlM_append {f : β → α → Reading β} (hf : ∀ b a, Determined trees (f b a))
    {l l' : List α} {b c : β} (h : Gives trees ((l ++ l').foldlM f b) c) :
    ∃ b', Gives trees (l.foldlM f b) b' ∧ Gives trees (l'.foldlM f b') c := by
  rw [List.foldlM_append] at h
  exact of_bind (.foldlM hf l b) h

theorem of_foldlM_cons {f : β → α → Reading β} (hf : ∀ b a, Determined trees (f b a))
    {a : α} {l : List α} {b c : β} (h : Gives trees ((a :: l).foldlM f b) c) :
    ∃ b', Gives trees (f b a) b' ∧ Gives trees (l.foldlM f b') c := by
  rw [List.foldlM_cons] at h
  exact of_bind (hf b a) h

end Gives

/-- A reading that starts with nothing looked up. -/
theorem gives_of_run {α : Type} {x : Reading α} {a : α} {s' : Nodes}
    (h : x.run ⟨trees, []⟩ = .ok (a, s')) : Gives trees x a :=
  ⟨⟨trees, []⟩, s', ⟨rfl, nofun⟩, h⟩

/-! ## Whole searches -/

/-- A search that runs to its end finds all objects of the wanted types. -/
theorem nodes_search {v : Json} (h : (search wanted v).stop = none) :
    (search wanted v).nodes = (objects [v]).filter (hasType wanted) := by
  rw [(search_of_stop_none h).2, objects_cons]
  unfold ofTypes
  simp [objects, List.filter_map, Function.comp_def]

end UpgradeSafety.Syntax
