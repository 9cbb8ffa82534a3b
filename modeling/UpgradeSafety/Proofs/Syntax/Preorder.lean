import UpgradeSafety.Proofs.Syntax.Spots

/-!
# Searching in document order

A place in a tree is a path, which says at each step which child to go on to. The recursive walk of
a tree (`preorder`) lists what a search is to find with the paths to it: a value before what is
inside it, and what is inside one child before what is inside the next.

* `search_preorder`: a search that keeps its pending values on a list finds what the recursive walk
  lists. The places are in document order, so none occurs twice, and they are exactly the places of
  objects of the wanted types on the way to which nothing is pruned.

The search takes a value from the front of its list and puts the children of it there, so what is
pending is always a suffix of the walk. Its number of steps is bounded by the number of values in
the tree, and that it is never used up is a part of the statement.
-/

namespace UpgradeSafety.Syntax

/-! ## Places -/

/-- The values directly inside a value, in document order. -/
def children : Json → List Json
  | .arr items => items
  | .obj fields => fieldValues fields
  | _ => []

/-- The value at the end of a path. -/
def at? : Json → List Nat → Option Json
  | v, [] => some v
  | v, n :: path => (children v)[n]?.bind fun w => at? w path

/-- Induction over what is inside a value. -/
theorem children_induct {P : Json → Prop} (h : ∀ v, (∀ w ∈ children v, P w) → P v) (v : Json) : P v := by
  induction v using Json.induct with
  | arr items ih => exact h _ ih
  | obj fields ih =>
    refine h _ fun w hw => ?_
    obtain ⟨f, hf, rfl⟩ := List.mem_map.mp hw
    exact ih f hf
  | null | bool _ | int _ | float _ | str _ => exact h _ nofun

/-- A value that is left out with everything inside it. -/
def isPruned (p : Json → Bool) (v : Json) : Bool := isNode v && p v

/-- A path leads to an object of the wanted types, and nothing on the way is pruned, the object included. -/
structure IsFound (p : Json → Bool) (wanted : List String) (tree : Json) (path : List Nat) (node : Json) :
    Prop where
  at_eq : at? tree path = some node
  hasType : hasType wanted node = true
  unpruned : ∀ before, before <+: path → ∀ v, at? tree before = some v → isPruned p v = false

variable {p : Json → Bool} {wanted : List String} {v node : Json} {path : List Nat} {n : Nat}

theorem isFound_nil : IsFound p wanted v [] node ↔
    v = node ∧ hasType wanted node = true ∧ isPruned p v = false := by
  constructor
  · intro h
    exact ⟨Option.some.inj h.at_eq, h.hasType, h.unpruned [] List.prefix_rfl v rfl⟩
  · rintro ⟨rfl, htype, hpruned⟩
    refine ⟨rfl, htype, fun before hbefore w hw => ?_⟩
    obtain rfl := List.prefix_nil.mp hbefore
    cases hw
    exact hpruned

theorem isFound_cons : IsFound p wanted v (n :: path) node ↔
    isPruned p v = false ∧ ∃ w, (children v)[n]? = some w ∧ IsFound p wanted w path node := by
  constructor
  · intro h
    obtain ⟨w, hw, hat⟩ := Option.bind_eq_some_iff.mp h.at_eq
    refine ⟨h.unpruned [] List.nil_prefix v rfl, w, hw, hat, h.hasType, fun before hbefore u hu => ?_⟩
    refine h.unpruned (n :: before) (List.cons_prefix_cons.mpr ⟨rfl, hbefore⟩) u ?_
    rw [at?, hw]
    exact hu
  · rintro ⟨hpruned, w, hw, hfound⟩
    refine ⟨?_, hfound.hasType, fun before hbefore u hu => ?_⟩
    · rw [at?, hw]
      exact hfound.at_eq
    · cases before with
      | nil =>
        cases hu
        exact hpruned
      | cons m before =>
        obtain ⟨rfl, hrest⟩ := List.cons_prefix_cons.mp hbefore
        rw [at?, hw] at hu
        exact hfound.unpruned before hrest u hu

/-! ## The recursive walk -/

mutual

/-- The objects of the wanted types in a tree outside pruned values, with the paths to them. -/
def preorder (p : Json → Bool) (wanted : List String) : Json → List (List Nat × Json)
  | .arr items => preorderItems p wanted 0 items
  | .obj fields =>
    if isPruned p (.obj fields) then []
    else (if hasType wanted (.obj fields) then [([], .obj fields)] else []) ++
      preorderFields p wanted 0 fields
  | _ => []

/-- The objects in the elements of a list, the first of which is the child with a number. -/
def preorderItems (p : Json → Bool) (wanted : List String) (n : Nat) : List Json → List (List Nat × Json)
  | [] => []
  | v :: rest =>
    ((preorder p wanted v).map fun found => (n :: found.1, found.2)) ++ preorderItems p wanted (n + 1) rest

/-- The objects in fields, the first of which is the child with a number. -/
def preorderFields (p : Json → Bool) (wanted : List String) (n : Nat) :
    List (String × Json) → List (List Nat × Json)
  | [] => []
  | (_, v) :: rest =>
    ((preorder p wanted v).map fun found => (n :: found.1, found.2)) ++ preorderFields p wanted (n + 1) rest

end

theorem preorderFields_eq (n : Nat) (fields : Fields) :
    preorderFields p wanted n fields = preorderItems p wanted n (fieldValues fields) := by
  induction fields generalizing n with
  | nil => rfl
  | cons f rest ih =>
    rw [preorderFields, ih]
    rfl

/-- A walk comes to a value first and then to what is inside it. -/
theorem preorder_eq (p : Json → Bool) (wanted : List String) (v : Json) : preorder p wanted v =
    if isPruned p v then []
    else (if hasType wanted v then [([], v)] else []) ++ preorderItems p wanted 0 (children v) := by
  have hplain (htype : v.field "nodeType" = .null) : isPruned p v = false ∧ hasType wanted v = false := by
    constructor
    · rw [isPruned, isNode, htype]
      rfl
    · rw [hasType, htype]
      exact List.any_eq_false.mpr fun _ _ => Bool.false_ne_true
  cases v with
  | obj fields => rw [preorder, preorderFields_eq]; rfl
  | arr items =>
    obtain ⟨hpruned, htype⟩ := hplain rfl
    rw [preorder, hpruned, htype]
    rfl
  | null | bool _ | int _ | float _ | str _ =>
    obtain ⟨hpruned, htype⟩ := hplain rfl
    rw [preorder, hpruned, htype]
    · rfl
    · simp
    · simp

theorem mem_preorderItems {items : List Json} {found : List Nat × Json} :
    found ∈ preorderItems p wanted n items ↔
      ∃ m w path, items[m]? = some w ∧ (path, found.2) ∈ preorder p wanted w ∧ found.1 = (n + m) :: path := by
  induction items generalizing n with
  | nil =>
    rw [preorderItems]
    constructor
    · nofun
    · rintro ⟨m, w, path, hw, -⟩
      rw [List.getElem?_nil] at hw
      cases hw
  | cons v rest ih =>
    rw [preorderItems, List.mem_append, ih, List.mem_map]
    constructor
    · rintro (⟨⟨path, node⟩, hfound, rfl⟩ | ⟨m, w, path, hw, hfound, hpath⟩)
      · exact ⟨0, v, path, rfl, hfound, rfl⟩
      · exact ⟨m + 1, w, path, hw, hfound, by rw [hpath, Nat.add_assoc, Nat.add_comm 1 m]⟩
    · rintro ⟨m, w, path, hw, hfound, hpath⟩
      cases m with
      | zero =>
        cases hw
        exact Or.inl ⟨(path, found.2), hfound, Prod.ext hpath.symm rfl⟩
      | succ m =>
        refine Or.inr ⟨m, w, path, hw, hfound, ?_⟩
        rw [hpath, Nat.add_assoc, Nat.add_comm 1 m]

/-- The recursive walk lists what is to be found. -/
theorem mem_preorder : (path, node) ∈ preorder p wanted v ↔ IsFound p wanted v path node := by
  induction v using children_induct generalizing path with
  | h v ih =>
    rw [preorder_eq]
    cases path with
    | nil =>
      rw [isFound_nil]
      cases hpruned : isPruned p v with
      | true => simp
      | false =>
        have hinside : ([], node) ∉ preorderItems p wanted 0 (children v) := by
          intro hmem
          obtain ⟨m, w, path, -, -, hpath⟩ := mem_preorderItems.mp hmem
          cases hpath
        by_cases htype : hasType wanted v = true
        · simp only [Bool.false_eq_true, if_false, if_pos htype, List.mem_append, List.mem_singleton,
            Prod.mk.injEq, true_and, hinside, or_false, and_true]
          constructor
          · rintro rfl
            exact ⟨rfl, htype⟩
          · rintro ⟨rfl, -⟩
            rfl
        · simp only [Bool.false_eq_true, if_false, if_neg htype, List.nil_append, hinside, and_true,
            false_iff]
          rintro ⟨rfl, htype'⟩
          exact htype htype'
    | cons n path =>
      rw [isFound_cons]
      cases hpruned : isPruned p v with
      | true => simp
      | false =>
        have hself : (n :: path, node) ∉ (if hasType wanted v then [([], v)] else []) := by
          split <;> simp
        rw [if_neg Bool.false_ne_true, List.mem_append, or_iff_right hself, mem_preorderItems]
        constructor
        · rintro ⟨m, w, path', hw, hfound, hpath⟩
          rw [Nat.zero_add, List.cons.injEq] at hpath
          obtain ⟨rfl, rfl⟩ := hpath
          exact ⟨rfl, w, hw, (ih w (List.mem_of_getElem? hw)).mp hfound⟩
        · rintro ⟨-, w, hw, hfound⟩
          exact ⟨n, w, path, hw, (ih w (List.mem_of_getElem? hw)).mpr hfound, by rw [Nat.zero_add]⟩

/-- The places of a list that come one behind the other, from the child with a number on. -/
theorem pairwise_preorderItems {items : List Json}
    (h : ∀ w ∈ items, (preorder p wanted w).Pairwise fun a b => a.1 < b.1) :
    (preorderItems p wanted n items).Pairwise fun a b => a.1 < b.1 := by
  induction items generalizing n with
  | nil => exact .nil
  | cons v rest ih =>
    obtain ⟨hv, hrest⟩ := List.forall_mem_cons.mp h
    rw [preorderItems, List.pairwise_append, List.pairwise_map]
    refine ⟨hv.imp fun hlt => List.cons_lt_cons_iff.mpr (Or.inr ⟨rfl, hlt⟩), ih hrest, ?_⟩
    intro a ha b hb
    obtain ⟨found, -, rfl⟩ := List.mem_map.mp ha
    obtain ⟨m, w, path, -, -, hpath⟩ := mem_preorderItems.mp hb
    rw [hpath]
    exact List.cons_lt_cons_iff.mpr (Or.inl (by omega))

/-- The recursive walk goes in document order. -/
theorem pairwise_preorder (p : Json → Bool) (wanted : List String) (v : Json) :
    (preorder p wanted v).Pairwise fun a b => a.1 < b.1 := by
  induction v using children_induct with
  | h v ih =>
    rw [preorder_eq]
    split
    · exact .nil
    · rw [List.pairwise_append]
      refine ⟨?_, pairwise_preorderItems ih, ?_⟩
      · split
        · exact List.pairwise_singleton ..
        · exact .nil
      · intro a ha b hb
        obtain ⟨m, w, path, -, -, hpath⟩ := mem_preorderItems.mp hb
        rw [hpath]
        split at ha
        · obtain rfl := List.mem_singleton.mp ha
          exact List.nil_lt_cons ..
        · cases ha

/-! ## Searches -/

theorem map_snd_preorderItems (n : Nat) (items : List Json) :
    (preorderItems p wanted n items).map (·.2) = items.flatMap fun w => (preorder p wanted w).map (·.2) := by
  induction items generalizing n with
  | nil => rfl
  | cons v rest ih =>
    rw [preorderItems, List.map_append, List.map_map, ih, List.flatMap_cons]
    rfl

/-- The recursive walk lists the objects that are kept. -/
theorem map_node_kept {around : List Json} (haround : around.any p = false) :
    (kept p wanted (spots around v)).map (·.node) = (preorder p wanted v).map (·.2) := by
  have hitems (around items : List Json) (ih : ∀ w ∈ items, (kept p wanted (spots around w)).map (·.node) =
      (preorder p wanted w).map (·.2)) : (kept p wanted (items.flatMap (spots around))).map (·.node) =
        (preorderItems p wanted 0 items).map (·.2) := by
    rw [map_snd_preorderItems, kept, List.filter_flatMap, List.map_flatMap]
    exact List.flatMap_congr ih
  induction v using Json.induct generalizing around with
  | arr items ih =>
    rw [spots_arr, preorder]
    exact hitems around items fun w hw => ih w hw haround
  | obj fields ih =>
    rw [preorder_eq, isPruned]
    cases hpruned : isNode (.obj fields) && p (.obj fields) with
    | true =>
      rw [kept_obj_of_pruned hpruned]
      rfl
    | false =>
      have haround' := any_enclosing haround hpruned
      have hinside := hitems (enclosing around (.obj fields)) (fieldValues fields) fun w hw => by
        obtain ⟨f, hf, rfl⟩ := List.mem_map.mp hw
        exact ih f hf haround'
      rw [spots_obj, kept_cons, if_neg Bool.false_ne_true, List.map_append]
      dsimp only
      rw [haround', Bool.not_false, Bool.and_true, children, ← hinside]
      split <;> rfl
  | null | bool _ | int _ | float _ | str _ => rfl

/-- The types of all objects of a tree are texts, where they are given. -/
def HasTextTypes (tree : Json) : Prop :=
  ∀ s ∈ spots [] tree, ∀ type ∈ s.node.field? "nodeType", type.text?.isSome = true

theorem hashable_of_hasTextTypes {tree : Json} (h : HasTextTypes tree) {s : Spot}
    (hs : s ∈ spots [] tree) : (s.node.field "nodeType").hashable = true := by
  rw [Json.field]
  cases htype : s.node.field? "nodeType" with
  | none => rfl
  | some type =>
    have htext := h s hs type htype
    cases type with
    | str _ => rfl
    | null | bool _ | int _ | float _ | arr _ | obj _ => cases htext

/-- A search finds what the recursive walk lists, in document order and each place once, and runs to its
end. -/
theorem search_preorder (tree : Json) (htypes : HasTextTypes tree) (wanted : List String)
    (p : Json → Bool) :
    searchUnless (fun node => .ok (p node)) wanted tree = ⟨(preorder p wanted tree).map (·.2), none⟩ ∧
    search wanted tree = ⟨(preorder (fun _ => false) wanted tree).map (·.2), none⟩ ∧
    ((preorder p wanted tree).Pairwise fun a b => a.1 < b.1) ∧
    ∀ path node, (path, node) ∈ preorder p wanted tree ↔ IsFound p wanted tree path node := by
  have hwalk (p : Json → Bool) : searchUnless (fun node => .ok (p node)) wanted tree =
      ⟨(preorder p wanted tree).map (·.2), none⟩ := by
    rw [searchUnless, walk_eq_kept fun s hs => visits_visitor hs (fun _ => rfl)
      (hashable_of_hasTextTypes htypes hs), map_node_kept rfl]
  refine ⟨hwalk p, ?_, pairwise_preorder p wanted tree, fun path node => mem_preorder⟩
  rw [search, visitor_none]
  exact hwalk fun _ => false

/-- A function with what is in its body. -/
def functionNode (name : String) (body : List Json) : Json :=
  .obj [("nodeType", .str "FunctionDefinition"), ("name", .str name), ("body", .arr body)]

/-- A contract with a list of functions, among them one inside another and one inside what is pruned. -/
def nestedContract : Json := .obj [
  ("nodeType", .str "ContractDefinition"), ("id", .int 1),
  ("nodes", .arr [.str "FunctionDefinition", functionNode "outer" [functionNode "inner" []],
    functionNode "skipped" [functionNode "hidden" []], .arr [functionNode "last" []]])]

/-- A rule that prunes the nodes of one name. -/
def isSkipped (node : Json) : Bool := (node.field "name").text? == some "skipped"

theorem search_preorder_nested : HasTextTypes nestedContract ∧
    searchUnless (fun node => .ok (isSkipped node)) ["FunctionDefinition"] nestedContract =
      ⟨[functionNode "outer" [functionNode "inner" []], functionNode "inner" [], functionNode "last" []],
        none⟩ ∧
    IsFound isSkipped ["FunctionDefinition"] nestedContract [2, 1, 2, 0] (functionNode "inner" []) ∧
    ¬ IsFound isSkipped ["FunctionDefinition"] nestedContract [2, 2, 2, 0] (functionNode "hidden" []) := by
  have htypes : HasTextTypes nestedContract := by
    unfold HasTextTypes
    decide +kernel
  obtain ⟨hsearch, -, -, hfound⟩ :=
    search_preorder nestedContract htypes ["FunctionDefinition"] isSkipped
  refine ⟨htypes, hsearch, (hfound _ _).mp ?_, fun h => ?_⟩
  · exact List.mem_cons_of_mem _ List.mem_cons_self
  · have hplaces := List.mem_map_of_mem (f := Prod.fst) ((hfound _ _).mpr h)
    exact absurd hplaces (by decide +kernel)

end UpgradeSafety.Syntax
