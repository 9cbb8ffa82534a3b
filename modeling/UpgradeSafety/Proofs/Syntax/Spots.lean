import UpgradeSafety.Proofs.Json.RoundTrip
import UpgradeSafety.Proofs.Runs
import UpgradeSafety.Syntax.Nodes

/-!
# The objects of a tree

The objects of a tree in document order, each with the nodes that enclose it (`spots`). A search
that prunes by a rule finds the objects of the wanted types that no pruned node encloses
(`walk_eq_kept`), and a search that ran to its end has seen no type that is a list or an object
(`hashableTypes_of_walk`).

The search of the program is a loop over a list of pending values. Here the tree is walked by
recursion, and an object carries the nodes around it, itself first if it is a node, so that a rule
about what encloses an object can be stated for the object alone. That both list the same is an
induction on the number of steps: a walk over a tree in front of other values finds what is kept of
the tree and goes on behind it (`walk_cons`).

A search fails at a type that is a list or an object, since types are compared by hashing. What is
said of failures is only this; most uses ask for a search that ran to its end.
-/

namespace UpgradeSafety.Syntax

/-! ## Spots -/

/-- Whether a value is a node: an object with a type. -/
def isNode (v : Json) : Bool := (v.field "nodeType").truthy

/-- An object in a tree. -/
structure Spot where
  node : Json
  /-- The nodes that enclose it, the innermost first. It is the first of them if it is a node. -/
  around : List Json

/-- The nodes around what is inside an object. -/
def enclosing (around : List Json) (object : Json) : List Json :=
  if isNode object then object :: around else around

mutual

/-- The objects of a tree that is enclosed by some nodes. -/
def spots (around : List Json) : Json → List Spot
  | .arr items => spotsItems around items
  | .obj fields =>
    ⟨.obj fields, enclosing around (.obj fields)⟩ ::
      spotsFields (enclosing around (.obj fields)) fields
  | _ => []

/-- The objects in the elements of a list. -/
def spotsItems (around : List Json) : List Json → List Spot
  | [] => []
  | v :: rest => spots around v ++ spotsItems around rest

/-- The objects in fields. -/
def spotsFields (around : List Json) : List (String × Json) → List Spot
  | [] => []
  | (_, v) :: rest => spots around v ++ spotsFields around rest

end

variable {around : List Json} {v : Json} {items : List Json} {fields fields' : Fields}

theorem spotsItems_eq : spotsItems around items = items.flatMap (spots around) := by
  induction items with
  | nil => rfl
  | cons v rest ih => rw [spotsItems, ih, List.flatMap_cons]

theorem spotsFields_eq :
    spotsFields around fields = (fieldValues fields).flatMap (spots around) := by
  induction fields with
  | nil => rfl
  | cons f rest ih =>
    rw [spotsFields, ih]
    rfl

theorem spots_arr : spots around (.arr items) = items.flatMap (spots around) := by
  rw [spots, spotsItems_eq]

theorem spots_obj : spots around (.obj fields) =
    ⟨.obj fields, enclosing around (.obj fields)⟩ ::
      (fieldValues fields).flatMap (spots (enclosing around (.obj fields))) := by
  rw [spots, spotsFields_eq]

/-- Induction on the way from an object of a tree up to the tree. -/
theorem spots_induction {s : Spot} {P : List Json → Json → Prop} (hs : s ∈ spots around v)
    (here : ∀ around fields, s = ⟨.obj fields, enclosing around (.obj fields)⟩ →
      P around (.obj fields))
    (item : ∀ around items v, v ∈ items → P around v → P around (.arr items))
    (field : ∀ around fields f, f ∈ fields → P (enclosing around (.obj fields)) f.2 →
      P around (.obj fields)) : P around v := by
  induction v using Json.induct generalizing around with
  | arr items ih =>
    rw [spots_arr] at hs
    obtain ⟨v, hv, hs⟩ := List.mem_flatMap.mp hs
    exact item around items v hv (ih v hv hs)
  | obj fields ih =>
    rw [spots_obj] at hs
    rcases List.mem_cons.mp hs with hs | hs
    · exact here around fields hs
    · obtain ⟨w, hw, hs⟩ := List.mem_flatMap.mp hs
      obtain ⟨f, hf, rfl⟩ := List.mem_map.mp hw
      exact field around fields f hf (ih f hf hs)
  | null | bool _ | int _ | float _ | str _ => cases hs

/-- What is at a spot is an object. -/
theorem exists_fields_of_mem_spots {s : Spot} (hs : s ∈ spots around v) :
    ∃ fields, s.node = .obj fields := by
  refine spots_induction (P := fun _ _ => ∃ fields, s.node = .obj fields) hs ?_
    (fun _ _ _ _ ih => ih) (fun _ _ _ _ ih => ih)
  rintro _ fields rfl
  exact ⟨fields, rfl⟩

/-- An object in a list that a field of an object holds. -/
theorem mem_spots_of_field {key : String} (hitems : fields.lookup key = some (.arr items))
    (hv : .obj fields' ∈ items) : ∃ around', ⟨.obj fields', around'⟩ ∈ spots around (.obj fields) := by
  obtain ⟨before, after, rfl, -⟩ := List.lookup_eq_some_iff.mp hitems
  refine ⟨enclosing (enclosing around (.obj (before ++ (key, .arr items) :: after))) (.obj fields'), ?_⟩
  have hvalue : Json.arr items ∈ fieldValues (before ++ (key, .arr items) :: after) :=
    List.mem_map_of_mem (List.mem_append_right _ List.mem_cons_self)
  rw [spots_obj]
  refine List.mem_cons_of_mem _ (List.mem_flatMap_of_mem hvalue ?_)
  rw [spots_arr]
  refine List.mem_flatMap_of_mem hv ?_
  rw [spots_obj]
  exact List.mem_cons_self

theorem mem_enclosing {object node : Json} (h : node ∈ around) : node ∈ enclosing around object := by
  unfold enclosing
  split
  · exact List.mem_cons_of_mem _ h
  · exact h

/-- What encloses a tree encloses every object in it. -/
theorem mem_around {s : Spot} (hs : s ∈ spots around v) {node : Json} (h : node ∈ around) :
    node ∈ s.around := by
  refine spots_induction (P := fun around _ => node ∈ around → node ∈ s.around) hs ?_
    (fun _ _ _ _ ih => ih) (fun _ _ _ _ ih h => ih (mem_enclosing h)) h
  rintro _ _ rfl h
  exact mem_enclosing h

/-- The objects of a tree are the same whatever encloses it. -/
theorem map_node_spots (around around' : List Json) (v : Json) :
    (spots around v).map (·.node) = (spots around' v).map (·.node) := by
  induction v using Json.induct generalizing around around' with
  | arr items ih =>
    rw [spots_arr, spots_arr, List.map_flatMap, List.map_flatMap]
    exact List.flatMap_congr fun item hitem => ih item hitem around around'
  | obj fields ih =>
    rw [spots_obj, spots_obj, List.map_cons, List.map_cons, List.map_flatMap, List.map_flatMap]
    refine congrArg _ (List.flatMap_congr fun w hw => ?_)
    obtain ⟨f, hf, rfl⟩ := List.mem_map.mp hw
    exact ih f hf _ _
  | null | bool _ | int _ | float _ | str _ => rfl

theorem exists_spot_around {s : Spot} (hs : s ∈ spots around v) (around' : List Json) :
    ∃ t ∈ spots around' v, t.node = s.node := by
  have hmem : s.node ∈ (spots around v).map (·.node) := List.mem_map_of_mem hs
  rw [map_node_spots around around'] at hmem
  exact List.mem_map.mp hmem

/-! ## Searches -/

/-- The objects of some types. -/
def ofTypes (wanted : List String) (ss : List Spot) : List Spot :=
  ss.filter fun s => hasType wanted s.node

/-- The objects of some types that no node encloses which satisfies `p`. -/
def kept (p : Json → Bool) (wanted : List String) (ss : List Spot) : List Spot :=
  ss.filter fun s => hasType wanted s.node && !s.around.any p

variable {p : Json → Bool} {wanted : List String} {visit : Visitor} {found rest : List Json}

theorem ofTypes_append (ss ss' : List Spot) :
    ofTypes wanted (ss ++ ss') = ofTypes wanted ss ++ ofTypes wanted ss' := List.filter_append ..

theorem kept_append (ss ss' : List Spot) :
    kept p wanted (ss ++ ss') = kept p wanted ss ++ kept p wanted ss' := List.filter_append ..

theorem kept_cons (s : Spot) (ss : List Spot) : kept p wanted (s :: ss) =
    if hasType wanted s.node && !s.around.any p then s :: kept p wanted ss else kept p wanted ss :=
  List.filter_cons

theorem kept_eq_nil {ss : List Spot} (h : ∀ s ∈ ss, s.around.any p = true) :
    kept p wanted ss = [] := by
  refine List.filter_eq_nil_iff.mpr fun s hs => ?_
  rw [h s hs]
  simp

/-- Nothing is kept of a pruned object. -/
theorem kept_obj_of_pruned (h : (isNode (.obj fields) && p (.obj fields)) = true) :
    kept p wanted (spots around (.obj fields)) = [] := by
  obtain ⟨hnode, hp⟩ := Bool.and_eq_true_iff.mp h
  have hself : Json.obj fields ∈ enclosing around (.obj fields) := by
    rw [enclosing, if_pos hnode]
    exact List.mem_cons_self
  refine kept_eq_nil fun s hs => List.any_eq_true.mpr ⟨_, ?_, hp⟩
  rw [spots_obj] at hs
  rcases List.mem_cons.mp hs with rfl | hs
  · exact hself
  · obtain ⟨w, -, hs⟩ := List.mem_flatMap.mp hs
    exact mem_around hs hself

/-- A visit leaves out the nodes that satisfy `p` and finds the objects of the wanted types. -/
def Visits (visit : Visitor) (p : Json → Bool) (wanted : List String) (node : Json) : Prop :=
  visit node = .ok (if isNode node && p node then .prune else .descend (hasType wanted node))

theorem any_enclosing {object : Json} (haround : around.any p = false)
    (h : (isNode object && p object) = false) : (enclosing around object).any p = false := by
  unfold enclosing
  split
  · rename_i hnode
    rw [hnode, Bool.true_and] at h
    rw [List.any_cons, h, haround, Bool.or_false]
  · exact haround

theorem walk_items {found rest : List Json} (hitems : ∀ v ∈ items, ∀ found rest,
      walk visit found (v :: rest) =
        walk visit (((kept p wanted (spots around v)).map (·.node)).reverse ++ found) rest) :
    walk visit found (items ++ rest) =
      walk visit (((kept p wanted (items.flatMap (spots around))).map (·.node)).reverse ++ found)
        rest := by
  induction items generalizing found with
  | nil => rfl
  | cons v items ih =>
    rw [List.forall_mem_cons] at hitems
    rw [List.cons_append, hitems.1, ih hitems.2, List.flatMap_cons, kept_append, List.map_append,
      List.reverse_append, List.append_assoc]

/-- A walk over a tree finds the objects that are kept, and goes on behind the tree. -/
theorem walk_cons (hvisit : ∀ s ∈ spots around v, Visits visit p wanted s.node)
    (haround : around.any p = false) (found rest : List Json) :
    walk visit found (v :: rest) =
      walk visit (((kept p wanted (spots around v)).map (·.node)).reverse ++ found) rest := by
  induction v using Json.induct generalizing around found rest with
  | arr items ih =>
    rw [spots_arr] at hvisit ⊢
    rw [walk]
    exact walk_items fun v hv => ih v hv (fun s hs => hvisit s (List.mem_flatMap_of_mem hv hs)) haround
  | obj fields ih =>
    rw [spots_obj] at hvisit ⊢
    rw [List.forall_mem_cons] at hvisit
    obtain ⟨hobject, hinside⟩ := hvisit
    rw [walk, hobject]
    cases hpruned : isNode (.obj fields) && p (.obj fields) with
    | true =>
      rw [← spots_obj, kept_obj_of_pruned hpruned]
      rfl
    | false =>
      have haround' := any_enclosing haround hpruned
      have hitems : ∀ w ∈ fieldValues fields, ∀ found rest, walk visit found (w :: rest) =
          walk visit (((kept p wanted (spots (enclosing around (.obj fields)) w)).map
            (·.node)).reverse ++ found) rest := by
        intro w hw
        obtain ⟨f, hf, rfl⟩ := List.mem_map.mp hw
        exact ih f hf (fun s hs => hinside s (List.mem_flatMap_of_mem hw hs)) haround'
      dsimp only
      rw [if_neg Bool.false_ne_true]
      dsimp only
      rw [walk_items hitems, kept_cons]
      dsimp only
      rw [haround', Bool.not_false, Bool.and_true]
      cases hasType wanted (.obj fields) with
      | false => rfl
      | true => simp
  | null | bool _ | int _ | float _ | str _ =>
    rw [walk]
    · rfl
    · simp
    · simp

/-- A walk over a whole tree. -/
theorem walk_eq_kept (hvisit : ∀ s ∈ spots [] v, Visits visit p wanted s.node) :
    walk visit [] [v] = ⟨(kept p wanted (spots [] v)).map (·.node), none⟩ := by
  rw [walk_cons hvisit rfl, List.append_nil, walk, List.reverse_reverse]

/-! ## Searches that run to their end -/

/-- A visit of an object that is not pruned: it fails if the type of the object is a list or an
object. -/
def Descends (visit : Visitor) (wanted : List String) (node : Json) : Prop :=
  visit node = if (node.field "nodeType").hashable then .ok (.descend (hasType wanted node))
    else .error (.fault .wrongSort)

/-- All types of objects in a list are plain values. -/
def HashableTypes (ss : List Spot) : Prop := ∀ s ∈ ss, (s.node.field "nodeType").hashable = true

theorem hashableTypes_items {found rest : List Json} (hitems : ∀ v ∈ items, ∀ found rest,
      (walk visit found (v :: rest)).stop = none → HashableTypes (spots around v) ∧
        ∃ found', walk visit found (v :: rest) = walk visit found' rest)
    (h : (walk visit found (items ++ rest)).stop = none) :
    HashableTypes (items.flatMap (spots around)) ∧
      ∃ found', walk visit found (items ++ rest) = walk visit found' rest := by
  induction items generalizing found with
  | nil => exact ⟨nofun, found, rfl⟩
  | cons v items ih =>
    rw [List.forall_mem_cons] at hitems
    obtain ⟨hv, found₁, hfound₁⟩ := hitems.1 found (items ++ rest) h
    rw [List.cons_append, hfound₁] at h ⊢
    obtain ⟨hrest, hfound⟩ := ih hitems.2 h
    refine ⟨fun s hs => ?_, hfound⟩
    rw [List.flatMap_cons] at hs
    exact (List.mem_append.mp hs).elim (hv s) (hrest s)

/-- A walk that does not stop within a tree has seen plain types only. -/
theorem hashableTypes_of_walk (hvisit : ∀ s ∈ spots around v, Descends visit wanted s.node)
    (h : (walk visit found (v :: rest)).stop = none) :
    HashableTypes (spots around v) ∧ ∃ found', walk visit found (v :: rest) = walk visit found' rest := by
  induction v using Json.induct generalizing around found rest with
  | arr items ih =>
    rw [spots_arr] at hvisit ⊢
    rw [walk] at h ⊢
    exact hashableTypes_items (fun v hv found rest =>
      ih v hv fun s hs => hvisit s (List.mem_flatMap_of_mem hv hs)) h
  | obj fields ih =>
    rw [spots_obj] at hvisit ⊢
    rw [List.forall_mem_cons] at hvisit
    obtain ⟨hobject, hinside⟩ := hvisit
    dsimp only [Descends] at hobject
    rw [walk] at h ⊢
    cases hhashable : ((Json.obj fields).field "nodeType").hashable with
    | false =>
      rw [hobject, hhashable, if_neg Bool.false_ne_true] at h
      cases h
    | true =>
      rw [hobject, hhashable, if_pos rfl] at h ⊢
      have hitems : ∀ w ∈ fieldValues fields, ∀ found rest,
          (walk visit found (w :: rest)).stop = none →
            HashableTypes (spots (enclosing around (.obj fields)) w) ∧
              ∃ found', walk visit found (w :: rest) = walk visit found' rest := by
        intro w hw found rest
        obtain ⟨f, hf, rfl⟩ := List.mem_map.mp hw
        exact ih f hf fun s hs => hinside s (List.mem_flatMap_of_mem hw hs)
      obtain ⟨hrest, hfound⟩ := hashableTypes_items hitems h
      exact ⟨List.forall_mem_cons.mpr ⟨hhashable, hrest⟩, hfound⟩
  | null | bool _ | int _ | float _ | str _ =>
    refine ⟨by simp [HashableTypes, spots], found, ?_⟩
    rw [walk]
    · simp
    · simp

/-! ## Visitors -/

/-- A visit of an object by a rule for pruning that decides `p` for nodes. -/
theorem visits_visitor {rule : Json → Except Failure Bool} {s : Spot} (hs : s ∈ spots around v)
    (hrule : isNode s.node = true → rule s.node = .ok (p s.node))
    (hhashable : (s.node.field "nodeType").hashable = true) :
    Visits (visitor wanted (some rule)) p wanted s.node := by
  obtain ⟨fields, hnode⟩ := exists_fields_of_mem_spots hs
  rw [hnode] at hrule hhashable ⊢
  have hget : (Json.obj fields).get "nodeType" = .ok ((Json.obj fields).field "nodeType") := rfl
  unfold Visits visitor
  rw [hget, ok_bind]
  dsimp only
  rw [← isNode]
  by_cases hisNode : isNode (.obj fields) = true
  · rw [if_pos hisNode, hrule hisNode, ok_bind, hisNode, Bool.true_and, hhashable]
    cases p (.obj fields) <;> rfl
  · rw [if_neg hisNode, Bool.eq_false_of_not_eq_true hisNode, Bool.false_and, hhashable]
    rfl

/-- A visit of an object by a rule that prunes nothing. -/
theorem descends_visitor {rule : Json → Except Failure Bool} {s : Spot} (hs : s ∈ spots around v)
    (hrule : isNode s.node = true → rule s.node = .ok false) :
    Descends (visitor wanted (some rule)) wanted s.node := by
  obtain ⟨fields, hnode⟩ := exists_fields_of_mem_spots hs
  rw [hnode] at hrule ⊢
  have hget : (Json.obj fields).get "nodeType" = .ok ((Json.obj fields).field "nodeType") := rfl
  unfold Descends visitor
  rw [hget, ok_bind]
  dsimp only
  rw [← isNode]
  by_cases hisNode : isNode (.obj fields) = true
  · rw [if_pos hisNode, hrule hisNode, ok_bind]
    cases ((Json.obj fields).field "nodeType").hashable <;> rfl
  · rw [if_neg hisNode]
    cases ((Json.obj fields).field "nodeType").hashable <;> rfl

/-- A search without a rule for pruning is one by a rule that prunes nothing. -/
theorem visitor_none (wanted : List String) :
    visitor wanted none = visitor wanted (some fun _ => .ok false) := by
  funext node
  unfold visitor
  refine bind_congr fun type => ?_
  cases type.truthy <;> rfl

theorem kept_false (ss : List Spot) : kept (fun _ => false) wanted ss = ofTypes wanted ss := by
  unfold kept
  refine List.filter_congr fun s _ => ?_
  rw [List.any_eq_false.mpr fun _ _ => Bool.false_ne_true, Bool.not_false, Bool.and_true]

theorem kept_eq_filter (ss : List Spot) :
    kept p wanted ss = (ofTypes wanted ss).filter fun s => !s.around.any p := by
  unfold kept ofTypes
  rw [List.filter_filter]
  exact List.filter_congr fun s _ => Bool.and_comm _ _

/-- A search that runs to its end finds all objects of the wanted types, and has seen plain types
only. -/
theorem search_of_stop_none (h : (search wanted v).stop = none) : HashableTypes (spots [] v) ∧
    search wanted v = ⟨(ofTypes wanted (spots [] v)).map (·.node), none⟩ := by
  rw [search, visitor_none] at h ⊢
  have hdescends : ∀ s ∈ spots [] v,
      Descends (visitor wanted (some fun _ => .ok false)) wanted s.node :=
    fun s hs => descends_visitor hs fun _ => rfl
  have hhashable := (hashableTypes_of_walk hdescends h).1
  refine ⟨hhashable, ?_⟩
  rw [walk_eq_kept (p := fun _ => false) fun s hs => visits_visitor hs (fun _ => rfl) (hhashable s hs),
    kept_false]

/-- A search that runs to its end and finds nothing. -/
theorem of_search_eq_nil (h : search wanted v = ⟨[], none⟩) :
    HashableTypes (spots [] v) ∧ ∀ s ∈ spots [] v, hasType wanted s.node = false := by
  obtain ⟨hhashable, hfound⟩ := search_of_stop_none (congrArg Found.stop h)
  rw [h] at hfound
  have hnodes := List.map_eq_nil_iff.mp (congrArg Found.nodes hfound).symm
  refine ⟨hhashable, fun s hs => ?_⟩
  simpa using List.filter_eq_nil_iff.mp hnodes s hs

/-- What is collected comes from all that was found. -/
theorem collect_eq_ok {α : Type} {f : Json → Except Failure (List α)} {x : Found} {as : List α}
    (h : x.collect f = .ok as) :
    x.stop = none ∧ (x.nodes.mapM f).map List.flatten = .ok as := by
  obtain ⟨parts, hparts, h⟩ := bind_eq_ok_iff.mp h
  split at h
  · cases h
  · rename_i hstop
    cases h
    exact ⟨hstop, by rw [hparts]; rfl⟩

theorem collect_of_stop_none {α : Type} (f : Json → Except Failure (List α)) (nodes : List Json) :
    (⟨nodes, none⟩ : Found).collect f = (nodes.mapM f).map List.flatten := by
  unfold Found.collect
  cases nodes.mapM f <;> rfl

end UpgradeSafety.Syntax
