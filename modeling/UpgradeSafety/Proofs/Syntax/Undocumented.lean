import UpgradeSafety.Proofs.Syntax.Spots
import UpgradeSafety.Syntax.Documentation
import UpgradeSafety.Syntax.Source

/-!
# Trees without documentation

A tree from whose nodes the documentation is removed (`undocumented`). All else of it stays: its
other fields (`field_undocumented`), and its objects, but for those in the documentation
(`ofTypes_spots_undocumented`).

Documentation may be a text, or a node of its own with a text inside, and either may hold
annotations. It is removed from nodes only: an object without a type may have a field of that name
with any content. So the objects of a tree are those of the tree without documentation and those
inside what was removed, and in a tree that is `Plain` for some types the latter are of no
interest.

The removal changes neither types nor ids nor places, so what is read from a node otherwise is the
same afterwards. A decoder of places is asked to ignore documentation (`IgnoresDocumentation`),
which the one that counts lines does, as it looks at the place of a node alone.
-/

namespace UpgradeSafety.Syntax

mutual

/-- A tree without the documentation of its nodes. -/
def undocumented : Json → Json
  | .arr items => .arr (undocumentedItems items)
  | .obj fields => .obj (undocumentedFields (isNode (.obj fields)) fields)
  | v => v

/-- The elements of a list without the documentation of their nodes. -/
def undocumentedItems : List Json → List Json
  | [] => []
  | v :: rest => undocumented v :: undocumentedItems rest

/-- Fields without the documentation of the nodes in them, and without that of their own object if it is
a node. -/
def undocumentedFields (ofNode : Bool) : List (String × Json) → List (String × Json)
  | [] => []
  | (k, v) :: rest =>
    if ofNode && k == "documentation" then undocumentedFields ofNode rest
    else (k, undocumented v) :: undocumentedFields ofNode rest

end

variable {v : Json} {items : List Json} {fields : Fields} {key : String} {ofNode : Bool}

/-! ## Values and fields -/

theorem undocumentedItems_eq : undocumentedItems items = items.map undocumented := by
  induction items with
  | nil => rfl
  | cons v rest ih => rw [undocumentedItems, ih, List.map_cons]

theorem undocumented_arr : undocumented (.arr items) = .arr (items.map undocumented) := by
  rw [undocumented, undocumentedItems_eq]

theorem lookup_undocumentedFields (h : key ≠ "documentation") :
    (undocumentedFields ofNode fields).lookup key = (fields.lookup key).map undocumented := by
  induction fields with
  | nil => rfl
  | cons f rest ih =>
    obtain ⟨k, v⟩ := f
    rw [undocumentedFields]
    split
    · rename_i hdropped
      obtain rfl : k = "documentation" := by simpa using (Bool.and_eq_true_iff.mp hdropped).2
      rw [ih, lookup_cons_other h]
    · by_cases hk : key = k
      · subst hk
        rw [List.lookup_cons_self, List.lookup_cons_self, Option.map_some]
      · rw [lookup_cons_other hk, lookup_cons_other hk, ih]

theorem lookup_documentation_undocumentedFields :
    (undocumentedFields true fields).lookup "documentation" = none := by
  induction fields with
  | nil => rfl
  | cons f rest ih =>
    obtain ⟨k, v⟩ := f
    rw [undocumentedFields]
    split
    · exact ih
    · rename_i hkept
      rw [lookup_cons_other fun hk => hkept (by simp [hk]), ih]

theorem field_undocumented (h : key ≠ "documentation") :
    (undocumented v).field key = undocumented (v.field key) := by
  cases v with
  | obj fields =>
    rw [undocumented, Json.field, Json.field?, lookup_undocumentedFields h, Json.field, Json.field?]
    cases fields.lookup key <;> rfl
  | null | bool _ | int _ | float _ | str _ | arr _ => rfl

theorem text?_undocumented (v : Json) : (undocumented v).text? = v.text? := by
  cases v <;> rfl

theorem hashable_undocumented (v : Json) : (undocumented v).hashable = v.hashable := by
  cases v <;> rfl

/-- An object is not emptied: if it is a node its type stays, and otherwise everything does. -/
theorem undocumentedFields_ne_nil (h : fields ≠ []) :
    undocumentedFields (isNode (.obj fields)) fields ≠ [] := by
  intro hnil
  cases hnode : isNode (.obj fields) with
  | false =>
    obtain ⟨f, rest, rfl⟩ := List.exists_cons_of_ne_nil h
    rw [hnode, undocumentedFields, Bool.false_and, if_neg Bool.false_ne_true] at hnil
    cases hnil
  | true =>
    have htype : (undocumentedFields (isNode (.obj fields)) fields).lookup "nodeType" =
        (fields.lookup "nodeType").map undocumented := lookup_undocumentedFields (by decide)
    rw [hnil, List.lookup_nil, eq_comm, Option.map_eq_none_iff] at htype
    rw [isNode, Json.field, Json.field?, htype] at hnode
    cases hnode

theorem truthy_undocumented (v : Json) : (undocumented v).truthy = v.truthy := by
  cases v with
  | arr items => cases items <;> rfl
  | obj fields =>
    cases fields with
    | nil => rfl
    | cons f rest =>
      have hne := undocumentedFields_ne_nil (List.cons_ne_nil f rest)
      rw [undocumented, Json.truthy, Json.truthy, List.isEmpty_eq_false_iff.mpr hne]
      rfl
  | null | bool _ | int _ | float _ | str _ => rfl

theorem isNode_undocumented (v : Json) : isNode (undocumented v) = isNode v := by
  rw [isNode, field_undocumented (by decide), truthy_undocumented, isNode]

theorem hasType_undocumented (wanted : List String) (v : Json) :
    hasType wanted (undocumented v) = hasType wanted v := by
  unfold hasType
  rw [field_undocumented (by decide), text?_undocumented]

theorem get_undocumented (h : key ≠ "documentation") (v : Json) :
    (undocumented v).get key = (v.get key).map undocumented := by
  cases v with
  | obj fields =>
    rw [undocumented, Json.get, Json.get?, lookup_undocumentedFields h, Json.get, Json.get?]
    cases fields.lookup key <;> rfl
  | null | bool _ | int _ | float _ | str _ | arr _ => rfl

theorem getOr_undocumented {default : Json} (h : key ≠ "documentation")
    (hdefault : undocumented default = default) (v : Json) :
    (undocumented v).getOr key default = (v.getOr key default).map undocumented := by
  cases v with
  | obj fields =>
    rw [undocumented, Json.getOr, Json.get?, lookup_undocumentedFields h, Json.getOr, Json.get?]
    cases fields.lookup key with
    | none => exact congrArg Except.ok hdefault.symm
    | some w => rfl
  | null | bool _ | int _ | float _ | str _ | arr _ => rfl

theorem orElse_undocumented (default : Json) (hdefault : undocumented default = default) (v : Json) :
    (undocumented v).orElse default = undocumented (v.orElse default) := by
  unfold Json.orElse
  rw [truthy_undocumented]
  split
  · rfl
  · exact hdefault.symm

/-- The elements of what is not a list are texts. -/
theorem elements_undocumented {elements : List Json} (h : (undocumented v).elements = .ok elements) :
    (∃ items, v = .arr items ∧ elements = items.map undocumented) ∨
      ∃ texts : List String, elements = texts.map .str ∧ (texts = [] → v.elements = .ok []) := by
  cases v with
  | arr items =>
    rw [undocumented_arr] at h
    cases h
    exact Or.inl ⟨items, rfl, rfl⟩
  | obj fields =>
    cases h
    refine Or.inr ⟨(undocumentedFields (isNode (.obj fields)) fields).map (·.1), List.map_map.symm, ?_⟩
    intro hnil
    obtain rfl : fields = [] := not_not.mp fun hne =>
      undocumentedFields_ne_nil hne (List.map_eq_nil_iff.mp hnil)
    rfl
  | str s =>
    cases h
    refine Or.inr ⟨s.toList.map String.singleton, List.map_map.symm, fun hnil => ?_⟩
    rw [Json.elements, List.map_eq_nil_iff.mp hnil]
    rfl
  | null | bool _ | int _ | float _ => cases h

/-- A node without documentation carries no annotation. -/
theorem nodeArguments_undocumented (h : isNode v = true) (name : String) :
    nodeArguments (undocumented v) name = .ok [] := by
  cases v with
  | obj fields =>
    rw [nodeArguments, documentationText, documentation, undocumented, h, Json.get, Json.get?,
      lookup_documentation_undocumentedFields]
    rfl
  | null | bool _ | int _ | float _ | str _ | arr _ => cases h

/-! ## Objects -/

/-- An object in a tree whose documentation is removed. -/
def Spot.undocumented (s : Spot) : Spot :=
  ⟨Syntax.undocumented s.node, s.around.map Syntax.undocumented⟩

/-- The values of an object's fields for documentation. -/
def documents : Json → List Json
  | .obj fields => fieldValues (fields.filter (·.1 == "documentation"))
  | _ => []

theorem enclosing_undocumented (around : List Json) (object : Json) :
    enclosing (around.map undocumented) (undocumented object) =
      (enclosing around object).map undocumented := by
  unfold enclosing
  rw [isNode_undocumented]
  split
  · exact (List.map_cons ..).symm
  · rfl

variable {wanted : List String} {around : List Json}

/-- In the documentation of a tree's nodes there is no object of some types. -/
def Plain (wanted : List String) (ss : List Spot) : Prop :=
  ∀ s ∈ ss, isNode s.node = true → ∀ doc ∈ documents s.node, ∀ around,
    ofTypes wanted (spots around doc) = []

theorem ofTypes_fields {around around' : List Json}
    (hdropped : ofNode = true → ∀ f ∈ fields, f.1 = "documentation" →
      ofTypes wanted (spots around f.2) = [])
    (hkept : ∀ f ∈ fields, ofTypes wanted (spots around' (undocumented f.2)) =
      (ofTypes wanted (spots around f.2)).map Spot.undocumented) :
    ofTypes wanted ((fieldValues (undocumentedFields ofNode fields)).flatMap (spots around')) =
      (ofTypes wanted ((fieldValues fields).flatMap (spots around))).map Spot.undocumented := by
  induction fields with
  | nil => rfl
  | cons f rest ih =>
    obtain ⟨k, v⟩ := f
    have ih := ih (fun hnode f hf => hdropped hnode f (List.mem_cons_of_mem _ hf))
      fun f hf => hkept f (List.mem_cons_of_mem _ hf)
    have hsplit : ofTypes wanted ((fieldValues ((k, v) :: rest)).flatMap (spots around)) =
        ofTypes wanted (spots around v) ++
          ofTypes wanted ((fieldValues rest).flatMap (spots around)) := by
      rw [fieldValues, List.map_cons, List.flatMap_cons, ofTypes_append]
      rfl
    rw [undocumentedFields, hsplit, List.map_append, ← ih]
    split
    · rename_i hcond
      obtain ⟨hnode, hk⟩ := Bool.and_eq_true_iff.mp hcond
      rw [hdropped hnode _ List.mem_cons_self (beq_iff_eq.mp hk)]
      rfl
    · rw [← hkept _ List.mem_cons_self, fieldValues, List.map_cons, List.flatMap_cons, ofTypes_append]
      rfl

/-- Apart from the documentation, a tree has the same objects of some types with and without it. -/
theorem ofTypes_spots_undocumented (h : Plain wanted (spots around v)) :
    ofTypes wanted (spots (around.map undocumented) (undocumented v)) =
      (ofTypes wanted (spots around v)).map Spot.undocumented := by
  induction v using Json.induct generalizing around with
  | arr items ih =>
    rw [undocumented_arr, spots_arr, spots_arr]
    rw [spots_arr] at h
    induction items with
    | nil => rfl
    | cons v rest ihs =>
      rw [List.forall_mem_cons] at ih
      rw [List.flatMap_cons] at h
      have hrest := ihs ih.2 fun s hs => h s (List.mem_append_right _ hs)
      rw [List.map_cons, List.flatMap_cons, List.flatMap_cons, ofTypes_append, ofTypes_append,
        List.map_append, hrest, ih.1 fun s hs => h s (List.mem_append_left _ hs)]
  | obj fields ih =>
    rw [spots_obj] at h
    rw [Plain, List.forall_mem_cons] at h
    have hfields : ofTypes wanted ((fieldValues (undocumentedFields (isNode (.obj fields)) fields)).flatMap
        (spots ((enclosing around (.obj fields)).map undocumented))) =
        (ofTypes wanted ((fieldValues fields).flatMap (spots (enclosing around (.obj fields))))).map
          Spot.undocumented := ofTypes_fields
      (fun hnode f hf hkey => h.1 hnode f.2 (List.mem_map_of_mem (List.mem_filter.mpr
        ⟨hf, beq_iff_eq.mpr hkey⟩)) _)
      fun f hf => ih f hf fun s hs => h.2 s (List.mem_flatMap_of_mem (List.mem_map_of_mem hf) hs)
    have hobject : undocumented (.obj fields) =
        .obj (undocumentedFields (isNode (.obj fields)) fields) := rfl
    rw [hobject, spots_obj, ← hobject, spots_obj, enclosing_undocumented]
    unfold ofTypes at hfields ⊢
    rw [List.filter_cons, List.filter_cons, hfields]
    dsimp only
    rw [hasType_undocumented]
    split <;> rfl
  | null | bool _ | int _ | float _ | str _ => rfl

theorem exists_field_of_mem_undocumentedFields {f : String × Json}
    (hf : f ∈ undocumentedFields ofNode fields) : ∃ g ∈ fields, f.2 = undocumented g.2 := by
  induction fields with
  | nil => cases hf
  | cons g rest ih =>
    obtain ⟨k, v⟩ := g
    have hsplit : f = (k, undocumented v) ∨ f ∈ undocumentedFields ofNode rest := by
      rw [undocumentedFields] at hf
      split at hf
      · exact Or.inr hf
      · exact List.mem_cons.mp hf
    rcases hsplit with rfl | hf
    · exact ⟨_, List.mem_cons_self, rfl⟩
    · obtain ⟨g, hg, heq⟩ := ih hf
      exact ⟨g, List.mem_cons_of_mem _ hg, heq⟩

/-- Every object of a tree without documentation is one without its documentation. -/
theorem exists_undocumented_eq {s : Spot} (hs : s ∈ spots around (undocumented v)) :
    ∃ node, s.node = undocumented node := by
  induction v using Json.induct generalizing around with
  | arr items ih =>
    rw [undocumented_arr, spots_arr] at hs
    obtain ⟨_, hmem, hs⟩ := List.mem_flatMap.mp hs
    obtain ⟨item, hitem, rfl⟩ := List.mem_map.mp hmem
    exact ih item hitem hs
  | obj fields ih =>
    have hobject : undocumented (.obj fields) =
        .obj (undocumentedFields (isNode (.obj fields)) fields) := rfl
    rw [hobject, spots_obj, ← hobject] at hs
    rcases List.mem_cons.mp hs with rfl | hs
    · exact ⟨_, rfl⟩
    · obtain ⟨_, hw, hs⟩ := List.mem_flatMap.mp hs
      obtain ⟨f, hf, rfl⟩ := List.mem_map.mp hw
      obtain ⟨g, hg, heq⟩ := exists_field_of_mem_undocumentedFields hf
      rw [heq] at hs
      exact ih g hg hs
  | null | bool _ | int _ | float _ | str _ => cases hs

theorem mem_undocumentedFields {f : String × Json} (hf : f ∈ fields)
    (hkept : (ofNode && f.1 == "documentation") = false) :
    (f.1, undocumented f.2) ∈ undocumentedFields ofNode fields := by
  induction fields with
  | nil => cases hf
  | cons g rest ih =>
    obtain ⟨k, v⟩ := g
    rw [undocumentedFields]
    rcases List.mem_cons.mp hf with rfl | hf
    · rw [hkept, if_neg Bool.false_ne_true]
      exact List.mem_cons_self
    · split
      · exact ih hf
      · exact List.mem_cons_of_mem _ (ih hf)

/-- Every object of a tree is there without the documentation, too, or is part of it. -/
theorem exists_spot_undocumented (around around' : List Json) (v : Json) :
    ∀ s ∈ spots around v, (∃ t ∈ spots around' (undocumented v), t.node = undocumented s.node) ∨
      ∃ n ∈ spots around v, isNode n.node = true ∧ ∃ doc ∈ documents n.node, ∃ around,
        s ∈ spots around doc := by
  induction v using Json.induct generalizing around around' with
  | arr items ih =>
    intro s hs
    rw [undocumented_arr, spots_arr]
    rw [spots_arr] at hs ⊢
    obtain ⟨v, hv, hs⟩ := List.mem_flatMap.mp hs
    rcases ih v hv around around' s hs with ⟨t, ht, hnode⟩ | ⟨n, hn, hinside⟩
    · exact Or.inl ⟨t, List.mem_flatMap_of_mem (List.mem_map_of_mem hv) ht, hnode⟩
    · exact Or.inr ⟨n, List.mem_flatMap_of_mem hv hn, hinside⟩
  | obj fields ih =>
    intro s hs
    have hobject : undocumented (.obj fields) =
        .obj (undocumentedFields (isNode (.obj fields)) fields) := rfl
    rw [hobject, spots_obj, ← hobject]
    rw [spots_obj] at hs ⊢
    rcases List.mem_cons.mp hs with rfl | hs
    · exact Or.inl ⟨_, List.mem_cons_self, rfl⟩
    · obtain ⟨_, hw, hs⟩ := List.mem_flatMap.mp hs
      obtain ⟨f, hf, rfl⟩ := List.mem_map.mp hw
      cases hdropped : isNode (.obj fields) && f.1 == "documentation" with
      | true =>
        obtain ⟨hnode, hkey⟩ := Bool.and_eq_true_iff.mp hdropped
        exact Or.inr ⟨_, List.mem_cons_self, hnode, f.2,
          List.mem_map_of_mem (List.mem_filter.mpr ⟨hf, hkey⟩), _, hs⟩
      | false =>
        rcases ih f hf _ (enclosing around' (undocumented (.obj fields))) s hs with
          ⟨t, ht, hnode⟩ | ⟨n, hn, hinside⟩
        · exact Or.inl ⟨t, List.mem_cons_of_mem _ (List.mem_flatMap_of_mem
            (List.mem_map_of_mem (mem_undocumentedFields hf hdropped)) ht), hnode⟩
        · exact Or.inr ⟨n, List.mem_cons_of_mem _ (List.mem_flatMap_of_mem hw hn), hinside⟩
  | null | bool _ | int _ | float _ | str _ => exact nofun

/-! ## Places -/

/-- The place of a node does not depend on documentation. -/
def IgnoresDocumentation (locate : Locate) : Prop := ∀ node, locate (undocumented node) = locate node

theorem ignoresDocumentation_locateNowhere : IgnoresDocumentation locateNowhere := fun _ => rfl

theorem ignoresDocumentation_locate (sources : Sources) :
    IgnoresDocumentation sources.locate := by
  intro node
  unfold Sources.locate
  rw [getOr_undocumented (by decide) rfl]
  cases node.getOr "src" (.str "") with
  | error e => rfl
  | ok src => cases src <;> rfl

end UpgradeSafety.Syntax
