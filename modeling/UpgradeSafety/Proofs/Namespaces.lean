import UpgradeSafety.Namespaces
import UpgradeSafety.Proofs.Import.Builds
import UpgradeSafety.Proofs.Syntax.Steady

/-!
# The namespaces of an inheritance chain

The annotated structs of a chain are taken up in order (`annotated`): each is laid out at the root
of its location, and further structs of that location are noted with their places (`Gathers`). The
members have the slots of the compiler's layout, which is searched in the table by label
(`placeOf`). The types of the members are entered into that table on the way; that changes no
place, since what is entered is not laid out (`placeOf_spreads`).

* `load_annotated`: the locations of a chain are all different, and the namespaces are those of its
  annotated structs, or the load fails with the duplicate.

The invariant of the loop relates the structs that were met to the namespaces that were found, and
the table to the one at the start. A struct of a location that was met before is not read, which is
why only the first struct of each location has to be readable. Where the table at the start settles
the places of a struct, those in the result are given by it.
-/

namespace UpgradeSafety.Namespaces

open Syntax

variable {trees : List Json} {locate : Locate} {types types' : TypeTable} {label location : String}

/-! ## Annotated structs -/

/-- A struct that names a storage location, and the contract that declares it. -/
structure Annotated where
  contract : Json
  struct : Json
  location : String

/-- Reads a node of a contract as an annotated struct. -/
def annotated? (contract node : Json) : Option Annotated :=
  if (node.field "nodeType").text? = some "StructDefinition" then
    match locationOf node with
    | .ok (some location) => some ⟨contract, node, location⟩
    | _ => none
  else none

/-- The annotated structs of some contracts, which are given with their nodes, in order. -/
def annotated (bases : List (Json × List Json)) : List Annotated :=
  bases.flatMap fun b => b.2.filterMap (annotated? b.1)

/-- The members that a struct declares. -/
def declared (struct : Json) : Except Failure (List Json) := do
  (← struct.getOr "members" (.arr [])).elements

/-! ## Places -/

/-- Whether an entry has members. -/
def hasMembers (entry : TypeEntry) : Bool :=
  match entry.members with
  | some (.items (_ :: _)) | some (.names (_ :: _)) | some (.unnamed _) => true
  | _ => false

/-- The members of a struct's entry. -/
def itemsOf (entry : TypeEntry) : List Item :=
  match entry.members with
  | some (.items items) => items
  | _ => []

/-- The first entry of a table with a label and with members. -/
def laidOut? (types : TypeTable) (label : String) : Option TypeEntry :=
  (types.map (·.2)).find? fun entry => hasMembers entry && entry.label == label

/-- The member of an entry with a name; of equal names the last counts. -/
def member? (entry : TypeEntry) (name : String) : Option Item :=
  (itemsOf entry).reverse.find? fun item => item.label == name

/-- The slot behind a root and the offset of a member of the struct with a label, if a table places it. -/
def placeOf (types : TypeTable) (label : String) (root : Int) (name : String) :
    Option Int × Option Int :=
  match (laidOut? types label).bind fun entry => member? entry name with
  | some item =>
    match item.slot with
    | some slot => (some (slot + root), item.offset)
    | none => (none, none)
  | none => (none, none)

theorem findSome?_eq_map_find? {α β : Type} {f : α → Option β} {p : α → Bool} {g : α → β}
    (h : ∀ a, f a = if p a then some (g a) else none) (l : List α) :
    l.findSome? f = (l.find? p).map g := by
  induction l with
  | nil => rfl
  | cons a l ih =>
    rw [List.findSome?_cons, List.find?_cons, h]
    cases p a with
    | true => rfl
    | false => exact ih

theorem lookup_labelled (items : List Item) (name : String) :
    (items.map fun i => (i.label, i)).lookup name = items.find? fun item => item.label == name := by
  induction items with
  | nil => rfl
  | cons item items ih =>
    rw [List.map_cons, lookup_cons_eq, List.find?_cons, ih]
    by_cases h : name = item.label
    · simp [h]
    · rw [if_neg h, beq_false_of_ne (Ne.symm h)]

/-- The place of a member is searched in the first entry with the label and with members. -/
theorem lookup_compiledMembers (types : TypeTable) (label name : String) :
    (compiledMembers types label).lookup name =
      (laidOut? types label).bind fun entry => member? entry name := by
  unfold compiledMembers laidOut?
  dsimp only
  rw [findSome?_eq_map_find? (p := fun e => hasMembers e.2 && e.2.label == label)
    (g := fun e => itemsOf e.2), ← List.map_reverse, lookup_labelled, List.find?_map]
  · change _ = ((types.find? fun e => hasMembers e.2 && e.2.label == label).map (·.2)).bind _
    cases types.find? fun e => hasMembers e.2 && e.2.label == label <;> rfl
  · intro e
    obtain ⟨key, label', encoding, numberOfBytes, members, base⟩ := e
    unfold hasMembers itemsOf
    cases members with
    | none => rfl
    | some members =>
      cases members with
      | items items => cases items <;> simp
      | names names => cases names <;> simp
      | unnamed values => simp

/-- Entries whose members are not laid out place nothing. -/
theorem slot_eq_none_of_unplaced {entry : TypeEntry} {item : Item} {name : String} (h : Unplaced entry)
    (hitem : member? entry name = some item) : item.slot = none := by
  unfold member? itemsOf at hitem
  split at hitem
  · rename_i items hmembers
    exact h items hmembers item (List.mem_reverse.mp (List.mem_of_find?_eq_some hitem))
  · cases hitem

/-- Before the first entry with a label and with members, no entry with that label is without members. -/
def PlacesFirst (types : TypeTable) (label : String) : Prop :=
  ∀ front entry back, types.map (·.2) = front ++ entry :: back → entry.label = label →
    hasMembers entry = true → (∀ e ∈ front, e.label = label → hasMembers e = false) →
    ∀ e ∈ front, e.label = label → e.members ≠ none

theorem laidOut?_cons (e : String × TypeEntry) (types : TypeTable) (label : String) :
    laidOut? (e :: types) label =
      if e.2.label = label ∧ hasMembers e.2 = true then some e.2 else laidOut? types label := by
  unfold laidOut?
  rw [List.map_cons, List.find?_cons]
  split
  · rename_i h
    rw [if_pos (by simpa [and_comm] using h)]
  · rename_i h
    rw [if_neg fun hlaid => by simp [hlaid] at h]

/-- A table of entries with members. -/
theorem placesFirst_of_members (h : ∀ e ∈ types, e.2.members ≠ none) (label : String) :
    PlacesFirst types label := by
  intro front entry back hsplit _ _ _ e he _
  have hmem : e ∈ types.map (·.2) := hsplit ▸ List.mem_append_left _ he
  obtain ⟨e', he', rfl⟩ := List.mem_map.mp hmem
  exact h e' he'

theorem PlacesFirst.tail {e : String × TypeEntry} (h : PlacesFirst (e :: types) label)
    (hskip : e.2.label = label → hasMembers e.2 = false) : PlacesFirst types label := by
  intro front entry back hsplit hlabel hmembers hfront
  have hall := h (e.2 :: front) entry back (by rw [List.map_cons, hsplit, List.cons_append]) hlabel
    hmembers (List.forall_mem_cons.mpr ⟨hskip, hfront⟩)
  exact (List.forall_mem_cons.mp hall).2

/-- An entry without members does not have the label of an entry with members behind it. -/
theorem PlacesFirst.label_ne {e : String × TypeEntry} {entry : TypeEntry}
    (h : PlacesFirst (e :: types) label) (hnone : e.2.members = none)
    (hlaid : laidOut? types label = some entry) : e.2.label ≠ label := by
  intro hlabel
  obtain ⟨hentry, front, back, hsplit, hfront⟩ := List.find?_eq_some_iff_append.mp hlaid
  simp only [Bool.and_eq_true, beq_iff_eq] at hentry
  have hskip : hasMembers e.2 = false := by
    rw [hasMembers, hnone]
  refine h (e.2 :: front) entry back (by rw [List.map_cons, hsplit, List.cons_append]) hentry.2 hentry.1
    (List.forall_mem_cons.mpr ⟨fun _ => hskip, fun e' he' hlabel' => ?_⟩) e.2 List.mem_cons_self hlabel hnone
  simpa [hlabel'] using hfront e' he'

/-- The entry that places the members of a struct stays the first one. -/
theorem laidOut?_of_matched {entry : TypeEntry} (hfirst : PlacesFirst types label)
    (h : Matched Retains types types') (hlaid : laidOut? types label = some entry) :
    laidOut? types' label = some entry := by
  induction h with
  | nil => cases hlaid
  | @cons e e' types types' hkeeps _ ih =>
    rw [laidOut?_cons] at hlaid ⊢
    by_cases hplaces : e.2.label = label ∧ hasMembers e.2 = true
    · have hsame : e'.2 = e.2 := hkeeps.2.resolve_right fun hfilled => by
        rw [hasMembers, hfilled.1] at hplaces
        exact Bool.false_ne_true hplaces.2
      rw [hsame, if_pos hplaces]
      rwa [if_pos hplaces] at hlaid
    · rw [if_neg hplaces] at hlaid
      have hrest : PlacesFirst types label := hfirst.tail fun hlabel => by simpa [hlabel] using hplaces
      rcases hkeeps.2 with hsame | ⟨hnone, hlabel, -⟩
      · rw [hsame, if_neg hplaces]
        exact ih hrest hlaid
      · rw [if_neg fun hplaces' => hfirst.label_ne hnone hlaid (hlabel ▸ hplaces'.1)]
        exact ih hrest hlaid

/-- Where no entry places the members of a struct, none does later. -/
theorem unplaced_of_matched {entry : TypeEntry} (h : Matched Retains types types')
    (hlaid : laidOut? types label = none) (hlater : laidOut? types' label = some entry) :
    Unplaced entry := by
  obtain ⟨e', he', rfl⟩ := List.mem_map.mp (List.mem_of_find?_eq_some hlater)
  obtain ⟨e, he, hkeeps⟩ := exists_of_mem_forall₂ h he'
  rcases hkeeps.2 with hsame | ⟨-, -, hplaced⟩
  · have hno := List.find?_eq_none.mp hlaid e.2 (List.mem_map_of_mem he)
    rw [← hsame] at hno
    exact absurd (List.find?_some hlater) hno
  · exact hplaced

theorem placeOf_of_unplaced (h : ∀ entry, laidOut? types label = some entry → Unplaced entry) (root : Int)
    (name : String) : placeOf types label root name = (none, none) := by
  unfold placeOf
  cases hlaid : laidOut? types label with
  | none => rfl
  | some entry =>
    rw [Option.bind_some]
    cases hitem : member? entry name with
    | none => rfl
    | some item =>
      dsimp only
      rw [slot_eq_none_of_unplaced (h entry hlaid) hitem]

/-- What is entered into a table places nothing anew. -/
theorem placeOf_spreads (hfirst : PlacesFirst types label) (h : Spreads types types') (root : Int)
    (name : String) : placeOf types' label root name = placeOf types label root name := by
  obtain ⟨front, back, rfl, hfront, hback⟩ := h
  have hsplit : laidOut? (front ++ back) label = (laidOut? front label).or (laidOut? back label) := by
    rw [laidOut?, List.map_append, List.find?_append]
    rfl
  cases hlaid : laidOut? types label with
  | some entry =>
    rw [placeOf, placeOf, hsplit, laidOut?_of_matched hfirst hfront hlaid, hlaid, Option.some_or]
  | none =>
    rw [placeOf_of_unplaced fun entry hentry => ?_, placeOf_of_unplaced fun entry hentry => ?_]
    · rw [hlaid] at hentry
      cases hentry
    · rw [hsplit, Option.or_eq_some_iff] at hentry
      rcases hentry with hentry | ⟨-, hentry⟩
      · exact unplaced_of_matched hfront hlaid hentry
      · obtain ⟨e, he, rfl⟩ := List.mem_map.mp (List.mem_of_find?_eq_some hentry)
        exact hback e he

/-! ## Items -/

/-- The item that a member of an annotated struct becomes. -/
inductive IsItem (locate : Locate) (types : TypeTable) (a : Annotated) : Json → Item → Prop where
  | intro {definition contract : Json} {name identifier description label src : String}
      (hname : definition.need "name" = .ok (.str name))
      (htype : typeDescription definition = .ok (identifier, description))
      (hcontract : contractName a.contract = .ok contract) (hsrc : locate definition = .ok src)
      (hlabel : structLabel a.struct = .ok label) :
      IsItem locate types a definition
        { label := name, type := TypeId.normalizeIdentifier identifier, contract, src,
          slot := (placeOf types label ((root? a.location).getD 0 : Nat) name).1,
          offset := (placeOf types label ((root? a.location).getD 0 : Nat) name).2 }

/-- The items of an annotated struct are those of the members that it declares, in order. -/
def HasItems (locate : Locate) (types : TypeTable) (a : Annotated) (items : List Item) : Prop :=
  ∃ definitions, declared a.struct = .ok definitions ∧
    List.Forall₂ (IsItem locate types a) definitions items

/-- The entry of a table that places the members of a struct has no other one before it that could be given
members. -/
def Settles (types : TypeTable) (a : Annotated) : Prop :=
  ∀ label, structLabel a.struct = .ok label → PlacesFirst types label

theorem IsItem.of_spreads {a : Annotated} {definition : Json} {item : Item}
    (h : IsItem locate types' a definition item) (hsettles : Settles types a)
    (hspreads : Spreads types types') : IsItem locate types a definition item := by
  obtain ⟨hname, htype, hcontract, hsrc, hlabel⟩ := h
  rw [placeOf_spreads (hsettles _ hlabel) hspreads]
  exact .intro hname htype hcontract hsrc hlabel

/-- Loading on the way does not change what the items of a struct are. -/
theorem HasItems.of_spreads {a : Annotated} {items : List Item} (h : HasItems locate types' a items)
    (hsettles : Settles types a) (hspreads : Spreads types types') : HasItems locate types a items := by
  obtain ⟨definitions, hdeclared, hitems⟩ := h
  exact ⟨definitions, hdeclared, hitems.imp fun _ _ hitem => hitem.of_spreads hsettles hspreads⟩

/-- A namespace is that of an annotated struct. Its items are placed by the table at that moment, which is
what the one at the start has spread to; where the latter settles the places, they are the same. -/
structure IsNamespace (locate : Locate) (types : TypeTable) (a : Annotated) (n : String × List Item) :
    Prop where
  location : n.1 = a.location
  items : ∃ current, Spreads types current ∧ HasItems locate current a n.2
  placed : Settles types a → HasItems locate types a n.2

/-- A member that can be read. -/
structure ReadableMember (trees : List Json) (locate : Locate) (definition : Json) : Prop where
  name : ∃ name, definition.need "name" = .ok (.str name)
  described : ∃ i, Identifies definition i
  place : ∃ src, locate definition = .ok src
  type : definition.field "typeName" = .null ∨ Legible ⟨trees, []⟩ [] (definition.field "typeName")

/-- The members of an annotated struct can be read. -/
def Readable (trees : List Json) (locate : Locate) (a : Annotated) : Prop :=
  ∃ definitions, declared a.struct = .ok definitions ∧ ∀ d ∈ definitions, ReadableMember trees locate d

/-- Behind some annotated structs, all those can be read whose location no struct before them names. -/
def FirstReadable (trees : List Json) (locate : Locate) (before structs : List Annotated) : Prop :=
  ∀ front a back, structs = front ++ a :: back → a.location ∉ (before ++ front).map (·.location) →
    Readable trees locate a

theorem FirstReadable.split {before front back : List Annotated}
    (h : FirstReadable trees locate before (front ++ back)) :
    FirstReadable trees locate before front ∧ FirstReadable trees locate (before ++ front) back := by
  refine ⟨fun front' a back' heq hnew => ?_, fun front' a back' heq hnew => ?_⟩
  · exact h front' a (back' ++ back) (by rw [heq, List.append_assoc, List.cons_append]) hnew
  · refine h (front ++ front') a back' (by rw [heq, List.append_assoc]) ?_
    rwa [← List.append_assoc]

/-- The item of a member before it is placed. -/
def IsMember (definition : Json) (item : Item) : Prop :=
  ∃ name i, definition.need "name" = .ok (.str name) ∧ Identifies definition i ∧
    item = { label := name, type := TypeId.normalizeIdentifier i }

theorem exists_structMembers {struct : Json} {definitions : List Json}
    (hdeclared : declared struct = .ok definitions)
    (hread : ∀ d ∈ definitions, ReadableMember trees locate d) :
    ∃ items, structMembers struct = .ok items ∧ List.Forall₂ IsMember definitions items := by
  obtain ⟨items, hitems⟩ : ∃ items, List.Forall₂ IsMember definitions items := by
    refine exists_forall₂ fun d hd => ?_
    obtain ⟨⟨name, hname⟩, ⟨i, hi⟩, -, -⟩ := hread d hd
    exact ⟨_, name, i, hname, hi, rfl⟩
  refine ⟨items, ?_, hitems⟩
  obtain ⟨field, hfield, helements⟩ := bind_eq_ok_iff.mp hdeclared
  unfold structMembers
  rw [hfield, ok_bind, helements, ok_bind, mapM_eq_ok_iff]
  refine hitems.imp fun d item hitem => ?_
  obtain ⟨name, i, hname, ⟨description, htype⟩, rfl⟩ := hitem
  rw [hname, ok_bind, htype]
  rfl

/-! ## Taking up a struct -/

theorem exists_obj_of_getOr {v w default : Json} {key : String} (h : v.getOr key default = .ok w) :
    ∃ fields, v = .obj fields := by
  cases v with
  | obj fields => exact ⟨fields, rfl⟩
  | null | bool _ | int _ | float _ | str _ | arr _ => cases h

theorem exists_obj_of_text {v : Json} {key s : String} (h : (v.field key).text? = some s) :
    ∃ fields, v = .obj fields := by
  cases v with
  | obj fields => exact ⟨fields, rfl⟩
  | null | bool _ | int _ | float _ | str _ | arr _ => cases h

theorem typeMembers_of_struct {struct : Json} {items : List Item}
    (hstruct : (struct.field "nodeType").text? = some "StructDefinition")
    (hitems : structMembers struct = .ok items) : typeMembers struct = .ok (.items items) := by
  obtain ⟨fields, rfl⟩ := exists_obj_of_text hstruct
  have hget : (Json.obj fields).get "nodeType" = .ok ((Json.obj fields).field "nodeType") := rfl
  rw [typeMembers, hget, ok_bind, hstruct, if_pos (beq_self_eq_true _), hitems]
  rfl

theorem exists_structLabel {struct : Json} (h : ∃ fields, struct = .obj fields) :
    ∃ label, structLabel struct = .ok label := by
  obtain ⟨fields, rfl⟩ := h
  exact ⟨_, rfl⟩

theorem exists_contractName {contract : Json} (h : ∃ fields, contract = .obj fields) :
    ∃ name, contractName contract = .ok name := by
  obtain ⟨fields, rfl⟩ := h
  exact ⟨_, rfl⟩

/-- What `annotated?` finds. -/
theorem annotated?_eq_some {contract node : Json} {a : Annotated} (h : annotated? contract node = some a) :
    (node.field "nodeType").text? = some "StructDefinition" ∧ locationOf node = .ok (some a.location) ∧
      a.contract = contract ∧ a.struct = node := by
  unfold annotated? at h
  split at h
  · rename_i htype
    split at h
    · rename_i location hlocation
      cases h
      exact ⟨htype, hlocation, rfl, rfl⟩
    · cases h
  · cases h

/-- The items of the members that were taken up, and the table with their types. -/
structure Collects (locate : Locate) (types : TypeTable) (a : Annotated) (done : List (Item × Json))
    (state : List Item × TypeTable) : Prop where
  items : List.Forall₂ (IsItem locate types a) (done.map (·.2)) state.1
  spreads : Spreads types state.2

theorem Collects.next {a : Annotated} {done : List (Item × Json)} {state : List Item × TypeTable}
    {member item : Item} {definition : Json} (h : Collects locate types a done state)
    (hitem : IsItem locate types a definition item) (hspreads : Spreads state.2 types') :
    Collects locate types a (done ++ [(member, definition)]) (state.1 ++ [item], types') where
  items := by
    rw [List.map_append]
    exact List.rel_append h.items (.cons hitem .nil)
  spreads := h.spreads.trans hspreads

/-- The items of an annotated struct are placed by the table before their types are loaded. -/
theorem delivers_structItems {a : Annotated} (hcontract : ∃ fields, a.contract = .obj fields)
    (hstruct : (a.struct.field "nodeType").text? = some "StructDefinition")
    (hread : Readable trees locate a) (types : TypeTable) :
    Delivers trees (structItems locate a.struct a.contract a.location types) fun result =>
      HasItems locate types a result.1 ∧ Spreads types result.2 := by
  obtain ⟨contract, hname⟩ := exists_contractName hcontract
  obtain ⟨fields, hfields⟩ := exists_obj_of_text hstruct
  obtain ⟨label, hlabel⟩ := exists_structLabel ⟨fields, hfields⟩
  obtain ⟨definitions, hdeclared, hmembers⟩ := hread
  obtain ⟨items, hitems, hmatch⟩ := exists_structMembers hdeclared hmembers
  obtain ⟨field, hfield, helements⟩ := bind_eq_ok_iff.mp hdeclared
  obtain ⟨hlength, hpairs⟩ := List.forall₂_iff_zip.mp hmatch.flip
  unfold structItems
  refine .lift_bind hlabel (.lift_bind (typeMembers_of_struct hstruct hitems)
    (.lift_bind hfield (.lift_bind helements ?_)))
  dsimp only
  have hstart : Collects locate types a [] ([], types) := ⟨.nil, .refl types⟩
  refine .mono (.foldlM (fun done pair hpair state hstate => ?_) hstart) fun result hresult => ?_
  · obtain ⟨item, definition⟩ := pair
    obtain ⟨name, i, hneed, ⟨description, hdescribed⟩, rfl⟩ := hpairs hpair
    obtain ⟨-, -, ⟨src, hsrc⟩, htype⟩ := hmembers definition (List.of_mem_zip hpair).2
    have hget : definition.get "typeName" = .ok (definition.field "typeName") :=
      get_eq_field ⟨description, hdescribed⟩
    have hitem : IsItem locate types a definition _ := .intro hneed hdescribed hname hsrc hlabel
    rw [placeOf, ← lookup_compiledMembers] at hitem
    refine .lift_bind hname (.lift_bind hsrc (.lift_bind hget ?_))
    split
    · exact .bind (.pure (.refl state.2)) fun _ h => .pure (hstate.next hitem h)
    · rename_i hnull
      exact .bind (delivers_loadType (htype.resolve_left hnull) state.2) fun _ h =>
        .pure (hstate.next hitem h)
  · have hall := hresult.items
    rw [List.nil_append, List.map_snd_zip (Nat.le_of_eq hlength.symm)] at hall
    exact ⟨⟨definitions, hdeclared, hall⟩, hresult.spreads⟩

/-! ## Taking up the structs of a chain -/

/-- The namespaces found in some annotated structs, and the table with the types of their members. -/
structure Gathers (locate : Locate) (types : TypeTable) (done : List Annotated)
    (state : List Found × TypeTable) : Prop where
  known : ∀ location, location ∈ state.1.map (·.location) ↔ location ∈ done.map (·.location)
  places : ∀ f ∈ state.1, List.Forall₂ (fun a place => locate a.struct = .ok place)
    (done.filter (·.location == f.location)) f.places
  items : (done.map (·.location)).Nodup → List.Forall₂ (fun a f => f.location = a.location ∧
    ∃ current, Spreads types current ∧ HasItems locate current a f.items) done state.1
  spreads : Spreads types state.2

variable {done : List Annotated} {found : List Found} {a : Annotated} {place : String}

theorem Gathers.start (locate : Locate) (types : TypeTable) : Gathers locate types [] ([], types) :=
  ⟨fun _ => Iff.rfl, nofun, fun _ => .nil, .refl types⟩

/-- A struct whose location was met is noted. -/
theorem Gathers.again (h : Gathers locate types done (found, types'))
    (hmet : a.location ∈ found.map (·.location)) (hplace : locate a.struct = .ok place) :
    Gathers locate types (done ++ [a]) (found.map fun f =>
      if f.location == a.location then { f with places := f.places ++ [place] } else f, types') where
  known location := by
    have hsame : (found.map fun f => if f.location == a.location then
        { f with places := f.places ++ [place] } else f).map (·.location) = found.map (·.location) := by
      rw [List.map_map]
      refine List.map_congr_left fun f _ => ?_
      rw [Function.comp_apply]
      split <;> rfl
    rw [hsame, h.known location, List.map_append, List.mem_append, List.map_singleton, List.mem_singleton]
    exact ⟨Or.inl, fun hlocation => hlocation.elim id fun heq => heq ▸ (h.known a.location).mp hmet⟩
  places g hg := by
    obtain ⟨f, hf, rfl⟩ := List.mem_map.mp hg
    have hplaces := h.places f hf
    rw [List.filter_append]
    split
    · rename_i hsame
      rw [beq_iff_eq] at hsame
      rw [List.filter_singleton, hsame.symm, beq_self_eq_true]
      exact List.rel_append hplaces (.cons hplace .nil)
    · rename_i hother
      have hskip : (a.location == f.location) = false := by
        rw [Bool.eq_false_iff, ne_eq, beq_iff_eq]
        exact fun heq => hother (by simp [heq])
      rw [List.filter_singleton, hskip]
      simpa using hplaces
  items hnodup := by
    rw [List.map_append, List.nodup_append] at hnodup
    have hdone := (h.known a.location).mp hmet
    exact absurd rfl (hnodup.2.2 _ hdone _ (by simp))
  spreads := h.spreads

/-- A struct whose location was not met begins a namespace. -/
theorem Gathers.fresh (h : Gathers locate types done (found, types'))
    (hmet : a.location ∉ found.map (·.location)) (hplace : locate a.struct = .ok place)
    {items : List Item} {types'' : TypeTable} (hitems : HasItems locate types' a items)
    (hspreads : Spreads types' types'') :
    Gathers locate types (done ++ [a]) (found ++ [⟨a.location, items, [place]⟩], types'') where
  known location := by
    simp [h.known location]
  places := by
    refine List.forall_mem_append.mpr ⟨fun f hf => ?_, List.forall_mem_singleton.mpr ?_⟩
    · have hskip : (a.location == f.location) = false := by
        rw [Bool.eq_false_iff, ne_eq, beq_iff_eq]
        exact fun heq => hmet (List.mem_map.mpr ⟨f, hf, heq.symm⟩)
      rw [List.filter_append, List.filter_singleton, hskip]
      simpa using h.places f hf
    · have hnone : done.filter (·.location == a.location) = [] := by
        refine List.filter_eq_nil_iff.mpr fun b hb heq => hmet ((h.known a.location).mpr ?_)
        exact List.mem_map.mpr ⟨b, hb, beq_iff_eq.mp heq⟩
      dsimp only
      rw [List.filter_append, hnone, List.filter_singleton, beq_self_eq_true]
      exact .cons hplace .nil
  items hnodup := by
    rw [List.map_append, List.nodup_append] at hnodup
    exact List.rel_append (h.items hnodup.1) (.cons ⟨rfl, types', h.spreads, hitems⟩ .nil)
  spreads := h.spreads.trans hspreads

theorem any_location_iff :
    (found.any fun f => f.location == location) = true ↔ location ∈ found.map (·.location) := by
  rw [List.any_eq_true, List.mem_map]
  simp only [beq_iff_eq]

/-- A node of a contract has a type, and, if it is a struct, a location or none. -/
structure ReadableNode (locate : Locate) (contract node : Json) : Prop where
  type : ∃ type, node.get "nodeType" = .ok type
  annotation : (node.field "nodeType").text? = some "StructDefinition" →
    ∃ location?, locationOf node = .ok location?
  place : annotated? contract node ≠ none → ∃ place, locate node = .ok place

theorem delivers_takeStruct {contract node : Json} {state : List Found × TypeTable}
    (hcontract : ∃ fields, contract = .obj fields) (hnode : ReadableNode locate contract node)
    (hread : FirstReadable trees locate done (annotated? contract node).toList)
    (h : Gathers locate types done state) : Delivers trees (takeStruct locate contract state node)
      (Gathers locate types (done ++ (annotated? contract node).toList)) := by
  obtain ⟨type, htype⟩ := hnode.type
  unfold takeStruct
  refine .lift_bind htype ?_
  obtain rfl := eq_field_of_get htype
  dsimp only
  split
  · rename_i hother
    have hnone : annotated? contract node = none := if_neg (by simpa using hother)
    rw [hnone, Option.toList_none, List.append_nil]
    exact .pure h
  · rename_i hstruct
    have hstruct : (node.field "nodeType").text? = some "StructDefinition" := by simpa using hstruct
    obtain ⟨location?, hlocation⟩ := hnode.annotation hstruct
    have hannotated :
        annotated? contract node = location?.map fun location => ⟨contract, node, location⟩ := by
      rw [annotated?, if_pos hstruct, hlocation]
      cases location? <;> rfl
    refine .lift_bind hlocation ?_
    rw [hannotated]
    cases location? with
    | none =>
      rw [Option.map_none, Option.toList_none, List.append_nil]
      exact .pure h
    | some location =>
      obtain ⟨place, hplace⟩ := hnode.place (by rw [hannotated]; exact Option.some_ne_none _)
      rw [hannotated] at hread
      obtain ⟨found, types'⟩ := state
      dsimp only
      refine .lift_bind hplace ?_
      rw [Option.map_some, Option.toList_some]
      split
      · rename_i hmet
        exact .pure (h.again (any_location_iff.mp hmet) hplace)
      · rename_i hmet
        have hnew : location ∉ found.map (·.location) := fun hmem => hmet (any_location_iff.mpr hmem)
        have hfirst := hread [] ⟨contract, node, location⟩ [] rfl
          (by rwa [List.append_nil, ← h.known location])
        refine .bind (delivers_structItems hcontract hstruct hfirst types') fun result hresult => ?_
        exact .pure (h.fresh hnew hplace hresult.1 hresult.2)

/-- The nodes of a contract. -/
def nodesOf (contract : Json) : Except Failure (List Json) := do
  (← contract.getOr "nodes" (.arr [])).elements

/-- The ids of the inheritance chain of a contract. -/
def chainIds (contract : Json) : Except Failure (List Json) := do
  (← chain contract).elements

/-- A contract of an inheritance chain, with its nodes: the contract itself for its own id, and what a lookup
finds for any other one. -/
structure IsBase (trees : List Json) (contract id : Json) (b : Json × List Json) : Prop where
  found : ∃ own, contract.get "id" = .ok own ∧ (id.same own = true ∧ b.1 = contract ∨
    id.same own = false ∧ Finds ⟨trees, []⟩ ["ContractDefinition"] id b.1)
  nodes : nodesOf b.1 = .ok b.2

/-- The contracts of an inheritance chain, the nodes of which can be read; of each location the first struct
can be read with its members. -/
structure ReadableChain (trees : List Json) (locate : Locate) (contract : Json)
    (bases : List (Json × List Json)) : Prop where
  resolves : ∃ ids, chainIds contract = .ok ids ∧ List.Forall₂ (IsBase trees contract) ids bases
  nodes : ∀ b ∈ bases, ∀ node ∈ b.2, ReadableNode locate b.1 node
  structs : FirstReadable trees locate [] (annotated bases)

theorem ReadableChain.isObject {contract : Json} {bases : List (Json × List Json)}
    (h : ReadableChain trees locate contract bases) : ∃ fields, contract = .obj fields := by
  obtain ⟨ids, hids, -⟩ := h.resolves
  obtain ⟨field, hfield, -⟩ := bind_eq_ok_iff.mp hids
  obtain ⟨own, hown, -⟩ := bind_eq_ok_iff.mp hfield
  exact exists_obj_of_getOr hown

theorem delivers_chainContract {contract id : Json} {b : Json × List Json} (h : IsBase trees contract id b) :
    Delivers trees (chainContract contract id) (· = b.1) := by
  obtain ⟨own, hown, ⟨hsame, hb⟩ | ⟨hother, hfinds⟩⟩ := h.found
  · refine .lift_bind hown ?_
    rw [if_pos hsame]
    exact .pure hb.symm
  · refine .lift_bind hown ?_
    rw [if_neg (by rw [hother]; exact Bool.false_ne_true)]
    exact .lookUp (by simp [lookedUp]) (fun _ => rfl) hfinds

/-- The annotated structs of a contract are taken up. -/
theorem delivers_nodes {contract : Json} {nodes : List Json} {state : List Found × TypeTable}
    (hcontract : ∃ fields, contract = .obj fields)
    (hnodes : ∀ node ∈ nodes, ReadableNode locate contract node)
    (hread : FirstReadable trees locate done (nodes.filterMap (annotated? contract)))
    (h : Gathers locate types done state) :
    Delivers trees (nodes.foldlM (takeStruct locate contract) state)
      (Gathers locate types (done ++ nodes.filterMap (annotated? contract))) := by
  induction nodes generalizing done state with
  | nil =>
    rw [List.filterMap_nil, List.append_nil]
    exact .pure h
  | cons node nodes ih =>
    have hsplit : (node :: nodes).filterMap (annotated? contract) =
        (annotated? contract node).toList ++ nodes.filterMap (annotated? contract) := by
      rw [List.filterMap_cons]
      cases annotated? contract node <;> rfl
    rw [List.forall_mem_cons] at hnodes
    rw [hsplit] at hread
    rw [List.foldlM_cons, hsplit, ← List.append_assoc]
    exact .bind (delivers_takeStruct hcontract hnodes.1 hread.split.1 h) fun state' hstate' =>
      ih hnodes.2 hread.split.2 hstate'

/-- The annotated structs of all contracts of a chain are taken up. -/
theorem delivers_bases {contract : Json} {ids : List Json} {bases : List (Json × List Json)}
    {state : List Found × TypeTable} (hbases : List.Forall₂ (IsBase trees contract) ids bases)
    (hnodes : ∀ b ∈ bases, ∀ node ∈ b.2, ReadableNode locate b.1 node)
    (hread : FirstReadable trees locate done (annotated bases)) (h : Gathers locate types done state) :
    Delivers trees (ids.foldlM (fun state id => do
      let base ← chainContract contract id
      let nodes ← (← base.getOr "nodes" (.arr [])).elements
      nodes.foldlM (takeStruct locate base) state) state)
      (Gathers locate types (done ++ annotated bases)) := by
  induction hbases generalizing done state with
  | nil =>
    rw [annotated, List.flatMap_nil, List.append_nil]
    exact .pure h
  | @cons id b ids bases hbase _ ih =>
    rw [List.forall_mem_cons] at hnodes
    rw [annotated, List.flatMap_cons] at hread
    obtain ⟨field, hfield, helements⟩ := bind_eq_ok_iff.mp hbase.nodes
    rw [List.foldlM_cons, annotated, List.flatMap_cons, ← List.append_assoc]
    refine .bind (.bind (delivers_chainContract hbase) fun base hb => ?_) fun state' hstate' =>
      ih hnodes.2 hread.split.2 hstate'
    subst hb
    exact .lift_bind hfield (.lift_bind helements
      (delivers_nodes (exists_obj_of_getOr hfield) hnodes.1 hread.split.1 h))

/-! ## Loading -/

theorem Gathers.length_places (h : Gathers locate types done (found, types')) {f : Found}
    (hf : f ∈ found) :
    f.places.length = (done.map (·.location)).count f.location := by
  rw [← (h.places f hf).length_eq, List.count_eq_countP, List.countP_map, List.countP_eq_length_filter]
  rfl

/-- Different locations have one place each. -/
theorem Gathers.find?_eq_none (h : Gathers locate types done (found, types'))
    (hnodup : (done.map (·.location)).Nodup) : (found.find? fun f => 1 < f.places.length) = none := by
  refine List.find?_eq_none.mpr fun f hf => ?_
  have hone := List.nodup_iff_count_le_one.mp hnodup f.location
  rw [decide_eq_true_eq, h.length_places hf]
  omega

/-- A location that two structs share has several places. -/
theorem Gathers.exists_find? (h : Gathers locate types done (found, types'))
    (hshared : ¬ (done.map (·.location)).Nodup) :
    ∃ f, (found.find? fun f => 1 < f.places.length) = some f := by
  rw [List.nodup_iff_count_le_one, not_forall] at hshared
  obtain ⟨location, hcount⟩ := hshared
  have hmem : location ∈ done.map (·.location) := List.count_pos_iff.mp (by omega)
  obtain ⟨f, hf, rfl⟩ := List.mem_map.mp ((h.known location).mpr hmem)
  refine Option.isSome_iff_exists.mp (List.find?_isSome.mpr ⟨f, hf, ?_⟩)
  rw [decide_eq_true_eq, h.length_places hf]
  omega

/-- What is made of the namespaces that were found. -/
def conclude (contract : Json) (found : List Found) (types : TypeTable) :
    Reading (List (String × List Item) × TypeTable) := do
  match found.find? fun f => 1 < f.places.length with
  | some f =>
    let name ← contract.get "canonicalName"
    let name ← if name.truthy then pure name else contractName contract
    throw (.refused (.duplicateNamespace f.location name.display f.places))
  | none => return (found.map fun f => (f.location, f.items), types)

/-- The first namespace with several places is refused. -/
theorem exists_run_conclude {contract : Json} {f : Found} (hcontract : ∃ fields, contract = .obj fields)
    (hfind : (found.find? fun f => 1 < f.places.length) = some f) (types : TypeTable) (s : Nodes) :
    ∃ name, (conclude contract found types).run s =
      .error (.refused (.duplicateNamespace f.location name f.places)) := by
  obtain ⟨fields, rfl⟩ := hcontract
  have hget : (Json.obj fields).get "canonicalName" = .ok ((Json.obj fields).field "canonicalName") := rfl
  unfold conclude
  rw [hfind]
  dsimp only
  rw [hget, run_ok_bind]
  cases ((Json.obj fields).field "canonicalName").truthy <;> exact ⟨_, rfl⟩

section Load

variable {contract : Json} {bases : List (Json × List Json)} {s : Nodes}
  (hchain : ReadableChain trees locate contract bases) (hs : Steady trees s)
include hchain hs

/-- The run up to the end of the chain. -/
theorem exists_run_bases : ∃ found types' s', Gathers locate types (annotated bases) (found, types') ∧
    (load locate contract types).run s = (conclude contract found types').run s' := by
  obtain ⟨ids, hids, hbases⟩ := hchain.resolves
  obtain ⟨field, hfield, helements⟩ := bind_eq_ok_iff.mp hids
  obtain ⟨⟨found, types'⟩, s', hrun, -, hgathers⟩ :=
    delivers_bases hbases hchain.nodes hchain.structs (.start locate types) s hs
  rw [List.nil_append] at hgathers
  refine ⟨found, types', s', hgathers, ?_⟩
  unfold load
  rw [hfield, run_ok_bind, helements, run_ok_bind, StateT.run_bind, hrun, ok_bind]
  rfl

/-- Different locations give the namespaces of the annotated structs. -/
theorem run_load_distinct (hnodup : ((annotated bases).map (·.location)).Nodup) :
    ∃ namespaces types' s', (load locate contract types).run s = .ok ((namespaces, types'), s') ∧
      List.Forall₂ (IsNamespace locate types) (annotated bases) namespaces := by
  obtain ⟨found, types', s', hgathers, hrun⟩ := exists_run_bases hchain hs
  refine ⟨found.map fun f => (f.location, f.items), types', s', ?_, ?_⟩
  · rw [hrun, conclude, hgathers.find?_eq_none hnodup]
    rfl
  · refine List.forall₂_map_right_iff.mpr ((hgathers.items hnodup).imp fun a f h => ?_)
    obtain ⟨hlocation, current, hspreads, hitems⟩ := h
    exact ⟨hlocation, ⟨current, hspreads, hitems⟩, fun hsettles => hitems.of_spreads hsettles hspreads⟩

/-- A location that several structs carry is refused, with the places of all of them. -/
theorem run_load_shared (hshared : ¬ ((annotated bases).map (·.location)).Nodup) :
    ∃ location name places, (load locate contract types).run s =
        .error (.refused (.duplicateNamespace location name places)) ∧ 1 < places.length ∧
      List.Forall₂ (fun a place => locate a.struct = .ok place)
        ((annotated bases).filter (·.location == location)) places := by
  obtain ⟨found, types', s', hgathers, hrun⟩ := exists_run_bases hchain hs
  obtain ⟨f, hfind⟩ := hgathers.exists_find? hshared
  obtain ⟨name, hname⟩ := exists_run_conclude hchain.isObject hfind types' s'
  refine ⟨f.location, name, f.places, hrun.trans hname, by simpa using List.find?_some hfind, ?_⟩
  exact hgathers.places f (List.mem_of_find?_eq_some hfind)

end Load

/-- The namespaces of a whole chain are loaded once each: those of its annotated structs, in order; just when
two of these name one location, they are refused as duplicates. -/
theorem load_annotated {contract : Json} {bases : List (Json × List Json)} {s : Nodes}
    (hchain : ReadableChain trees locate contract bases) (hs : Steady trees s) :
    ((∃ location name places, (load locate contract types).run s =
        .error (.refused (.duplicateNamespace location name places))) ↔
      ¬ ((annotated bases).map (·.location)).Nodup) ∧
    (((annotated bases).map (·.location)).Nodup → ∃ namespaces types' s',
      (load locate contract types).run s = .ok ((namespaces, types'), s') ∧
      List.Forall₂ (IsNamespace locate types) (annotated bases) namespaces) := by
  refine ⟨⟨?_, fun hshared => ?_⟩, run_load_distinct hchain hs⟩
  · rintro ⟨location, name, places, hrefused⟩ hnodup
    obtain ⟨namespaces, types', s', hrun, -⟩ := run_load_distinct hchain hs hnodup
    rw [hrun] at hrefused
    cases hrefused
  · obtain ⟨location, name, places, hrefused, -, -⟩ := run_load_shared hchain hs hshared
    exact ⟨location, name, places, hrefused⟩

/-! ## Two contracts -/

/-- A struct that names a location. -/
def locatedStruct (id : Int) (name location : String) (members : List Json) : Json :=
  .obj [("nodeType", .str "StructDefinition"), ("id", .int id), ("name", .str name),
    ("documentation", .str ("@custom:storage-location " ++ location)), ("members", .arr members)]

/-- The type name `uint8`. -/
def uint8Name : Json := .obj [("nodeType", .str "ElementaryTypeName"), described "t_uint8" "uint8"]

/-- A member of the type `uint8`. -/
def uint8Member (name : String) : Json :=
  .obj [("name", .str name), described "t_uint8" "uint8", ("typeName", uint8Name)]

/-- A contract with the ids of its chain. -/
def contractOf (id : Int) (name : String) (chain : List Int) (nodes : List Json) : Json :=
  .obj [("nodeType", .str "ContractDefinition"), ("id", .int id), ("name", .str name),
    ("linearizedBaseContracts", .arr (chain.map .int)), ("nodes", .arr nodes)]

def baseStruct : Json := locatedStruct 3 "Base.T" "erc7201:b" [uint8Member "y"]

def baseContract : Json := contractOf 1 "Base" [1] [baseStruct]

def derivedStruct : Json := locatedStruct 4 "Derived.S" "erc7201:a" [uint8Member "x"]

/-- A contract that inherits from another one; both have a namespace. -/
def derivedContract : Json := contractOf 2 "Derived" [2, 1] [derivedStruct]

/-- A table in which the compiler laid out the struct of the derived contract. -/
def derivedTable : TypeTable :=
  [("t_struct(S)4_storage", { label := "struct Derived.S", members := some (.items
    [{ label := "x", type := "t_uint8", slot := some 0, offset := some 0 }]) })]

theorem legible_uint8Name (trees : List Json) : Legible ⟨trees, []⟩ [] uint8Name := by
  have hnames : typeNames uint8Name = [uint8Name] := by decide +kernel
  have hnone : ∀ n, Reachable ⟨trees, []⟩ uint8Name n → n = uint8Name := by
    intro n hn
    induction hn with
    | inside hn =>
      rw [hnames] at hn
      exact List.mem_singleton.mp hn
    | refer _ hd _ ih =>
      rw [ih] at hd
      exact absurd rfl hd.reference
  have hquiet : ∀ n, Reachable ⟨trees, []⟩ uint8Name n → ¬ NamesDefinition n := by
    intro n hn hnames
    rw [hnone n hn] at hnames
    exact hnames.reference rfl
  refine ⟨fun n hn hnames => absurd hnames (hquiet n hn), fun n hn => ?_, by decide +kernel,
    fun n d hn hd => absurd hd.toNamesDefinition (hquiet n hn)⟩
  rw [hnone n hn]
  exact ⟨"t_uint8", "uint8", rfl⟩

theorem readableMember_uint8Member (trees : List Json) (name : String) :
    ReadableMember trees locateNowhere (uint8Member name) :=
  ⟨⟨name, rfl⟩, ⟨"t_uint8", "uint8", rfl⟩, ⟨_, rfl⟩, Or.inr (legible_uint8Name trees)⟩

theorem readableNode_locatedStruct (contract : Json) (id : Int) (name location : String)
    (members : List Json)
    (hlocation : (locationOf (locatedStruct id name location members)).toOption.isSome = true) :
    ReadableNode locateNowhere contract (locatedStruct id name location members) where
  type := ⟨_, rfl⟩
  annotation _ := by
    obtain ⟨location?, hlocation⟩ := Option.isSome_iff_exists.mp hlocation
    exact ⟨location?, eq_ok_of_toOption hlocation⟩
  place _ := ⟨_, rfl⟩

theorem readable_locatedStruct (trees : List Json) {a : Annotated} {id : Int} {name location : String}
    (names : List String) (h : a.struct = locatedStruct id name location (names.map uint8Member)) :
    Readable trees locateNowhere a := by
  refine ⟨names.map uint8Member, by rw [h]; rfl, ?_⟩
  exact List.forall_mem_map.mpr fun name _ => readableMember_uint8Member trees name

theorem load_annotated_derived : ∃ namespaces types' s',
    (load locateNowhere derivedContract derivedTable).run ⟨[baseContract], []⟩ =
        .ok ((namespaces, types'), s') ∧
      List.Forall₂ (fun a n => IsNamespace locateNowhere derivedTable a n ∧
          HasItems locateNowhere derivedTable a n.2)
        (annotated [(derivedContract, [derivedStruct]), (baseContract, [baseStruct])]) namespaces := by
  have hfinds : Finds ⟨[baseContract], []⟩ ["ContractDefinition"] (.int 1) baseContract := by
    refine finds_iff.mpr ⟨rfl, Or.inr ⟨rfl, eq_ok_of_toOption ?_⟩⟩
    decide +kernel
  have hchain : ReadableChain [baseContract] locateNowhere derivedContract
      [(derivedContract, [derivedStruct]), (baseContract, [baseStruct])] := by
    refine ⟨⟨[.int 2, .int 1], rfl, .cons ⟨⟨.int 2, rfl, Or.inl ⟨rfl, rfl⟩⟩, rfl⟩
      (.cons ⟨⟨.int 2, rfl, Or.inr ⟨rfl, hfinds⟩⟩, rfl⟩ .nil)⟩, ?_, fun front a back heq _ => ?_⟩
    · refine List.forall_mem_cons.mpr ⟨List.forall_mem_singleton.mpr ?_,
        List.forall_mem_singleton.mpr (List.forall_mem_singleton.mpr ?_)⟩
      · exact readableNode_locatedStruct _ 4 "Derived.S" "erc7201:a" _ (by decide +kernel)
      · exact readableNode_locatedStruct _ 3 "Base.T" "erc7201:b" _ (by decide +kernel)
    · have ha : a ∈ annotated [(derivedContract, [derivedStruct]), (baseContract, [baseStruct])] := by
        simp [heq]
      obtain ⟨b, hb, ha⟩ := List.mem_flatMap.mp ha
      obtain ⟨node, hnode, ha⟩ := List.mem_filterMap.mp ha
      obtain ⟨-, -, -, hstruct⟩ := annotated?_eq_some ha
      simp only [List.mem_cons, List.not_mem_nil, or_false] at hb
      rcases hb with rfl | rfl
      · exact readable_locatedStruct _ ["x"] (hstruct.trans (List.mem_singleton.mp hnode))
      · exact readable_locatedStruct _ ["y"] (hstruct.trans (List.mem_singleton.mp hnode))
  have hsettles (a : Annotated) : Settles derivedTable a := fun label _ =>
    placesFirst_of_members (List.forall_mem_singleton.mpr (Option.some_ne_none _)) label
  obtain ⟨namespaces, types', s', hrun, hitems⟩ :=
    (load_annotated hchain (.start _)).2 (by decide +kernel)
  exact ⟨namespaces, types', s', hrun,
    hitems.imp fun a _ h => ⟨h, h.placed (hsettles a)⟩⟩

/-! ## What cannot be read, and what is not settled -/

/-- Two structs of one location; the member of the first one has no description of its type. -/
def sharingStructs : List Json :=
  [locatedStruct 2 "C.S" "erc7201:a" [.obj [("id", .int 7), ("name", .str "x")]],
    locatedStruct 3 "C.T" "erc7201:a" [uint8Member "y"]]

def sharingContract : Json := contractOf 1 "C" [1] sharingStructs

/-- A struct that is a member of another one, which is taken up before it. -/
def innerStruct : Json := locatedStruct 5 "C.S" "erc7201:s" [uint8Member "x"]

def outerStruct : Json :=
  locatedStruct 6 "C.T" "erc7201:t" [.obj [("name", .str "inner"),
    described "t_struct$_S_$5_storage" "struct C.S",
    ("typeName", .obj [("nodeType", .str "UserDefinedTypeName"), ("referencedDeclaration", .int 5),
      described "t_struct$_S_$5_storage_ptr" "struct C.S"])]]

def nestingContract : Json := contractOf 1 "C" [1] [outerStruct, innerStruct]

/-- A table in which an entry without members stands before the one that places the members. -/
def unsettledTable : TypeTable :=
  [("t_struct(S)5_storage", { label := "struct C.S" }),
    ("t_struct(S)5_storage_laid_out", { label := "struct C.S", members := some (.items
      [{ label := "x", type := "t_uint8", slot := some 2, offset := some 3 }]) })]

/-- An item that has no place. -/
def placeless (name type : String) : Item :=
  { label := name, type, contract := .str "C", src := "file.sol:1" }

/-- A struct that cannot be read hides that another one has its location. And an entry without members is
filled in, so that the places of the entry behind it are not found. -/
theorem not_load_annotated :
    (IsBase [] sharingContract (.int 1) (sharingContract, sharingStructs) ∧
      chainIds sharingContract = .ok [.int 1] ∧
      (annotated [(sharingContract, sharingStructs)]).map (·.location) = ["erc7201:a", "erc7201:a"] ∧
      (load locateNowhere sharingContract []).run ⟨[], []⟩ =
        .error (.refused (.noTypeDescription "7"))) ∧
    IsBase [innerStruct] nestingContract (.int 1) (nestingContract, [outerStruct, innerStruct]) ∧
      chainIds nestingContract = .ok [.int 1] ∧
      (∀ root, placeOf unsettledTable "struct C.S" root "x" = (some (2 + root), some 3)) ∧
      ∃ types' s', (load locateNowhere nestingContract unsettledTable).run ⟨[innerStruct], []⟩ =
        .ok (([("erc7201:t", [placeless "inner" "t_struct(S)5_storage"]),
          ("erc7201:s", [placeless "x" "t_uint8"])], types'), s') := by
  have hsharing : IsBase [] sharingContract (.int 1) (sharingContract, sharingStructs) :=
    ⟨⟨.int 1, rfl, Or.inl ⟨rfl, rfl⟩⟩, rfl⟩
  have hnesting : IsBase [innerStruct] nestingContract (.int 1)
      (nestingContract, [outerStruct, innerStruct]) :=
    ⟨⟨.int 1, rfl, Or.inl ⟨rfl, rfl⟩⟩, rfl⟩
  refine ⟨⟨hsharing, rfl, by decide +kernel, ?_⟩, hnesting, rfl, fun root => rfl, ?_⟩
  · with_unfolding_all rfl
  · have hnamespaces : ((load locateNowhere nestingContract unsettledTable).run
        ⟨[innerStruct], []⟩).toOption.map (·.1.1) =
          some [("erc7201:t", [placeless "inner" "t_struct(S)5_storage"]),
            ("erc7201:s", [placeless "x" "t_uint8"])] := by
      decide +kernel
    obtain ⟨⟨⟨namespaces, types'⟩, s'⟩, hrun, hfound⟩ := Option.map_eq_some_iff.mp hnamespaces
    cases hfound
    exact ⟨types', s', eq_ok_of_toOption hrun⟩

end UpgradeSafety.Namespaces
