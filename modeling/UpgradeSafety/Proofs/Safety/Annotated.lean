import UpgradeSafety.Proofs.Runs
import UpgradeSafety.Proofs.Safety.Findings

/-!
# Annotated contracts

Contracts in which all annotations name kinds of errors (`Annotated`). The searches of a contract
find what they would find without its documentation, less what an annotation allows at a node or
around it (`suppresses_search`).

The program does not search first and filter afterwards: it prunes a node with an annotation of the
kind in question, together with everything in it. So two searches have to be compared, one that
prunes by the annotations and one in the tree without documentation that prunes nothing
(`walk_undocumented`). Both list objects in document order, and what the first one leaves out is
what has an annotated node around it.

What is found is then turned into errors, one node at a time, and `Suppresses` says that this
commutes with the filter. An annotation with an unknown word in it makes the search fail, which is
why all annotations have to name kinds.
-/

namespace UpgradeSafety.Safety

open Syntax

variable {contract bytecode : Json} {locate : Locate} {kind : SafetyKind} {wanted : List String}
  {judge : Json → Except Failure (List SafetyError)} {errors : List SafetyError}

/-! ## Contracts -/

/-- The types of nodes that the checks search for. -/
def searchedTypes : List String := ["FunctionDefinition", "FunctionCall"]

/-- The tree of a contract: a node in which all annotations name kinds, no documentation holds functions
or calls, and no name holds documentation. -/
structure Annotated (contract : Json) : Prop where
  isNode : isNode contract = true
  recognised : ∀ s ∈ spots [] contract, Syntax.isNode s.node = true →
    ∃ kinds, allowedBy s.node = .ok kinds
  documentation : ∀ s ∈ spots [] contract, Syntax.isNode s.node = true → ∀ doc ∈ documents s.node,
    search searchedTypes doc = ⟨[], none⟩
  names : ∀ s ∈ spots [] contract, Syntax.isNode s.node = true →
    undocumented (s.node.field "name") = s.node.field "name"

theorem annotated_iff : Annotated contract ↔ Syntax.isNode contract = true ∧
    ∀ s ∈ spots [] contract, Syntax.isNode s.node = true →
      (allowedBy s.node).toOption.isSome = true ∧
      (∀ doc ∈ documents s.node, (search searchedTypes doc).nodes = [] ∧
        (search searchedTypes doc).stop.isNone = true) ∧
      undocumented (s.node.field "name") = s.node.field "name" := by
  constructor
  · intro h
    refine ⟨h.isNode, fun s hs hnode => ⟨?_, fun doc hdoc => ?_, h.names s hs hnode⟩⟩
    · obtain ⟨kinds, hkinds⟩ := h.recognised s hs hnode
      rw [hkinds]
      rfl
    · rw [h.documentation s hs hnode doc hdoc]
      exact ⟨rfl, rfl⟩
  · rintro ⟨hcontract, h⟩
    refine ⟨hcontract, fun s hs hnode => ?_, fun s hs hnode doc hdoc => ?_, fun s hs hnode =>
      (h s hs hnode).2.2⟩
    · obtain ⟨kinds, hkinds⟩ := Option.isSome_iff_exists.mp (h s hs hnode).1
      exact ⟨kinds, eq_ok_of_toOption hkinds⟩
    · obtain ⟨hnodes, hstop⟩ := (h s hs hnode).2.1 doc hdoc
      rw [← hnodes, ← Option.isNone_iff_eq_none.mp hstop]

instance : Decidable (Annotated contract) := decidable_of_iff _ annotated_iff.symm

/-! ## Annotations -/

theorem allows_of_recognised {node : Json} (h : ∃ kinds, allowedBy node = .ok kinds) :
    allows kind node = .ok (decide (kind ∈ allowedKinds node)) := by
  obtain ⟨kinds, hkinds⟩ := h
  rw [allows, allowedKinds, hkinds]
  rfl

theorem allows_undocumented {node : Json} (h : Syntax.isNode node = true) :
    allows kind (undocumented node) = .ok false := by
  rw [allows, allowedBy, nodeArguments_undocumented h]
  rfl

/-! ## Suppressed errors -/

theorem mapM_congr {α β : Type} {f g : α → Except Failure β} {l : List α}
    (h : ∀ a ∈ l, f a = g a) : l.mapM f = l.mapM g := by
  induction l with
  | nil => rfl
  | cons a l ih =>
    rw [List.forall_mem_cons] at h
    rw [List.mapM_cons, List.mapM_cons, h.1, ih h.2]

/-- The errors `actual` are the errors `bare` less those that are allowed, by the findings `fs`. -/
def Suppresses (fs : Except Failure (List Finding)) (bare actual : Except Failure (List SafetyError)) :
    Prop :=
  ∀ errors, bare = .ok errors → ∃ found, fs = .ok found ∧ found.map (·.error) = errors ∧
    actual = .ok ((found.filter (!·.isAllowed)).map (·.error))

theorem Suppresses.mapM {α : Type} {l : List α} {fs : α → Except Failure (List Finding)}
    {bare actual : α → Except Failure (List SafetyError)}
    (h : ∀ a ∈ l, Suppresses (fs a) (bare a) (actual a)) :
    Suppresses ((l.mapM fs).map List.flatten) ((l.mapM bare).map List.flatten)
      ((l.mapM actual).map List.flatten) := by
  intro errors hbare
  obtain ⟨parts, hparts, rfl⟩ := map_eq_ok_iff.mp hbare
  clear hbare
  induction l generalizing parts with
  | nil =>
    cases hparts
    exact ⟨[], rfl, rfl, rfl⟩
  | cons a l ih =>
    rw [List.mapM_cons] at hparts
    obtain ⟨errors, herrors, hparts⟩ := bind_eq_ok_iff.mp hparts
    obtain ⟨rest, hrest, hparts⟩ := bind_eq_ok_iff.mp hparts
    cases hparts
    rw [List.forall_mem_cons] at h
    obtain ⟨here, hhere, rfl, hactual⟩ := h.1 errors herrors
    obtain ⟨later, hlater, hall, hactuals⟩ := ih h.2 rest hrest
    obtain ⟨found, hfound, rfl⟩ := map_eq_ok_iff.mp hlater
    obtain ⟨kept, hkept, hflatten⟩ := map_eq_ok_iff.mp hactuals
    refine ⟨here ++ found.flatten, ?_, ?_, ?_⟩
    · rw [List.mapM_cons, hhere, hfound]
      rfl
    · rw [List.map_append, hall, List.flatten_cons]
    · rw [List.mapM_cons, hactual, hkept, List.filter_append, List.map_append, ← hflatten]
      rfl

/-- The errors of one kind at a spot are suppressed together. -/
theorem suppresses_foundAt {s : Spot} {actual : Except Failure (List SafetyError)}
    (hkind : ∀ errors, judge s.node = .ok errors → ∀ e ∈ errors, e.kind = kind)
    (hactual : ∀ errors, judge s.node = .ok errors →
      actual = .ok (if allowedAround kind s.around then [] else errors)) :
    Suppresses (foundAt judge s) (judge s.node) actual := by
  intro errors herrors
  refine ⟨findingsAt s errors, foundAt_of_ok herrors, map_error_findingsAt, ?_⟩
  rw [unallowed_findingsAt (hkind errors herrors), hactual errors herrors]

theorem map_flatten_mapM_cons {α β : Type} (f : α → Except Failure (List β)) (a : α) (l : List α) :
    ((a :: l).mapM f).map List.flatten =
      f a >>= fun b => ((l.mapM f).map List.flatten).map (b ++ ·) := by
  rw [List.mapM_cons]
  cases f a with
  | error e => rfl
  | ok b => cases l.mapM f <;> rfl

/-- What is left out may as well contribute nothing. -/
theorem mapM_filter {α β : Type} {p : α → Bool} {f : α → Except Failure (List β)} {l : List α} :
    ((l.filter p).mapM f).map List.flatten =
      (l.mapM fun a => if p a then f a else .ok []).map List.flatten := by
  induction l with
  | nil => rfl
  | cons a l ih =>
    rw [List.filter_cons, map_flatten_mapM_cons, ← ih]
    cases p a with
    | false =>
      rw [if_neg Bool.false_ne_true, if_neg Bool.false_ne_true, ok_bind]
      cases ((l.filter p).mapM f).map List.flatten <;> rfl
    | true => rw [if_pos rfl, if_pos rfl, map_flatten_mapM_cons]

/-! ## Searches -/

theorem Annotated.plain (h : Annotated contract) (hwanted : ∀ w ∈ wanted, w ∈ searchedTypes) :
    Plain wanted (spots [] contract) := by
  intro s hs hnode doc hdoc around
  have hnone := (of_search_eq_nil (h.documentation s hs hnode doc hdoc)).2
  refine List.filter_eq_nil_iff.mpr fun t ht htype => ?_
  obtain ⟨t', ht', hsame⟩ := exists_spot_around ht []
  have hfalse := hnone t' ht'
  rw [hsame] at hfalse
  obtain ⟨w, hw, hmatch⟩ := List.any_eq_true.mp htype
  have htrue : hasType searchedTypes t.node = true :=
    List.any_eq_true.mpr ⟨w, hwanted w hw, hmatch⟩
  rw [hfalse] at htrue
  cases htrue

/-- The types of all objects are plain if those outside of documentation are. -/
theorem Annotated.hashableTypes (h : Annotated contract)
    (hbare : HashableTypes (spots [] (undocumented contract))) :
    HashableTypes (spots [] contract) := by
  intro s hs
  rcases exists_spot_undocumented [] [] contract s hs with ⟨t, ht, hnode⟩ |
    ⟨n, hn, hnode, doc, hdoc, around, hinside⟩
  · have hhashable := hbare t ht
    rwa [hnode, field_undocumented (by decide), hashable_undocumented] at hhashable
  · have hdocument := (of_search_eq_nil (h.documentation n hn hnode doc hdoc)).1
    obtain ⟨t, ht, hsame⟩ := exists_spot_around hinside []
    rw [← hsame]
    exact hdocument t ht

/-- Without documentation nothing is pruned. -/
theorem walk_undocumented (h : Annotated contract) (hwanted : ∀ w ∈ wanted, w ∈ searchedTypes)
    (hstop : (searchUnless (allows kind) wanted (undocumented contract)).stop = none) :
    HashableTypes (spots [] contract) ∧
      searchUnless (allows kind) wanted (undocumented contract) =
        ⟨(ofTypes wanted (spots [] contract)).map fun s => undocumented s.node, none⟩ := by
  have hrule : ∀ t ∈ spots [] (undocumented contract), Syntax.isNode t.node = true →
      allows kind t.node = .ok false := by
    intro t ht hnode
    obtain ⟨node, heq⟩ := exists_undocumented_eq ht
    rw [heq, isNode_undocumented] at hnode
    rw [heq, allows_undocumented hnode]
  have hbare := (hashableTypes_of_walk (fun t ht => descends_visitor ht (hrule t ht)) hstop).1
  refine ⟨h.hashableTypes hbare, ?_⟩
  rw [searchUnless, walk_eq_kept (p := fun _ => false) fun t ht =>
    visits_visitor ht (hrule t ht) (hbare t ht), kept_false]
  have hspots := ofTypes_spots_undocumented (h.plain hwanted)
  rw [List.map_nil] at hspots
  rw [hspots, List.map_map]
  rfl

/-- What a search finds in a contract, with and without its documentation. -/
theorem suppresses_search {judge' : Json → Except Failure (List SafetyError)} (h : Annotated contract)
    (hwanted : ∀ w ∈ wanted, w ∈ searchedTypes)
    (hjudge : ∀ s ∈ ofTypes wanted (spots [] contract), judge' (undocumented s.node) = judge s.node)
    (hkind : ∀ node errors, judge node = .ok errors → ∀ e ∈ errors, e.kind = kind) :
    Suppresses (treeFindings wanted judge contract)
      ((searchUnless (allows kind) wanted (undocumented contract)).collect judge')
      ((searchUnless (allows kind) wanted contract).collect judge) := by
  intro errors hbare
  obtain ⟨hstop, hparts⟩ := collect_eq_ok hbare
  obtain ⟨hhashable, hwalk⟩ := walk_undocumented h hwanted hstop
  have hactual : searchUnless (allows kind) wanted contract =
      ⟨((ofTypes wanted (spots [] contract)).filter fun s => !allowedAround kind s.around).map
        (·.node), none⟩ := by
    unfold allowedAround
    rw [← kept_eq_filter]
    exact walk_eq_kept fun s hs => visits_visitor hs
      (fun hnode => allows_of_recognised (h.recognised s hs hnode)) (hhashable s hs)
  have hjudged : ((ofTypes wanted (spots [] contract)).map fun s => undocumented s.node).mapM judge' =
      (ofTypes wanted (spots [] contract)).mapM fun s => judge s.node := by
    rw [List.mapM_map]
    exact mapM_congr hjudge
  rw [hwalk, hjudged] at hparts
  rw [hactual, collect_of_stop_none, List.mapM_map, mapM_filter]
  refine Suppresses.mapM (fun s _ => suppresses_foundAt (hkind s.node) fun errors herrors => ?_)
    errors hparts
  rw [Function.comp_apply, herrors]
  cases allowedAround kind s.around <;> rfl

end UpgradeSafety.Safety
