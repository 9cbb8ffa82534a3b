import UpgradeSafety.Proofs.Import.Builds
import UpgradeSafety.Proofs.Import.Determined

/-!
# The layouts of a build

Which layout is imported for a contract of a build: that of its last definition in the tree of its
source file (`Import.lookup_layouts`), if no two contracts of the build have the same qualified
name.

The import of a build goes through its source files and their contracts with one memory of lookups,
and enters what it imports into one table. It is taken apart here: for a single contract it looks
for the definition by name, among the definitions of the tree, and imports the layout if there is
one (`importContract`); a contract without a layout, or without a definition, adds nothing. The
keys of the table are some of the qualified names, in their order, so no entry is overwritten when
these are different.

Lookups for other contracts may come before. They do not count where nodes are known by their ids,
and so the layout is the one that an import of that contract alone gives.
-/

namespace UpgradeSafety

open Syntax

/-- The last definition of a contract with a name in a tree. -/
def definitionIn? (tree : Json) (name : String) : Option Json :=
  ((objects [tree]).filter (hasType ["ContractDefinition"])).reverse.find? fun d =>
    (d.field "name").same (.str name)

theorem eq_str_of_same {v : Json} {s : String} (h : v.same (.str s) = true) : v = .str s := by
  cases v with
  | str t => exact (Json.same_str_iff.mp h).symm
  | null | bool _ | int _ | float _ | arr _ | obj _ => cases h

namespace Import

variable {v : Json} {build : Build} {trees : List Json} {locate : Locate}
  {definitions : List (Json × Json)} {tree : Json}

/-- Imports the layout of a contract of a source file, if it has one. -/
def importContract (build : Build) (locate : Locate) (definitions : List (Json × Json))
    (source : String) (contract : String × Json) : Reading (Option (String × Layout)) := do
  match ← contract.2.get "storageLayout" with
  | .null => return none
  | raw =>
    let definition := (definitionNamed? definitions contract.1).map fun d =>
      (⟨d, some locate⟩ : Definition)
    let l ← layout raw definition definition.isSome build.solcVersion
    return some (source ++ ":" ++ contract.1, l)

/-- Imports the layouts of the contracts of a source file. -/
def importSource (build : Build) (locate : Locate) (source : String × Json) :
    Reading (List (String × Layout)) := do
  let definitions ← definitionsIn (← build.tree source.1)
  let found ← (← source.2.entries).filterMapM (importContract build locate definitions source.1)
  return found

theorem layouts_eq (v : Json) : layouts v = (do
    let build ← Build.ofJson v
    let nodes ← Nodes.ofCompilation build.output
    let sources ← Sources.ofCompilation build.input build.output
    let bySource ← (← build.output.getOr "contracts" (.obj [])).entries
    let all : Reading (List (String × Layout)) := do
      let parts ← bySource.mapM (importSource build sources.locate)
      return parts.flatten.foldl (fun done e => putField e.1 e.2 done) []
    let (imported, _) ← all.run nodes
    return (imported, [Log.Occasion.layoutsImported.record
      ("Imported " ++ toString imported.length ++ " storage layout(s)") []])) := rfl

/-! ## Definitions -/

/-- The entry of a definition in the list of those in a tree. -/
theorem definitionsIn_eq_ok (h : definitionsIn tree = .ok definitions) (htree : tree.truthy = true) :
    definitions = (((objects [tree]).filter (hasType ["ContractDefinition"])).map fun d =>
      (d.field "name", d)).reverse := by
  unfold definitionsIn at h
  rw [htree, Bool.not_true, if_neg Bool.false_ne_true] at h
  obtain ⟨found, hfound, h⟩ := bind_eq_ok_iff.mp h
  cases h
  obtain ⟨hstop, hparts⟩ := collect_eq_ok hfound
  rw [nodes_search hstop] at hparts
  obtain ⟨parts, hlist, rfl⟩ := map_eq_ok_iff.mp hparts
  have hentries := mapM_eq_ok_iff.mp hlist
  clear hparts hfound hlist h
  refine congrArg List.reverse ?_
  generalize (objects [tree]).filter (hasType ["ContractDefinition"]) = ds at hentries
  induction hentries with
  | nil => rfl
  | cons hd _ ih =>
    obtain ⟨name, hname, hd⟩ := bind_eq_ok_iff.mp hd
    split at hd
    · cases hd
      rw [List.flatten_cons, List.map_cons, ih, Json.field, field?_of_need hname]
      rfl
    · cases hd

theorem definitionNamed?_eq (h : definitionsIn tree = .ok definitions) (htree : tree.truthy = true)
    (name : String) : definitionNamed? definitions name = definitionIn? tree name := by
  unfold definitionNamed? definitionIn?
  rw [definitionsIn_eq_ok h htree, ← List.map_reverse, List.find?_map, Option.map_map]
  exact congrFun Option.map_id _

theorem truthy_of_definitionIn? {name : String} {d : Json} (h : definitionIn? tree name = some d) :
    tree.truthy = true := by
  have hd := List.mem_of_find?_eq_some h
  cases tree with
  | arr items =>
    cases items with
    | nil => cases hd
    | cons _ _ => rfl
  | obj fields =>
    cases fields with
    | nil => cases hd
    | cons _ _ => rfl
  | null | bool _ | int _ | float _ | str _ => cases hd

/-! ## Contracts -/

theorem reads_importContract (source : String) (contract : String × Json) :
    Reads (importContract build locate definitions source contract) := by
  unfold importContract
  refine .bind (.lift _) fun raw => ?_
  split
  · exact .pure _
  · exact .bind (reads_layout _ _ _ _) fun l => .pure _

theorem reads_importSource (source : String × Json) : Reads (importSource build locate source) :=
  .bind (.lift _) fun _ => .bind (.lift _) fun _ => .bind (.lift _) fun _ =>
    .filterMapM (reads_importContract source.1) _

/-- A layout is entered under the qualified name of its contract. -/
theorem key_importContract (h : UniqueIds trees) {source : String} {contract : String × Json}
    {found : Option (String × Layout)}
    (hfound : Gives trees (importContract build locate definitions source contract) found) :
    ∀ e ∈ found, e.1 = source ++ ":" ++ contract.1 := by
  unfold importContract at hfound
  obtain ⟨raw, -, hfound⟩ := hfound.of_lift_bind
  split at hfound
  · obtain rfl := hfound.of_pure
    exact nofun
  · obtain ⟨l, -, hfound⟩ := hfound.of_bind (determined_layout h _ _ _ _)
    obtain rfl := hfound.of_pure
    rintro e he
    cases he
    rfl

/-- The layout of a contract that has one and a definition. -/
theorem exists_importContract (h : UniqueIds trees) {source : String} {contract : String × Json}
    {found : Option (String × Layout)} {d : Json}
    (hfound : Gives trees (importContract build locate definitions source contract) found)
    (hlayout : contract.2.field "storageLayout" ≠ .null)
    (hd : definitionNamed? definitions contract.1 = some d) :
    ∃ l, found = some (source ++ ":" ++ contract.1, l) ∧
      Gives trees (layout (contract.2.field "storageLayout") (some ⟨d, some locate⟩) true
        build.solcVersion) l := by
  unfold importContract at hfound
  obtain ⟨raw, hraw, hfound⟩ := hfound.of_lift_bind
  obtain rfl := eq_field_of_get hraw
  split at hfound
  · rename_i hnull
    exact absurd hnull hlayout
  · rw [hd] at hfound
    obtain ⟨l, hl, hfound⟩ := hfound.of_bind (determined_layout h _ _ _ _)
    obtain rfl := hfound.of_pure
    exact ⟨l, rfl, hl⟩

theorem keys_sublist_reduceOption {α β : Type} {key : α → String} {l : List α}
    {found : List (Option (String × β))}
    (h : List.Forall₂ (fun a o => ∀ e ∈ o, e.1 = key a) l found) :
    (found.reduceOption.map (·.1)).Sublist (l.map key) := by
  induction h with
  | nil => exact .slnil
  | @cons a o l found ho _ ih =>
    cases o with
    | none => exact ih.cons _
    | some e =>
      rw [List.reduceOption_cons_of_some, List.map_cons, List.map_cons, ho e rfl]
      exact ih.cons_cons _

/-- The keys of what is imported are among the qualified names. -/
theorem keys_sublist_importSource (h : UniqueIds trees) {source : String × Json}
    {part : List (String × Layout)} (hpart : Gives trees (importSource build locate source) part) :
    (part.map (·.1)).Sublist ((compiledIn source).map Compiled.key) := by
  obtain ⟨tree, -, hpart⟩ := hpart.of_lift_bind
  obtain ⟨definitions, -, hpart⟩ := hpart.of_lift_bind
  obtain ⟨entries, hentries, hpart⟩ := hpart.of_lift_bind
  obtain ⟨found, hfound, rfl⟩ := hpart.of_filterMapM
    fun c => (reads_importContract source.1 c).determined h
  rw [compiledIn, ← eq_fieldsOf_of_entries hentries, List.map_map]
  exact keys_sublist_reduceOption (hfound.imp fun _ _ => key_importContract h)

theorem keys_sublist_importSources (h : UniqueIds trees) {bySource : Fields}
    {parts : List (List (String × Layout))}
    (hparts : List.Forall₂ (fun source part => Gives trees (importSource build locate source) part)
      bySource parts) :
    (parts.flatten.map (·.1)).Sublist ((bySource.flatMap compiledIn).map Compiled.key) := by
  induction hparts with
  | nil => exact .slnil
  | cons hpart _ ih =>
    rw [List.flatten_cons, List.map_append, List.flatMap_cons, List.map_append]
    exact (keys_sublist_importSource h hpart).append ih

theorem foldl_putField {α : Type} {es init : List (String × α)}
    (h : ((init ++ es).map (·.1)).Nodup) :
    es.foldl (fun done e => putField e.1 e.2 done) init = init ++ es := by
  induction es generalizing init with
  | nil => rw [List.append_nil]; rfl
  | cons e es ih =>
    have hinit : e.1 ∉ init.map (·.1) := by
      rw [List.map_append, List.map_cons] at h
      exact (List.nodup_middle.mp h).notMem ∘ List.mem_append_left _
    rw [List.foldl_cons, putField_not_mem hinit, ih (by rwa [List.append_assoc]), List.append_assoc]
    rfl

/-- The layout that is imported for a contract that has one and a definition. -/
theorem lookup_layouts {imported : List (String × Layout)} {notes : List Log.Record}
    (himported : layouts v = .ok (imported, notes)) (hunique : UniqueIds (buildTrees v))
    (hnames : DistinctNames v) {c : Compiled} (hc : c ∈ compiledContracts v)
    (hlayout : c.data.field "storageLayout" ≠ .null) {d : Json}
    (hd : definitionIn? (treeOf v c.source) c.name = some d) :
    ∃ build sources l, Build.ofJson v = .ok build ∧
      Sources.ofCompilation build.input build.output = .ok sources ∧
      imported.lookup c.key = some l ∧
      Gives (buildTrees v) (layout (c.data.field "storageLayout") (some ⟨d, some sources.locate⟩) true
        build.solcVersion) l := by
  rw [layouts_eq] at himported
  obtain ⟨build, hbuild, himported⟩ := bind_eq_ok_iff.mp himported
  obtain ⟨nodes, hnodes, himported⟩ := bind_eq_ok_iff.mp himported
  obtain ⟨sources, hsources, himported⟩ := bind_eq_ok_iff.mp himported
  obtain ⟨field, hfield, himported⟩ := bind_eq_ok_iff.mp himported
  obtain ⟨bySource, hbySource, himported⟩ := bind_eq_ok_iff.mp himported
  obtain ⟨⟨all, nodes'⟩, hall, himported⟩ := bind_eq_ok_iff.mp himported
  cases himported
  rw [ofCompilation_eq hbuild hnodes] at hall
  rw [output_ofJson hbuild] at hfield
  have hentries := entries_getOr hfield hbySource
  obtain ⟨parts, hparts, hall⟩ := (gives_of_run hall).of_bind
    ((Reads.mapM reads_importSource _).determined hunique)
  have hparts := hparts.of_mapM fun s => (reads_importSource s).determined hunique
  obtain rfl := hall.of_pure
  have hkeys : (parts.flatten.map (·.1)).Nodup := by
    refine (keys_sublist_importSources hunique hparts).nodup ?_
    rw [hentries]
    exact hnames
  refine ⟨build, sources, ?_⟩
  rw [compiledContracts, ← hentries] at hc
  obtain ⟨source, hsource, hc⟩ := List.mem_flatMap.mp hc
  obtain ⟨contract, hcontract, rfl⟩ := List.mem_map.mp hc
  obtain ⟨part, hpart, himport⟩ : ∃ part ∈ parts,
      Gives (buildTrees v) (importSource build sources.locate source) part :=
    exists_of_mem_forall₂ hparts.flip hsource
  obtain ⟨tree, htree, himport⟩ := himport.of_lift_bind
  obtain ⟨definitions, hdefinitions, himport⟩ := himport.of_lift_bind
  obtain ⟨entries, hentries', himport⟩ := himport.of_lift_bind
  obtain ⟨found, hfound, rfl⟩ := himport.of_filterMapM
    fun c => (reads_importContract source.1 c).determined hunique
  obtain rfl := eq_treeOf hbuild htree
  rw [← eq_fieldsOf_of_entries hentries'] at hcontract
  obtain ⟨o, ho, himport⟩ : ∃ o ∈ found, Gives (buildTrees v)
      (importContract build sources.locate definitions source.1 contract) o :=
    exists_of_mem_forall₂ hfound.flip hcontract
  rw [← definitionNamed?_eq hdefinitions (truthy_of_definitionIn? hd)] at hd
  obtain ⟨l, rfl, hl⟩ := exists_importContract hunique himport hlayout hd
  refine ⟨l, hbuild, hsources, ?_, hl⟩
  rw [foldl_putField (by exact hkeys), List.nil_append]
  exact lookup_of_mem hkeys (List.mem_flatten.mpr ⟨_, hpart, List.reduceOption_mem_iff.mpr ho⟩)

end Import

end UpgradeSafety
