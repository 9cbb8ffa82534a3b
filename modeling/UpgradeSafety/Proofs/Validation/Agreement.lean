import UpgradeSafety.Proofs.Validation.Resolved

/-!
# Layouts by two ways

The layouts of a build can be imported alone, or as part of a validation run. Both ways give a
contract the same layout (`ofBuild_sameLayout`), if no two nodes of the build have the same id and
no two contracts the same qualified name. Qualified names differ if no name of a contract has a
colon (`distinctNames_of_noColon`).

Both run the same import, but at different moments. A validation run takes up the definitions of a
source file one after the other, with checks and lookups for other contracts before and between
them; importing alone goes from contract to contract and looks for the definition of each by name.
So the two meet in the last definition of the contract in the tree of its source file, and in the
fact that an import does not depend on what was looked up before it.

With two contracts of one qualified name the second one may erase what is known of the first in a
run, and the two ways part (`not_sameLayout_colliding`).
-/

namespace UpgradeSafety

open Syntax

/-- Imported layouts and a run have the same layout under a qualified name. -/
def SameLayout (imported : List (String × Layout)) (run : ValidationRun) (key : String) : Prop :=
  ∃ layout record, imported.lookup key = some layout ∧ run.lookup key = some record ∧
    record.layout = some layout

theorem exists_definitionIn? {tree : Json} {name : String} (h : Defines tree name) :
    ∃ d, definitionIn? tree name = some d := by
  obtain ⟨d, hd, htype, hname⟩ := h
  refine Option.isSome_iff_exists.mp (List.find?_isSome.mpr ⟨d, ?_, ?_⟩)
  · exact List.mem_reverse.mpr (List.mem_filter.mpr ⟨hd, htype⟩)
  · rw [hname]
    exact Json.same_str_iff.mpr rfl

/-- A contract with a layout and a definition has the same layout whether the layouts of a build are
imported alone or in a validation run. -/
theorem ofBuild_sameLayout {v : Json} {imported : List (String × Layout)} {run : ValidationRun}
    {notes notes' : List Log.Record} (himported : Import.layouts v = .ok (imported, notes))
    (hrun : ValidationRun.ofBuild v = .ok (run, notes')) (hunique : UniqueIds (buildTrees v))
    (hnames : DistinctNames v) {c : Compiled} (hc : c ∈ compiledContracts v)
    (hlayout : c.data.field "storageLayout" ≠ .null) (hdefined : Defines (treeOf v c.source) c.name) :
    SameLayout imported run c.key := by
  obtain ⟨d, hd⟩ := exists_definitionIn? hdefined
  obtain ⟨build, sources, layout, hbuild, hsources, hlookup, hgives⟩ :=
    Import.lookup_layouts himported hunique hnames hc hlayout hd
  obtain ⟨record, recorded, hrecord, hrecorded, hgives'⟩ :=
    ValidationRun.holdsImport_ofBuild hrun hbuild hsources hunique hnames hc hlayout hd
  obtain rfl := hgives.eq (Import.determined_layout hunique _ _ _ _) hgives'
  exact ⟨recorded, record, hlookup, hrecord, hrecorded⟩

/-! ## Names without colons -/

theorem takeWhile_reverse_of_noColon {name : List Char} (h : ':' ∉ name) (rest : List Char) :
    (name.reverse ++ ':' :: rest).takeWhile (· != ':') = name.reverse := by
  rw [List.takeWhile_append_of_pos fun c hc => ?_]
  · rw [List.takeWhile_cons_of_neg (by decide), List.append_nil]
  · exact bne_iff_ne.mpr fun heq => h (heq ▸ List.mem_reverse.mp hc)

/-- A qualified name tells the source file and the name if the name has no colon. -/
theorem Compiled.eq_of_key {c c' : Compiled} (h : ':' ∉ c.name.toList) (h' : ':' ∉ c'.name.toList)
    (hkey : c.key = c'.key) : c.source = c'.source ∧ c.name = c'.name := by
  have hlists : c.name.toList.reverse ++ ':' :: c.source.toList.reverse =
      c'.name.toList.reverse ++ ':' :: c'.source.toList.reverse := by
    have hreverse := congrArg (fun s : String => s.toList.reverse) hkey
    simpa [Compiled.key] using hreverse
  have hname : c.name.toList.reverse = c'.name.toList.reverse := by
    rw [← takeWhile_reverse_of_noColon h c.source.toList.reverse, hlists,
      takeWhile_reverse_of_noColon h']
  rw [hname, List.append_cancel_left_eq, List.cons.injEq] at hlists
  exact ⟨String.toList_injective (List.reverse_injective hlists.2),
    String.toList_injective (List.reverse_injective hname)⟩

theorem nodup_keys_compiledIn {source : String × Json} (h : source.2.IsTidy) :
    ((compiledIn source).map Compiled.key).Nodup := by
  obtain ⟨source, contracts⟩ := source
  cases contracts with
  | obj fields =>
    have hkeys := (Json.isTidy_obj.mp h).1.map fun _ _ heq =>
      (String.append_right_inj (source ++ ":")).mp heq
    rw [compiledIn, List.map_map]
    rwa [List.map_map] at hkeys
  | null | bool _ | int _ | float _ | str _ | arr _ => exact List.nodup_nil

/-- Qualified names differ if no contract has a colon in its name. -/
theorem distinctNames_of_noColon {v : Json} (htidy : v.IsTidy)
    (h : ∀ c ∈ compiledContracts v, ':' ∉ c.name.toList) : DistinctNames v := by
  unfold DistinctNames
  unfold compiledContracts at h ⊢
  have hfields := (htidy.field "output").field "contracts"
  generalize (v.field "output").field "contracts" = contracts at h hfields
  cases contracts with
  | obj fields =>
    obtain ⟨hnodup, hvalues⟩ := Json.isTidy_obj.mp hfields
    clear hfields
    dsimp only [fieldsOf] at h ⊢
    induction fields with
    | nil => exact List.nodup_nil
    | cons f fields ih =>
      rw [List.map_cons, List.nodup_cons] at hnodup
      rw [List.forall_mem_cons] at hvalues
      rw [List.flatMap_cons, List.forall_mem_append] at h
      rw [List.flatMap_cons, List.map_append, List.nodup_append]
      refine ⟨nodup_keys_compiledIn hvalues.1, ih h.2 hnodup.2 hvalues.2, ?_⟩
      intro key hkey key' hkey' heq
      obtain ⟨c, hc, rfl⟩ := List.mem_map.mp hkey
      obtain ⟨c', hc', rfl⟩ := List.mem_map.mp hkey'
      obtain ⟨source, hsource, hin⟩ := List.mem_flatMap.mp hc'
      obtain ⟨_, -, rfl⟩ := List.mem_map.mp hc
      obtain ⟨_, -, rfl⟩ := List.mem_map.mp hin
      have hsame := (Compiled.eq_of_key (h.1 _ hc) (h.2 _ hc') heq).1
      exact hnodup.1 (List.mem_map.mpr ⟨source, hsource, hsame.symm⟩)
  | null | bool _ | int _ | float _ | str _ | arr _ => exact List.nodup_nil

/-! ## A variable of a base -/

/-- A contract of a syntax tree. -/
def owningContract (id : Int) (name : String) (bases : List Int) (nodes : List Json) : Json :=
  .obj [("nodeType", .str "ContractDefinition"), ("id", .int id), ("name", .str name),
    ("src", .str "0:1:0"), ("linearizedBaseContracts", .arr (bases.map .int)),
    ("nodes", .arr nodes)]

/-- The declaration of a variable. -/
def ownerVariable (id : Int) : Json :=
  .obj [("nodeType", .str "VariableDeclaration"), ("id", .int id), ("name", .str "owner"),
    ("src", .str "0:1:0")]

/-- A compiled contract with one variable. -/
def owningCompiled (id : Int) : Json :=
  .obj [("storageLayout", .obj [
    ("storage", .arr [.obj [("astId", .int id), ("contract", .str "a.sol:Owned"),
      ("label", .str "owner"), ("offset", .int 0), ("slot", .str "0"), ("type", .str "t_address")]]),
    ("types", .obj [("t_address", .obj [("encoding", .str "inplace"), ("label", .str "address"),
      ("numberOfBytes", .str "20")])])])]

/-- A build with one tree. -/
def buildWith (source : String) (contracts : List Json) (compiled : Json) : Json :=
  .obj [("input", .obj [("sources", .obj [(source, .obj [("content", .str "")])])]),
    ("output", .obj [
      ("sources", .obj [(source, .obj [("id", .int 0), ("ast", .obj [
        ("nodeType", .str "SourceUnit"), ("nodes", .arr contracts)])])]),
      ("contracts", compiled)])]

/-- A build of a contract and one that inherits its variable. -/
def ownedBuild : Json :=
  buildWith "a.sol"
    [owningContract 1 "Owned" [1] [ownerVariable 2], owningContract 3 "Vault" [3, 1] []]
    (.obj [("a.sol", .obj [("Owned", owningCompiled 2), ("Vault", owningCompiled 2)])])

instance (v : Json) : Decidable (DistinctNames v) :=
  inferInstanceAs (Decidable (List.Nodup _))

theorem ofBuild_sameLayout_owned : ∃ imported run notes notes',
    Import.layouts ownedBuild = .ok (imported, notes) ∧
      ValidationRun.ofBuild ownedBuild = .ok (run, notes') ∧ UniqueIds (buildTrees ownedBuild) ∧
      DistinctNames ownedBuild ∧ SameLayout imported run "a.sol:Vault" := by
  have hlayouts : (Import.layouts ownedBuild).toOption.isSome = true := by decide +kernel
  have hofBuild : (ValidationRun.ofBuild ownedBuild).toOption.isSome = true := by decide +kernel
  obtain ⟨⟨imported, notes⟩, himported⟩ := Option.isSome_iff_exists.mp hlayouts
  obtain ⟨⟨run, notes'⟩, hrun⟩ := Option.isSome_iff_exists.mp hofBuild
  have himported := eq_ok_of_toOption himported
  have hrun := eq_ok_of_toOption hrun
  have hunique : UniqueIds (buildTrees ownedBuild) := by decide +kernel
  have hnames : DistinctNames ownedBuild := by decide +kernel
  have hdefined : Defines (treeOf ownedBuild "a.sol") "Vault" :=
    ⟨owningContract 3 "Vault" [3, 1] [], by decide +kernel, by decide +kernel, rfl⟩
  exact ⟨imported, run, notes, notes', himported, hrun, hunique, hnames,
    ofBuild_sameLayout himported hrun hunique hnames
      (c := ⟨"a.sol", "Vault", owningCompiled 2⟩) (List.mem_cons_of_mem _ List.mem_cons_self)
      (by decide +kernel) hdefined⟩

/-! ## Colliding names -/

/-- A build of two contracts with the qualified name `a:b:c`, only one of which is defined in a tree. -/
def collidingBuild : Json :=
  buildWith "a" [owningContract 1 "b:c" [1] [ownerVariable 2]]
    (.obj [("a", .obj [("b:c", owningCompiled 2)]), ("a:b", .obj [("c", owningCompiled 2)])])

/-- The contract that is defined has a layout alone, but not in a run. -/
theorem not_sameLayout_colliding : ∃ imported run notes notes', ∃ c ∈ compiledContracts collidingBuild,
    Import.layouts collidingBuild = .ok (imported, notes) ∧
      ValidationRun.ofBuild collidingBuild = .ok (run, notes') ∧
      UniqueIds (buildTrees collidingBuild) ∧ c.data.field "storageLayout" ≠ .null ∧
      Defines (treeOf collidingBuild c.source) c.name ∧ ¬ SameLayout imported run c.key := by
  have hlayouts : (Import.layouts collidingBuild).toOption.isSome = true := by decide +kernel
  have hofBuild : ((ValidationRun.ofBuild collidingBuild).toOption.map fun r =>
      (r.1.lookup "a:b:c").map (·.layout.isNone)) = some (some true) := by decide +kernel
  obtain ⟨⟨imported, notes⟩, himported⟩ := Option.isSome_iff_exists.mp hlayouts
  obtain ⟨⟨run, notes'⟩, hrun, hnone⟩ := Option.map_eq_some_iff.mp hofBuild
  obtain ⟨record, hrecord, hlayout⟩ := Option.map_eq_some_iff.mp hnone
  have hdefined : Defines (treeOf collidingBuild "a") "b:c" :=
    ⟨owningContract 1 "b:c" [1] [ownerVariable 2], by decide +kernel, by decide +kernel, rfl⟩
  refine ⟨imported, run, notes, notes', ⟨"a", "b:c", owningCompiled 2⟩, List.mem_cons_self,
    eq_ok_of_toOption himported, eq_ok_of_toOption hrun, by decide +kernel, by decide +kernel, hdefined,
    ?_⟩
  rintro ⟨layout, record', -, hrecord', hsome⟩
  obtain rfl : record' = record := Option.some.inj (hrecord'.symm.trans hrecord)
  rw [hsome] at hlayout
  cases hlayout

end UpgradeSafety
