import UpgradeSafety.Proofs.Validation.Agreement
import UpgradeSafety.Proofs.Validation.Parts

/-!
# The order of source files and contracts

A build is validated alike in whatever order its source files and contracts are listed
(`ofBuild_relisted`), and bases and libraries are found wherever they are listed. This holds if no
node has a list or an object for its type, every contract has an id, and no two compiled contracts
have the same qualified name. Without these conditions it may be a matter of order whether a build
is validated, and what is known of a contract (`not_validatedAlike_relisted`).

A run is a list of parts, one for each source file, which are put together and completed. The part
of a source file does not depend on the others, nor on the order of its own contracts beyond the
order in which they are known; and what is put together of parts in another order is the same for
every contract. So the stages of a run are followed from one listing to the other
(`stages_relisted`), and since listings can be exchanged it is enough to go in one direction.
-/

namespace UpgradeSafety

open Syntax

theorem isTidy_of_mem_buildTrees {v tree : Json} (h : v.IsTidy) (htree : tree ∈ buildTrees v) :
    tree.IsTidy := by
  obtain ⟨source, hsource, hast⟩ := List.mem_filterMap.mp htree
  exact (isTidy_of_mem_fieldsOf ((h.field "output").field "sources") hsource).field? hast

namespace ValidationRun

variable {v v' : Json} {build : Import.Build} {sources : Sources} {bySource : Fields} {p p' : Progress}

/-- A source file is taken up alike if it has the same tree and places have the same names. -/
theorem takeSource_congr {output : Json} {locate locate' : Locate}
    (htree : ∀ source, Import.Build.tree { build with output } source = build.tree source)
    (hlocate : locate' = locate) (p : Progress) (source : String) (contracts : Json) :
    takeSource { build with output } locate' p source contracts =
      takeSource build locate p source contracts := by
  subst hlocate
  unfold takeSource
  rw [htree]
  rfl

/-- The part of a source file does not depend on how its contracts are listed. -/
theorem exists_takeSource_of_listed {trees : List Json} {locate : Locate} {source : String}
    {contracts contracts' : Json} (hlisted : Listed Eq contracts contracts') (htidy : contracts.IsTidy)
    (hp : Gives trees (takeSource build locate {} source contracts) p) :
    ∃ q, Gives trees (takeSource build locate {} source contracts') q ∧ p.Alike q := by
  cases hlisted with
  | same => exact ⟨p, hp, .refl _, .refl _, .refl _, .refl _⟩
  | fields hperm hvalues =>
    obtain rfl := matched_eq hvalues
    exact exists_takeSource_of_perm (Json.isTidy_obj.mp htidy).1 hperm hp

/-- A build that is listed in another order goes through the stages of its run with the same known. -/
theorem stages_relisted (h : Relisted v v') (htidy : v.IsTidy) (horderly : Orderly (buildTrees v))
    (hids : UniqueSourceIds v) (hnames : DistinctNames v) (hs : Stages v build sources bySource p) :
    ∃ build' sources' bySource' p', Stages v' build' sources' bySource' p' ∧ p.Alike p' := by
  have htrees := h.buildTrees_perm
  have horderly' := horderly.perm (fun _ => isTidy_of_mem_buildTrees htidy) htrees
  obtain ⟨output, houtput, hbuilt⟩ := h.exists_ofJson hs.built
  obtain ⟨nodes', hread⟩ := houtput.exists_read hs.read
  obtain rfl := ofCompilation_eq hbuilt hread
  obtain ⟨sources', hlocated, hlocate⟩ := houtput.exists_located hs.built hids hs.located
  obtain ⟨field, hfield, hbySource⟩ := hs.listed
  obtain ⟨field', hfield', hlisted⟩ := houtput.exists_getOr houtput.contracts hfield
  obtain ⟨mid, bySource', hbySource', hperm, hmatched⟩ := hlisted.exists_entries .same hbySource
  have htidyOutput : build.output.IsTidy := output_ofJson hs.built ▸ htidy.field "output"
  have htake := takeSource_congr (houtput.tree_eq htidyOutput) hlocate
  have hkeys : ((bySource.flatMap compiledIn).map Compiled.key).Nodup := hs.bySource_eq ▸ hnames
  have hkeys' : ((bySource'.flatMap compiledIn).map Compiled.key).Nodup := by
    have heq : bySource' = fieldsOf ((v'.field "output").field "contracts") :=
      output_ofJson hbuilt ▸ entries_getOr hfield' hbySource'
    exact heq ▸ h.distinctNames hnames
  -- the parts of the source files, in the order of the other build
  obtain ⟨parts, hparts, rfl⟩ :=
    (gives_takeSources_iff horderly hkeys fun c _ => .empty c.key).mp hs.gives
  obtain ⟨listed, hlistedParts, hpartsPerm⟩ := List.perm_comp_forall₂ hperm.symm hparts
  obtain ⟨parts', hparts', halike⟩ : ∃ parts', List.Forall₂ (fun source part => Gives (buildTrees v')
        (takeSource { build with output } sources'.locate {} source.1 source.2) part) bySource' parts' ∧
      List.Forall₂ Progress.Alike listed parts' := by
    refine exists_forall₂_of_common hlistedParts hmatched fun source hsource part source' hpart hsame => ?_
    obtain ⟨hname, hcontracts⟩ := hsame
    have htidySource := isTidy_of_mem_fieldsOf ((htidy.field "output").field "contracts")
      (hs.bySource_eq ▸ hperm.mem_iff.mpr hsource)
    obtain ⟨part', hpart', halike⟩ := exists_takeSource_of_listed hcontracts htidySource hpart
    refine ⟨part', ?_, halike⟩
    rw [htake, ← hname]
    exact hpart'.perm horderly htrees (reads_takeSource _ _ _)
  have halike := alike_of_parts hpartsPerm.symm halike {}
  have hgives := (gives_takeSources_iff horderly' (p := {}) hkeys' fun c _ => .empty c.key).mpr
    ⟨parts', hparts', rfl⟩
  obtain ⟨nodes', htaken⟩ := hgives.exists_run horderly'
    (.foldlM (fun p (source : String × Json) => reads_takeSource p source.1 source.2) _ _)
  exact ⟨_, sources', bySource', _, ⟨hbuilt, hread, hlocated, ⟨field', hfield', hbySource'⟩,
    ⟨nodes', htaken⟩, fun e he => hs.bases e (halike.bases.mem_iff.mpr he),
    fun e he => hs.libraries e (halike.libraries.mem_iff.mpr he)⟩, halike⟩

/-- What is known alike at the end of two runs is known alike when names are entered. -/
theorem lookup_resolved_of_alike (h : p.Alike p') (hp : p.Keyed) (hp' : p'.Keyed)
    (hnames : Unambiguous p.references.names)
    (hbases : ∀ e ∈ p.references.bases, ∀ id ∈ e.2, id.hashable = true)
    (hlibraries : ∀ e ∈ p.references.libraries, ∀ id ∈ e.2, id.hashable = true) (key : String) :
    p.resolved.lookup key = p'.resolved.lookup key := by
  have hresolve {references references' : List (String × List Json)}
      (hperm : references.Perm references') (hkeys : (references.map (·.1)).Nodup)
      (hids : ∀ e ∈ references, ∀ id ∈ e.2, id.hashable = true) :
      (references.lookup key).map (namesOf p.references.names) =
        (references'.lookup key).map (namesOf p'.references.names) := by
    rw [← lookup_perm hperm hkeys key]
    cases hlookup : references.lookup key with
    | none => rfl
    | some ids =>
      exact congrArg some (hnames.namesOf_perm h.names (hids _ (mem_of_lookup_eq_some hlookup)))
  rw [lookup_progress_resolved hp, lookup_progress_resolved hp', lookup_perm h.run hp.run key,
    hresolve h.bases hp.bases hbases, hresolve h.libraries hp.libraries hlibraries]

end ValidationRun

/-- The same is known of every contract. -/
def SameRecords (r r' : ValidationRun × List Log.Record) : Prop :=
  ∀ key, r.1.lookup key = r'.1.lookup key

/-- A build that is validated is validated alike when it is listed in another order. -/
theorem ValidationRun.exists_ofBuild_relisted {v v' : Json} {r : ValidationRun × List Log.Record}
    (h : Relisted v v') (htidy : v.IsTidy) (horderly : Orderly (buildTrees v))
    (hids : UniqueSourceIds v) (hnames : DistinctNames v) (hr : ofBuild v = .ok r) :
    ∃ r', ofBuild v' = .ok r' ∧ SameRecords r r' := by
  obtain ⟨build, sources, bySource, p, hs, hrun, -⟩ := ofBuild_eq_ok_iff.mp hr
  obtain ⟨build', sources', bySource', p', hs', halike⟩ :=
    stages_relisted h htidy horderly hids hnames hs
  refine ⟨(p'.resolved, [note build' p'.resolved]), ofBuild_eq_ok_iff.mpr
    ⟨build', sources', bySource', p', hs', rfl, rfl⟩, fun key => ?_⟩
  have hunambiguous : Unambiguous p.references.names := by
    rw [hs.names_eq]
    exact (unambiguous_definitionNames horderly).perm (List.reverse_perm _).symm
  rw [hrun]
  exact lookup_resolved_of_alike halike hs.keyed hs'.keyed hunambiguous hs.bases hs.libraries key

/-- The bases and the libraries of a contract are those that its definition refers to, among the definitions
of all source files. -/
def NamesReferences (v definition : Json) (record : ContractRecord) : Prop :=
  ∃ bases libraries, ValidationRun.baseIds definition = .ok bases ∧
    ValidationRun.libraryIds definition = .ok libraries ∧
    record.bases = ValidationRun.namesOf (ValidationRun.definitionNames v) bases ∧
    record.libraries = ValidationRun.namesOf (ValidationRun.definitionNames v) libraries

/-- Two builds are validated alike: both are refused, or the same is known of every contract. -/
def ValidatedAlike (v v' : Json) : Prop :=
  Option.Rel SameRecords (ValidationRun.ofBuild v).toOption (ValidationRun.ofBuild v').toOption

/-- A build in two orders. Different nodes have different ids, and so have different source files. -/
structure TwoListings (v v' : Json) : Prop where
  relisted : Relisted v v'
  tidy : v.IsTidy
  tidy' : v'.IsTidy
  uniqueIds : UniqueIds (buildTrees v)
  uniqueSourceIds : UniqueSourceIds v

/-- The order in which source files and contracts are listed does not count: a build is validated in one order
exactly if it is in another, and then the same is known of every contract. Bases and libraries are found
wherever they are listed. -/
theorem ofBuild_relisted {v v' : Json} (h : TwoListings v v') (horderly : Orderly (buildTrees v))
    (hnames : DistinctNames v) :
    ValidatedAlike v v' ∧
      ∀ run notes, ValidationRun.ofBuild v = .ok (run, notes) → ∀ c ∈ compiledContracts v,
        c.data ≠ .null → ∀ d, definitionIn? (treeOf v c.source) c.name = some d →
          ∃ record, run.lookup c.key = some record ∧ NamesReferences v d record := by
  obtain ⟨hrelisted, htidy, htidy', -, hids⟩ := h
  constructor
  · unfold ValidatedAlike
    cases hr : ValidationRun.ofBuild v with
    | ok r =>
      obtain ⟨r', hr', hsame⟩ :=
        ValidationRun.exists_ofBuild_relisted hrelisted htidy horderly hids hnames hr
      rw [hr']
      exact .some hsame
    | error e =>
      cases hr' : ValidationRun.ofBuild v' with
      | ok r' =>
        obtain ⟨r, hok, -⟩ := ValidationRun.exists_ofBuild_relisted hrelisted.symm htidy'
          (horderly.perm (fun _ => isTidy_of_mem_buildTrees htidy) hrelisted.buildTrees_perm)
          (hrelisted.uniqueSourceIds htidy hids) (hrelisted.distinctNames hnames) hr'
        rw [hr] at hok
        cases hok
      | error e' => exact .none
  · intro run notes hrun c hc hdata d hd
    obtain ⟨build, sources, record, bases, libraries, -, -, hcompletes, hhashable, hlookup⟩ :=
      ValidationRun.describes_ofBuild hrun horderly.unique hnames hc hdata hd
    rw [List.forall_mem_append] at hhashable
    have hreverse {ids : List Json} (hids : ∀ id ∈ ids, id.hashable = true) :=
      (unambiguous_definitionNames horderly).namesOf_perm (List.reverse_perm _).symm hids
    exact ⟨_, hlookup, bases, libraries, hcompletes.bases, hcompletes.libraries,
      (hreverse hhashable.1).symm, (hreverse hhashable.2).symm⟩

/-! ## A base that is listed later -/

/-- The entry of a source file with some contracts in its tree. -/
def treeEntry (id : Int) (contracts : List Json) : Json :=
  .obj [("id", .int id), ("ast", .obj [("nodeType", .str "SourceUnit"), ("nodes", .arr contracts)])]

/-- A build with several trees. All places are in one source file. -/
def buildOf (source : String) (trees compiled : Fields) : Json :=
  .obj [("input", .obj [("sources", .obj [(source, .obj [("content", .str "")])])]),
    ("output", .obj [("sources", .obj trees), ("contracts", .obj compiled)])]

instance (v : Json) : Decidable (UniqueSourceIds v) :=
  inferInstanceAs (Decidable (List.Pairwise _ _))

section

variable {source : String} {trees trees' compiled compiled' : Fields} (htrees : trees.Perm trees')
  (hcompiled : compiled.Perm compiled')
include htrees hcompiled

theorem relisted_buildOf :
    Relisted (buildOf source trees compiled) (buildOf source trees' compiled') where
  input := rfl
  solcVersion := rfl
  output := .some {
    sort := ⟨fun _ => ⟨_, rfl⟩, fun _ => ⟨_, rfl⟩⟩
    sources := .some (.fields htrees (matched_refl (fun _ => rfl) _))
    contracts := .some (.fields hcompiled (matched_refl .same _)) }

theorem isTidy_buildOf_perm (h : (buildOf source trees compiled).IsTidy) :
    (buildOf source trees' compiled').IsTidy := by
  have hfields {fs gs : Fields} (hperm : fs.Perm gs) (h : (Json.obj fs).IsTidy) :
      (Json.obj gs).IsTidy :=
    Json.isTidy_obj.mpr ⟨(hperm.map _).nodup_iff.mp (Json.isTidy_obj.mp h).1,
      fun f hf => (Json.isTidy_obj.mp h).2 f (hperm.mem_iff.mpr hf)⟩
  have hbuild (t c : Fields) :
      (buildOf source t c).IsTidy ↔ (Json.obj t).IsTidy ∧ (Json.obj c).IsTidy := by
    simp [buildOf, Json.IsTidy, Json.FieldsAreTidy]
  exact (hbuild _ _).mpr (((hbuild _ _).mp h).imp (hfields htrees) (hfields hcompiled))

theorem twoListings_buildOf (htidy : (buildOf source trees compiled).IsTidy)
    (hunique : UniqueIds (buildTrees (buildOf source trees compiled)))
    (hids : UniqueSourceIds (buildOf source trees compiled)) :
    TwoListings (buildOf source trees compiled) (buildOf source trees' compiled') :=
  ⟨relisted_buildOf htrees hcompiled, htidy, isTidy_buildOf_perm htrees hcompiled htidy, hunique, hids⟩

end

/-- A contract that inherits from others. -/
def vaultDefinition (bases : List Json) : Json :=
  .obj [("nodeType", .str "ContractDefinition"), ("id", .int 3), ("name", .str "Vault"),
    ("src", .str "0:1:0"), ("linearizedBaseContracts", .arr (.int 3 :: bases))]

/-- The source file of a contract that inherits from others. -/
def vaultTree (bases : List Json) : String × Json := ("a.sol", treeEntry 0 [vaultDefinition bases])

/-- The source file of a contract with a variable. -/
def ownedTree : String × Json :=
  ("b.sol", treeEntry 1 [owningContract 1 "Owned" [1] [ownerVariable 2]])

def vaultContracts : String × Json := ("a.sol", .obj [("Vault", owningCompiled 2)])

def ownedContracts : String × Json := ("b.sol", .obj [("Owned", owningCompiled 2)])

/-- A contract is listed before its base. -/
def vaultFirst : Json :=
  buildOf "a.sol" [vaultTree [.int 1], ownedTree] [vaultContracts, ownedContracts]

/-- A contract is listed behind its base. -/
def vaultLast : Json :=
  buildOf "a.sol" [ownedTree, vaultTree [.int 1]] [ownedContracts, vaultContracts]

theorem twoListings_owned : TwoListings vaultFirst vaultLast := by
  refine twoListings_buildOf (.swap _ _ _) (.swap _ _ _) ?_ (by decide +kernel) (by decide +kernel)
  simp [buildOf, vaultTree, vaultDefinition, ownedTree, vaultContracts, ownedContracts, treeEntry,
    owningContract, ownerVariable, owningCompiled, Json.IsTidy, Json.areTidy_iff, Json.fieldsAreTidy_iff]

theorem ofBuild_relisted_owned : ∃ run run' notes notes' record,
    ValidationRun.ofBuild vaultFirst = .ok (run, notes) ∧
      ValidationRun.ofBuild vaultLast = .ok (run', notes') ∧ SameRecords (run, notes) (run', notes') ∧
      run.lookup "a.sol:Vault" = some record ∧ record.bases = ["b.sol:Owned"] := by
  obtain ⟨halike, hrefers⟩ :=
    ofBuild_relisted twoListings_owned (by decide +kernel) (by decide +kernel)
  have hok : (ValidationRun.ofBuild vaultFirst).toOption.isSome = true := by decide +kernel
  obtain ⟨⟨run, notes⟩, hrun⟩ := Option.isSome_iff_exists.mp hok
  unfold ValidatedAlike at halike
  rw [hrun] at halike
  obtain ⟨⟨run', notes'⟩, hrun', hsame⟩ := exists_of_rel_some halike
  have hrun := eq_ok_of_toOption hrun
  obtain ⟨record, hrecord, bases, libraries, hbases, -, hnamed, -⟩ := hrefers run notes hrun
    ⟨"a.sol", "Vault", owningCompiled 2⟩ List.mem_cons_self (by decide +kernel)
    (vaultDefinition [.int 1]) (by decide +kernel)
  have hids : ValidationRun.baseIds (vaultDefinition [.int 1]) = .ok [.int 1] :=
    eq_ok_of_toOption (by decide +kernel)
  obtain rfl : bases = [.int 1] := Except.ok.inj (hbases.symm.trans hids)
  exact ⟨run, run', notes, notes', record, hrun, eq_ok_of_toOption hrun', hsame, hrecord,
    hnamed.trans (by decide +kernel)⟩

/-! ## Where the order counts -/

/-- What is known of a contract is known in both runs. -/
theorem ValidatedAlike.map_eq {v v' : Json} {α : Type} (h : ValidatedAlike v v') (key : String)
    (f : ContractRecord → α) :
    (ValidationRun.ofBuild v).toOption.map (fun r => (r.1.lookup key).map f) =
      (ValidationRun.ofBuild v').toOption.map fun r => (r.1.lookup key).map f := by
  unfold ValidatedAlike at h
  generalize (ValidationRun.ofBuild v).toOption = x at h ⊢
  generalize (ValidationRun.ofBuild v').toOption = y at h ⊢
  cases h with
  | none => rfl
  | some hsame => exact congrArg (fun o : Option ContractRecord => some (o.map f)) (hsame key)

/-- The source file of a contract with the name `b:c`. -/
def colonTree : String × Json :=
  ("a", treeEntry 0 [owningContract 1 "b:c" [1] [ownerVariable 2]])

def colonContracts : String × Json := ("a", .obj [("b:c", owningCompiled 2)])

/-- The contracts of a source file with the name `a:b`, which has no tree. -/
def treelessContracts : String × Json := ("a:b", .obj [("c", owningCompiled 2)])

/-- Two contracts have the qualified name `a:b:c`, and the one with a tree is listed last. -/
def colonLast : Json := buildOf "a" [colonTree] [treelessContracts, colonContracts]

def colonFirst : Json := buildOf "a" [colonTree] [colonContracts, treelessContracts]

/-- A tree that has a list for its type. -/
def listTypedTree : String × Json :=
  ("c.sol", .obj [("id", .int 2), ("ast", .obj [("nodeType", .arr [])])])

/-- A tree that has a list for its type is listed behind the tree of a base. -/
def listTypedLast : Json :=
  buildOf "a.sol" [vaultTree [.int 1], ownedTree, listTypedTree] [vaultContracts]

def listTypedFirst : Json :=
  buildOf "a.sol" [vaultTree [.int 1], listTypedTree, ownedTree] [vaultContracts]

/-- The source file of a contract without an id. -/
def unnumberedTree (id : Int) (source : String) (nodes : List Json) : String × Json :=
  (source, treeEntry id [.obj [("nodeType", .str "ContractDefinition"), ("name", .str "Owned"),
    ("nodes", .arr nodes)]])

/-- Of two contracts without an id the first is taken for a base, and it has a variable. -/
def unnumberedFirst : Json :=
  buildOf "a.sol" [vaultTree [.null], unnumberedTree 1 "b.sol" [ownerVariable 2], unnumberedTree 2 "c.sol" []]
    [vaultContracts]

def unnumberedLast : Json :=
  buildOf "a.sol" [vaultTree [.null], unnumberedTree 2 "c.sol" [], unnumberedTree 1 "b.sol" [ownerVariable 2]]
    [vaultContracts]

theorem twoListings_colon : TwoListings colonLast colonFirst := by
  refine twoListings_buildOf (.refl _) (.swap _ _ _) ?_ (by decide +kernel) (by decide +kernel)
  simp [buildOf, colonTree, colonContracts, treelessContracts, treeEntry, owningContract, ownerVariable,
    owningCompiled, Json.IsTidy, Json.areTidy_iff, Json.fieldsAreTidy_iff]

theorem twoListings_listTyped : TwoListings listTypedLast listTypedFirst := by
  refine twoListings_buildOf (.cons _ (.swap _ _ _)) (.refl _) ?_ (by decide +kernel) (by decide +kernel)
  simp [buildOf, vaultTree, vaultDefinition, ownedTree, listTypedTree, vaultContracts, treeEntry,
    owningContract, ownerVariable, owningCompiled, Json.IsTidy, Json.areTidy_iff, Json.fieldsAreTidy_iff]

theorem twoListings_unnumbered : TwoListings unnumberedFirst unnumberedLast := by
  refine twoListings_buildOf (.cons _ (.swap _ _ _)) (.refl _) ?_ (by decide +kernel) (by decide +kernel)
  simp [buildOf, vaultTree, vaultDefinition, unnumberedTree, vaultContracts, treeEntry, ownerVariable,
    owningCompiled, Json.IsTidy, Json.areTidy_iff, Json.fieldsAreTidy_iff]

/-- The order counts if two contracts have the same qualified name, if a node has a list for its type, and if
contracts have no ids. -/
theorem not_validatedAlike_relisted :
    (TwoListings colonLast colonFirst ∧ ¬ ValidatedAlike colonLast colonFirst) ∧
      (TwoListings listTypedLast listTypedFirst ∧ ¬ ValidatedAlike listTypedLast listTypedFirst) ∧
      TwoListings unnumberedFirst unnumberedLast ∧ ¬ ValidatedAlike unnumberedFirst unnumberedLast := by
  refine ⟨⟨twoListings_colon, fun h => ?_⟩, ⟨twoListings_listTyped, fun h => ?_⟩,
    twoListings_unnumbered, fun h => ?_⟩
  · exact absurd (h.map_eq "a:b:c" (·.layout.isSome)) (by decide +kernel)
  · exact absurd (h.map_eq "a.sol:Vault" (·.layout.isSome)) (by decide +kernel)
  · exact absurd (h.map_eq "a.sol:Vault" (·.layout.isSome)) (by decide +kernel)

end UpgradeSafety
