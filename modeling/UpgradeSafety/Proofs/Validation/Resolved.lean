import UpgradeSafety.Proofs.Validation.Sources

/-!
# Completed runs

A run is built in stages (`Stages`): when all source files were taken up, the ids of bases and
libraries are replaced by the qualified names of their contracts. By then the ids of all
definitions are known, so a base or a library is found wherever its source file is listed
(`describes_ofBuild`).

For a contract a completed run records the layout of its last definition in the tree of its source
file (`ValidationRun.holdsImport_ofBuild`), if no two contracts of the build have the same
qualified name.

The names of ids are a list in the order in which definitions were met, and an id is searched in it
from the front. So the name that is found depends on the order only if one id belongs to contracts
of different names (`Unambiguous`), which cannot be where no two nodes have the same id. Entering
the names changes nothing else in a record (`lookup_resolved`).
-/

namespace UpgradeSafety

open Syntax

namespace ValidationRun

variable {v : Json} {build : Import.Build} {sources : Sources} {bySource : Fields}
  {names : List (Json × String)} {ids : List Json} {found : List String} {key : String}
  {set : List String → ContractRecord → ContractRecord} {references : List (String × List Json)}
  {run run' : ValidationRun} {notes : List Log.Record} {p : Progress}

/-! ## Resolving ids -/

/-- The names that are known of ids. -/
def namesOf (names : List (Json × String)) (ids : List Json) : List String :=
  ids.filterMap fun id => (names.find? fun e => e.1.same id).map (·.2)

theorem resolveIds_eq_ok_iff :
    resolveIds names ids = .ok found ↔
      (∀ id ∈ ids, id.hashable = true) ∧ found = namesOf names ids := by
  unfold resolveIds namesOf
  induction ids generalizing found with
  | nil =>
    rw [List.filterMapM_nil]
    exact ⟨fun h => ⟨by simp, (Except.ok.inj h).symm⟩, fun h => by rw [h.2]; rfl⟩
  | cons id ids ih =>
    rw [List.filterMapM_cons, List.forall_mem_cons, List.filterMap_cons]
    by_cases hid : id.hashable = true
    · rw [if_pos hid, pure_bind]
      cases (names.find? fun e => e.1.same id).map (·.2) with
      | none => rw [ih, and_iff_right hid]
      | some name =>
        dsimp only
        rw [bind_eq_ok_iff, and_iff_right hid]
        constructor
        · rintro ⟨rest, hrest, hfound⟩
          obtain ⟨hids, rfl⟩ := ih.mp hrest
          exact ⟨hids, (Except.ok.inj hfound).symm⟩
        · rintro ⟨hids, rfl⟩
          exact ⟨_, ih.mpr ⟨hids, rfl⟩, rfl⟩
    · rw [if_neg hid]
      exact ⟨fun h => (by cases h), fun h => absurd h.1.1 hid⟩

/-- Enters the names of what contracts refer to. -/
def resolved (names : List (Json × String)) (set : List String → ContractRecord → ContractRecord)
    (references : List (String × List Json)) (run : ValidationRun) : ValidationRun :=
  references.foldl (fun run reference => run.map fun e =>
    (e.1, if e.1 == reference.1 then set (namesOf names reference.2) e.2 else e.2)) run

theorem resolveAll_eq_ok_iff :
    resolveAll names set references run = .ok run' ↔
      (∀ reference ∈ references, ∀ id ∈ reference.2, id.hashable = true) ∧
        run' = resolved names set references run := by
  unfold resolveAll resolved
  induction references generalizing run with
  | nil => exact ⟨fun h => ⟨by simp, (Except.ok.inj h).symm⟩, fun h => by rw [h.2]; rfl⟩
  | cons reference references ih =>
    rw [List.foldlM_cons, List.forall_mem_cons, List.foldl_cons, bind_eq_ok_iff]
    constructor
    · rintro ⟨next, hnext, h⟩
      obtain ⟨found, hfound, hnext⟩ := bind_eq_ok_iff.mp hnext
      obtain ⟨hids, rfl⟩ := resolveIds_eq_ok_iff.mp hfound
      cases hnext
      obtain ⟨hrest, rfl⟩ := ih.mp h
      exact ⟨⟨hids, hrest⟩, rfl⟩
    · rintro ⟨⟨hids, hrest⟩, rfl⟩
      exact ⟨_, bind_eq_ok_iff.mpr ⟨_, resolveIds_eq_ok_iff.mpr ⟨hids, rfl⟩, rfl⟩, ih.mpr ⟨hrest, rfl⟩⟩

/-- What a contract refers to is entered into its own record only. -/
theorem lookup_resolved (hkeys : (references.map (·.1)).Nodup) (key : String) :
    (resolved names set references run).lookup key = (run.lookup key).map fun record =>
      match references.lookup key with
      | some ids => set (namesOf names ids) record
      | none => record := by
  unfold resolved
  induction references generalizing run with
  | nil => simp
  | cons reference references ih =>
    obtain ⟨k, ids⟩ := reference
    rw [List.map_cons, List.nodup_cons] at hkeys
    rw [List.foldl_cons, ih hkeys.2, lookup_map_entry
      (fun key record => if key == k then set (namesOf names ids) record else record), Option.map_map]
    refine congrArg (Option.map · _) (funext fun record => ?_)
    by_cases hk : key = k
    · subst hk
      rw [List.lookup_cons_self]
      simp [lookup_eq_none_iff_not_mem.mpr hkeys.1]
    · rw [lookup_cons_other hk]
      simp [hk]

/-! ## Stages -/

/-- The stages in which the run of a build comes about. -/
structure Stages (v : Json) (build : Import.Build) (sources : Sources) (bySource : Fields)
    (p : Progress) : Prop where
  built : Import.Build.ofJson v = .ok build
  read : Nodes.ofCompilation build.output = .ok ⟨buildTrees v, []⟩
  located : Sources.ofCompilation build.input build.output = .ok sources
  listed : ∃ field, build.output.getOr "contracts" (.obj []) = .ok field ∧
    field.entries = .ok bySource
  taken : ∃ nodes, (bySource.foldlM
    (fun p source => takeSource build sources.locate p source.1 source.2) {}).run ⟨buildTrees v, []⟩ =
      .ok (p, nodes)
  bases : ∀ e ∈ p.references.bases, ∀ id ∈ e.2, id.hashable = true
  libraries : ∀ e ∈ p.references.libraries, ∀ id ∈ e.2, id.hashable = true

/-- The run when all source files were taken up. -/
def Progress.resolved (p : Progress) : ValidationRun :=
  ValidationRun.resolved p.references.names (fun found r => { r with libraries := found })
    p.references.libraries
    (ValidationRun.resolved p.references.names (fun found r => { r with bases := found })
      p.references.bases p.run)

theorem ofBuild_eq_ok_iff :
    ofBuild v = .ok (run, notes) ↔ ∃ build sources bySource p,
      Stages v build sources bySource p ∧ run = p.resolved ∧ notes = [note build run] := by
  unfold ofBuild
  simp only [bind_eq_ok_iff, resolveAll_eq_ok_iff]
  constructor
  · rintro ⟨build, hbuild, nodes, hnodes, sources, hsources, field, hfield, bySource, hbySource,
      ⟨p, nodes'⟩, htaken, based, ⟨hbases, rfl⟩, _, ⟨hlibraries, rfl⟩, h⟩
    obtain rfl := ofCompilation_eq hbuild hnodes
    cases h
    exact ⟨build, sources, bySource, p, ⟨hbuild, hnodes, hsources, ⟨field, hfield, hbySource⟩,
      ⟨nodes', htaken⟩, hbases, hlibraries⟩, rfl, rfl⟩
  · rintro ⟨build, sources, bySource, p, h, rfl, rfl⟩
    obtain ⟨field, hfield, hbySource⟩ := h.listed
    obtain ⟨nodes', htaken⟩ := h.taken
    exact ⟨build, h.built, _, h.read, sources, h.located, field, hfield, bySource, hbySource,
      (p, nodes'), htaken, _, ⟨h.bases, rfl⟩, _, ⟨h.libraries, rfl⟩, rfl⟩

namespace Stages

variable (h : Stages v build sources bySource p)
include h

theorem bySource_eq : bySource = fieldsOf ((v.field "output").field "contracts") := by
  obtain ⟨field, hfield, hbySource⟩ := h.listed
  rw [output_ofJson h.built] at hfield
  exact entries_getOr hfield hbySource

theorem gives : Gives (buildTrees v) (bySource.foldlM
    (fun p source => takeSource build sources.locate p source.1 source.2) {}) p := by
  obtain ⟨nodes', htaken⟩ := h.taken
  exact gives_of_run htaken

theorem keyed : p.Keyed :=
  h.gives.yields (Yields.foldlM (fun _ _ _ hq => yields_takeSource_keyed hq)
    ⟨List.nodup_nil, List.nodup_nil, List.nodup_nil⟩)

end Stages

/-- The ids of the contract definitions in the trees of the source files with compiled contracts, with
their qualified names. -/
def definitionNames (v : Json) : List (Json × String) :=
  (fieldsOf ((v.field "output").field "contracts")).flatMap fun source =>
    (contractsIn (treeOf v source.1)).map (nameEntry source.1)

theorem Stages.names_eq (h : Stages v build sources bySource p) :
    p.references.names = (definitionNames v).reverse := by
  have hfold (l : Fields) (q : Progress) :
      Yields (l.foldlM (fun p source => takeSource build sources.locate p source.1 source.2) q)
        fun p => p.references.names = (l.flatMap fun source =>
          (contractsIn (treeOf v source.1)).map (nameEntry source.1)).reverse ++ q.references.names := by
    induction l generalizing q with
    | nil => exact .pure rfl
    | cons source l ih =>
      rw [List.foldlM_cons]
      refine .bind (yields_takeSource_names h.built q) fun q' hq' => (ih q').imp fun p' hp' => ?_
      rw [hp', hq', List.flatMap_cons, List.reverse_append, List.append_assoc]
  rw [h.gives.yields (hfold bySource {}), List.append_nil, definitionNames, h.bySource_eq]

theorem lookup_progress_resolved (hp : p.Keyed) (key : String) :
    p.resolved.lookup key = (p.run.lookup key).map fun record =>
      { record with
        bases := ((p.references.bases.lookup key).map (namesOf p.references.names)).getD record.bases
        libraries := ((p.references.libraries.lookup key).map
          (namesOf p.references.names)).getD record.libraries } := by
  unfold Progress.resolved
  rw [lookup_resolved hp.libraries, lookup_resolved hp.bases, Option.map_map]
  refine congrArg (Option.map · _) (funext fun record => ?_)
  cases p.references.bases.lookup key <;> cases p.references.libraries.lookup key <;> rfl

/-- A fact about a run that can be computed. -/
theorem exists_ofBuild_of_any {P : ValidationRun → Prop} [DecidablePred P]
    (h : ((ofBuild v).toOption.any fun r => decide (P r.1)) = true) :
    ∃ run notes, ofBuild v = .ok (run, notes) ∧ P run := by
  obtain ⟨⟨run, notes⟩, hrun, hP⟩ := (Option.any_eq_true _ _).mp h
  exact ⟨run, notes, eq_ok_of_toOption hrun, of_decide_eq_true hP⟩

end ValidationRun

/-! ## The names of ids -/

/-- No id belongs to contracts of different names. -/
def Unambiguous (names : List (Json × String)) : Prop :=
  ∀ e ∈ names, ∀ f ∈ names, ∀ id : Json, id.hashable = true → e.1.same id = true →
    f.1.same id = true → e.2 = f.2

namespace Unambiguous

variable {names names' : List (Json × String)} {ids : List Json} {id : Json} {key : String}
  (h : Unambiguous names)
include h

theorem find_eq_some_iff (hid : id.hashable = true) :
    (names.find? fun e => e.1.same id).map (·.2) = some key ↔
      ∃ e ∈ names, e.1.same id = true ∧ e.2 = key := by
  constructor
  · intro hfind
    obtain ⟨e, he, rfl⟩ := Option.map_eq_some_iff.mp hfind
    exact ⟨e, List.mem_of_find?_eq_some he,
      List.find?_some (p := fun e : Json × String => e.1.same id) he, rfl⟩
  · rintro ⟨e, he, hsame, rfl⟩
    obtain ⟨f, hf⟩ := Option.isSome_iff_exists.mp
      (List.find?_isSome (p := fun e : Json × String => e.1.same id).mpr ⟨e, he, hsame⟩)
    rw [hf, Option.map_some, Option.some.injEq]
    exact h f (List.mem_of_find?_eq_some hf) e he id hid
      (List.find?_some (p := fun e : Json × String => e.1.same id) hf) hsame

theorem mem_namesOf_iff (hids : ∀ id ∈ ids, id.hashable = true) :
    key ∈ ValidationRun.namesOf names ids ↔
      ∃ id ∈ ids, ∃ e ∈ names, e.1.same id = true ∧ e.2 = key := by
  unfold ValidationRun.namesOf
  rw [List.mem_filterMap]
  exact exists_congr fun id => and_congr_right fun hid => h.find_eq_some_iff (hids id hid)

theorem perm (hperm : names.Perm names') : Unambiguous names' :=
  fun e he f hf => h e (hperm.mem_iff.mpr he) f (hperm.mem_iff.mpr hf)

/-- The order in which names are listed does not count. -/
theorem namesOf_perm (hperm : names.Perm names') (hids : ∀ id ∈ ids, id.hashable = true) :
    ValidationRun.namesOf names ids = ValidationRun.namesOf names' ids := by
  unfold ValidationRun.namesOf
  refine List.filterMap_congr fun id hid => Option.ext fun key => ?_
  rw [h.find_eq_some_iff (hids id hid), (h.perm hperm).find_eq_some_iff (hids id hid)]
  exact exists_congr fun e => and_congr_left fun _ => hperm.mem_iff

end Unambiguous

theorem objects_filterMap {α : Type} (g : α → Option Json) (l : List α) :
    objects (l.filterMap g) = l.flatMap fun a => objects (g a).toList := by
  induction l with
  | nil => rfl
  | cons a l ih =>
    rw [List.filterMap_cons, List.flatMap_cons, ← ih]
    cases g a with
    | none => rfl
    | some tree =>
      rw [Option.toList_some, ← objects_append]
      rfl

/-- What is an object of the tree of a source file is one of a tree that is listed under its name. -/
theorem exists_of_mem_treeOf {v d : Json} {source : String} (h : d ∈ objects [treeOf v source]) :
    ∃ w, (source, w) ∈ fieldsOf ((v.field "output").field "sources") ∧
      w.field? "ast" = some (treeOf v source) := by
  unfold treeOf at h ⊢
  generalize (v.field "output").field "sources" = sources at h ⊢
  cases sources with
  | obj fields =>
    rw [Json.field, Json.field] at h ⊢
    cases hsource : fields.lookup source with
    | none =>
      rw [Json.field?, hsource] at h
      cases h
    | some w =>
      rw [Json.field?, hsource] at h ⊢
      refine ⟨w, mem_of_lookup_eq_some hsource, ?_⟩
      cases htree : w.field? "ast" with
      | none =>
        rw [Option.getD_some, htree] at h
        cases h
      | some tree => rw [Option.getD_some, htree, Option.getD_some]
  | null | bool _ | int _ | float _ | str _ | arr _ => cases h

/-- The nodes with an id in the trees of a build, with the names of their source files. -/
def placedNodes (v : Json) : List (String × Json) :=
  (fieldsOf ((v.field "output").field "sources")).flatMap fun source =>
    ((objects (source.2.field? "ast").toList).filter hasId).map fun n => (source.1, n)

theorem map_snd_placedNodes (v : Json) :
    (placedNodes v).map (·.2) = (objects (buildTrees v)).filter hasId := by
  rw [buildTrees, objects_filterMap, List.filter_flatMap, placedNodes, List.map_flatMap]
  simp

/-- Definitions are nodes with an id. -/
theorem mem_placedNodes {v d : Json} {source : String} (h : Orderly (buildTrees v))
    (hd : d ∈ contractsIn (treeOf v source)) : (source, d) ∈ placedNodes v := by
  obtain ⟨hmem, htype⟩ := List.mem_filter.mp hd
  obtain ⟨w, hw, htree⟩ := exists_of_mem_treeOf hmem
  have hobjects : d ∈ objects (w.field? "ast").toList := by rwa [htree]
  have hall : d ∈ objects (buildTrees v) := by
    rw [buildTrees, objects_filterMap]
    exact List.mem_flatMap.mpr ⟨(source, w), hw, hobjects⟩
  have hid : hasId d = true := Bool.and_eq_true_iff.mpr
    ⟨isNode_of_hasType (by decide) htype, bne_iff_ne.mpr (h.named d hall htype)⟩
  exact List.mem_flatMap.mpr ⟨(source, w), hw, List.mem_map.mpr
    ⟨d, List.mem_filter.mpr ⟨hobjects, hid⟩, rfl⟩⟩

/-- Definitions of one id are one definition. -/
theorem unambiguous_definitionNames {v : Json} (h : Orderly (buildTrees v)) :
    Unambiguous (ValidationRun.definitionNames v) := by
  intro e he f hf id hid hsame hsame'
  obtain ⟨s, -, he⟩ := List.mem_flatMap.mp he
  obtain ⟨d, hd, rfl⟩ := List.mem_map.mp he
  obtain ⟨s', -, hf⟩ := List.mem_flatMap.mp hf
  obtain ⟨d', hd', rfl⟩ := List.mem_map.mp hf
  have hunique := h.unique
  rw [UniqueIds, ← map_snd_placedNodes, List.pairwise_map] at hunique
  have heq : (s'.1, d') = (s.1, d) :=
    eq_of_pairwise_differ hunique hid (mem_placedNodes h hd) hsame (mem_placedNodes h hd') hsame'
  obtain ⟨hsource, rfl⟩ := Prod.ext_iff.mp heq
  rw [ValidationRun.nameEntry, ValidationRun.nameEntry, show s'.1 = s.1 from hsource]

/-! ## Whole builds -/

/-- What the compiler says about a contract can be looked up by its name. -/
theorem field_of_mem_compiledIn {source : String × Json} {c : Compiled} (hc : c ∈ compiledIn source)
    (hnames : ((compiledIn source).map Compiled.key).Nodup) :
    c.source = source.1 ∧ source.2.field c.name = c.data := by
  obtain ⟨contract, hcontract, rfl⟩ := List.mem_map.mp hc
  refine ⟨rfl, ?_⟩
  have hnodup : ((fieldsOf source.2).map (·.1)).Nodup := by
    refine List.Nodup.of_map (fun name => source.1 ++ ":" ++ name) ?_
    rw [compiledIn, List.map_map] at hnames
    rw [List.map_map]
    exact hnames
  have hlookup := lookup_of_mem hnodup hcontract
  obtain ⟨source, contracts⟩ := source
  cases contracts with
  | obj fields => exact congrArg (Option.getD · Json.null) hlookup
  | null | bool _ | int _ | float _ | str _ | arr _ => cases hcontract

/-- What the run of a build says about a compiled contract is what was found in its last definition, with the
names of its bases and libraries. -/
theorem ValidationRun.describes_ofBuild {v : Json} {run : ValidationRun} {notes : List Log.Record}
    (hrun : ValidationRun.ofBuild v = .ok (run, notes)) (hunique : UniqueIds (buildTrees v))
    (hnames : DistinctNames v) {c : Compiled} (hc : c ∈ compiledContracts v) (hdata : c.data ≠ .null)
    {d : Json} (hd : definitionIn? (treeOf v c.source) c.name = some d) :
    ∃ build sources record bases libraries, Import.Build.ofJson v = .ok build ∧
      Sources.ofCompilation build.input build.output = .ok sources ∧
      Completes (buildTrees v) build sources.locate d c.data record bases libraries ∧
      (∀ id ∈ bases ++ libraries, id.hashable = true) ∧
      run.lookup c.key = some { record with
        bases := namesOf (definitionNames v).reverse bases
        libraries := namesOf (definitionNames v).reverse libraries } := by
  obtain ⟨build, sources, bySource, p, h, rfl, -⟩ := ofBuild_eq_ok_iff.mp hrun
  -- the source file of the contract, and those before and behind it
  rw [DistinctNames, compiledContracts, ← h.bySource_eq] at hnames
  rw [compiledContracts, ← h.bySource_eq] at hc
  obtain ⟨source, hsource, hcontract⟩ := List.mem_flatMap.mp hc
  obtain ⟨before, after, rfl⟩ := List.append_of_mem hsource
  rw [List.flatMap_append, List.flatMap_cons, List.map_append, List.map_append] at hnames
  obtain ⟨hown, -, hdisjoint⟩ := List.nodup_append.mp (List.nodup_append.mp hnames).2.1
  obtain ⟨hsource, hfield⟩ := field_of_mem_compiledIn hcontract hown
  have hkey : c.key = source.1 ++ ":" ++ c.name := by rw [Compiled.key, hsource]
  rw [hsource] at hd
  have hstep (p : Progress) (s : String × Json) :
      Determined (buildTrees v) (takeSource build sources.locate p s.1 s.2) :=
    (reads_takeSource p s.1 s.2).determined hunique
  obtain ⟨p₁, -, hall⟩ := h.gives.of_foldlM_append hstep
  obtain ⟨p₂, hp₂, hall⟩ := hall.of_foldlM_cons hstep
  have hcompleted := completed_takeSource hunique h.built hd hfield hdata hp₂
  rw [← hkey] at hcompleted
  have hsame : p₂.SameAt c.key p := by
    refine hall.yields (Yields.foldlM (Q := p₂.SameAt c.key) (fun q s hs hq => ?_) ⟨rfl, rfl, rfl⟩)
    refine (yields_takeSource_other q fun c' hc' => ?_).imp fun q' hq' => hq.trans hq'
    exact (hdisjoint _ (List.mem_map_of_mem hcontract) _
      (List.mem_map_of_mem (List.mem_flatMap_of_mem hs hc'))).symm
  obtain ⟨record, bases, libraries, hcompletes, hrecord, hbases, hlibraries⟩ := hcompleted.sameAt hsame
  have hids : ∀ id ∈ bases ++ libraries, id.hashable = true :=
    List.forall_mem_append.mpr ⟨h.bases _ (mem_of_lookup_eq_some hbases),
      h.libraries _ (mem_of_lookup_eq_some hlibraries)⟩
  refine ⟨build, sources, record, bases, libraries, h.built, h.located, hcompletes, hids, ?_⟩
  rw [lookup_progress_resolved h.keyed, hrecord, hbases, hlibraries, h.names_eq]
  rfl

end UpgradeSafety

/-! ## Recorded layouts -/

namespace UpgradeSafety

open Syntax

namespace ValidationRun

variable {build : Import.Build} {locate : Locate} {trees : List Json} {definition data : Json}
  {record record' : ContractRecord}

/-- What a completed record says about the layout. -/
theorem layout_complete (h : UniqueIds trees) (hlayout : data.field "storageLayout" ≠ .null)
    (hrecord : Gives trees (complete build locate definition data record) record') :
    ∃ l, record'.layout = some l ∧ Gives trees (Import.layout (data.field "storageLayout")
      (some ⟨definition, some locate⟩) true build.solcVersion) l := by
  unfold complete at hrecord
  obtain ⟨bytecode, -, hrecord⟩ := hrecord.of_lift_bind
  obtain ⟨src, -, hrecord⟩ := hrecord.of_lift_bind
  obtain ⟨errors, -, hrecord⟩ := hrecord.of_lift_bind
  obtain ⟨methods, -, hrecord⟩ := hrecord.of_lift_bind
  obtain ⟨raw, hraw, hrecord⟩ := hrecord.of_lift_bind
  obtain rfl := eq_field_of_get hraw
  dsimp only at hrecord
  split at hrecord
  · rename_i hnull
    exact absurd hnull hlayout
  · obtain ⟨l, hl, hrecord⟩ := hrecord.of_bind (Import.determined_layout h _ _ _ _)
    obtain rfl := hrecord.of_pure
    exact ⟨l, rfl, hl⟩

/-- What is known under a key has a layout that an import of a contract gives. -/
def HoldsImport (trees : List Json) (build : Import.Build) (locate : Locate) (raw definition : Json)
    (key : String) (run : ValidationRun) : Prop :=
  ∃ record l, run.lookup key = some record ∧ record.layout = some l ∧
    Gives trees (Import.layout raw (some ⟨definition, some locate⟩) true build.solcVersion) l

end ValidationRun

/-- A validation run records for a contract the layout of its last definition. -/
theorem ValidationRun.holdsImport_ofBuild {v : Json} {run : ValidationRun} {notes : List Log.Record}
    {build : Import.Build} {sources : Sources} (hrun : ValidationRun.ofBuild v = .ok (run, notes))
    (hbuild : Import.Build.ofJson v = .ok build)
    (hsources : Sources.ofCompilation build.input build.output = .ok sources)
    (hunique : UniqueIds (buildTrees v)) (hnames : DistinctNames v) {c : Compiled}
    (hc : c ∈ compiledContracts v) (hlayout : c.data.field "storageLayout" ≠ .null) {d : Json}
    (hd : definitionIn? (treeOf v c.source) c.name = some d) :
    HoldsImport (buildTrees v) build sources.locate (c.data.field "storageLayout") d c.key run := by
  have hdata : c.data ≠ .null := by
    intro hnull
    rw [hnull] at hlayout
    exact hlayout rfl
  obtain ⟨build', sources', record, bases, libraries, hbuild', hsources', hcompletes, -,
    hrecord⟩ :=
    describes_ofBuild hrun hunique hnames hc hdata hd
  cases hbuild.symm.trans hbuild'
  cases hsources.symm.trans hsources'
  obtain ⟨before, hgives⟩ := hcompletes.record
  obtain ⟨l, hl, hgives⟩ := layout_complete hunique hlayout hgives
  exact ⟨_, l, hrecord, hl, hgives⟩

end UpgradeSafety
