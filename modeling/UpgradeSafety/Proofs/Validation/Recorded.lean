import UpgradeSafety.Proofs.Manifest.Readable
import UpgradeSafety.Proofs.Manifest.Showing
import UpgradeSafety.Proofs.Validation.Imported
import UpgradeSafety.Proofs.Validation.References

/-!
# Recorded layouts

A layout that was recorded in a manifest is written into its file and read back. Every layout of a
validation run survives that (`Validator.validate_recorded`): the address at which it was recorded,
or that of a proxy in front of it, and the layout in memory lead to the same verdict for every
contract. That is not so when the manifest held an equal layout before, with its namespaces in
another order: it is kept as it is, and its namespaces are reported in that order
(`Validator.validate_reordered`).

Four results meet here. A layout of a run is imported, so it can be written and read back; what is
recorded for a version shows the layout; a lookup by address finds the record of the first version
there; and a validation looks at no more than is shown. How the record got into the manifest and
when the address is looked up are kept apart: the verdict is that in any workspace in which the
record is found later (`Reaches`).
-/

namespace UpgradeSafety

open Manifest Stateful

variable {σ : Type}

/-! ## Recording -/

/-- A layout of the validation run over a build. -/
def ValidationRun.HasLayout (build : Json) (layout : Layout) : Prop :=
  ∃ run notes name record, ofBuild build = .ok (run, notes) ∧ (name, record) ∈ run ∧
    record.layout = some layout

/-- Layouts of a validation run can be written and read again if the names in them are texts. -/
theorem ValidationRun.HasLayout.storable {build : Json} {layout : Layout}
    (h : HasLayout build layout) (hbuild : build.IsTidy) (htexts : layout.Textual) :
    layout.Storable ∧ layout.Located := by
  obtain ⟨run, notes, name, record, hrun, hrecord, hlayout⟩ := h
  have himported := imported_ofBuild hrun hbuild (name, record) hrecord layout hlayout
  exact ⟨himported.storable htexts, himported.located⟩

/-- A store without a run in progress recorded an implementation for a version. Its file holds `r` after
that. -/
structure Manifest.Store.Recorded (s : Store) (w w' : Workspace σ) (version : String)
    (d : Implementation) (r : Records) : Prop where
  session : w.drafts.lookup s.session = none
  sound : w.files.Sound
  updater : AnswersTidy s.updater
  run : (s.addDeployment version d).run.run w = (.ok (), w')
  held : ∃ stale, s.held w'.files = .ok (r, stale)

/-- A store at rest records an implementation that can be written. -/
theorem Manifest.Store.AtRest.recorded {s : Store} {w : Workspace σ} {r : Records}
    {d : Implementation} (h : s.AtRest w r) (hsound : w.files.Sound) (hupdater : AnswersTidy s.updater)
    (version : String) (hd : d.Proper) :
    ∃ w', s.Recorded w w' version d (Store.kept r (r.addDeployment version d) true) ∧
      s.AtRest w' (Store.kept r (r.addDeployment version d) true) ∧ w'.files.Sound := by
  have hproper := h.proper.addDeployment version hd
  obtain ⟨w', result, hrun, hresult, hran⟩ := h.run_told (f := (·.addDeployment version d))
    hproper.sound [s.note .implementationRecorded
      ("Recorded implementation " ++ version ++ " at " ++ d.address)]
  obtain rfl := hresult.resolve_right fun himproper => himproper.1 hproper
  obtain ⟨_, _, _, _, -, -, -, hsettled, -⟩ :=
    Store.addDeployment_held h.session hsound hupdater hd.storable hrun
  obtain ⟨t, hmake, hholds⟩ := hran.rest.files
  cases hsettled.folder.symm.trans hmake
  exact ⟨w', ⟨h.session, hsound, hupdater, hrun, false, hholds.held s (.refl s)⟩, hran.rest,
    hsettled.sound⟩

namespace Validator

variable {v : Validator} {s s' : Store} {w w' w'' : Workspace σ} {r r' : Records}
  {version address : String} {d : Implementation} {reference : Reference}

/-! ## Addresses -/

/-- An address leads to another one: to itself, or to that of the implementation behind it if nothing is
recorded for it. -/
def LeadsTo (v : Validator) (r : Records) (address target : String) : Prop :=
  address = target ∨
    (r.deploymentAt? address = none ∧ ∃ resolve ∈ v.implementationOf, resolve address = target)

theorem run_deploymentAt (hs : s.Readable w r) (address : String) :
    ∃ w', (s.deploymentAt address).run.run w =
      (Operation.lookedUp (.unknownImplementation address) (r.deploymentAt? address), w') ∧
        s.Readable w' r :=
  hs.run_find (·.deploymentAt? address) (.unknownImplementation address)

/-- The layout at an address is that of the record which the address leads to. -/
theorem run_layoutAt {target : String} {i : Implementation} (hmanifest : v.manifest = some s)
    (hs : s.Readable w r) (hleads : v.LeadsTo r address target)
    (hi : r.deploymentAt? target = some i) :
    ∃ w', (v.layoutAt address).run.run w = (.ok i.layout, w') := by
  have hfound {w : Workspace σ} (hs : s.Readable w r) : ∃ w',
      (do return (← s.deploymentAt target).layout : Act σ Layout).run.run w = (.ok i.layout, w') := by
    obtain ⟨w', hrun, -⟩ := run_deploymentAt hs target
    rw [hi] at hrun
    exact ⟨w', by rw [run_bind_of_ok hrun]; rfl⟩
  unfold layoutAt
  rw [hmanifest]
  dsimp only
  rcases hleads with rfl | ⟨hnone, resolve, hresolve, rfl⟩
  · obtain ⟨w', hrun⟩ := hfound hs
    exact ⟨w', run_tryCatch_of_ok hrun⟩
  · obtain ⟨w₁, hrun, hs₁⟩ := run_deploymentAt hs address
    rw [hnone] at hrun
    obtain ⟨w', hrun'⟩ := hfound hs₁
    refine ⟨w', ?_⟩
    rw [run_tryCatch, run_bind_of_error hrun]
    dsimp only
    rw [hresolve]
    exact hrun'

/-- The records of a version are found from an address: the address leads to one at which the version is
or was, and at which no version is or was that is listed before it. -/
structure Reaches (v : Validator) (r : Records) (address version : String) (d : Implementation) :
    Prop where
  isAddress : isAddress address = true
  target : ∃ target, v.LeadsTo r address target ∧ sameAddress d.address target = true ∧
    firstVersionAt r version target = version

/-! ## The verdict -/

/-- The address at which a layout of a validation run was recorded leads to the same verdict as the
layout, in whatever workspace the record is found later. -/
theorem validate_recorded {build : Json}
    (hbuild : build.IsTidy) (hlayout : ValidationRun.HasLayout build d.layout)
    (htexts : d.layout.Textual) (habi : ∀ abi ∈ d.abi, ∀ v ∈ abi, v.IsTidy)
    (hversions : ∀ vs ∈ d.allVersions, (vs.map (·.1)).Nodup ∧ ∀ e ∈ vs, e.2.Storable)
    (hrecorded : s.Recorded w w' version d r) (hordered : r.Ordered version d.layout)
    (hmanifest : v.manifest = some s') (hreadable : s'.Readable w'' r')
    (hkept : r'.deployment? version = r.deployment? version)
    (hreaches : v.Reaches r' address version d) (hreference : v.InMemory d.layout reference)
    (contract : String) (options : ValidationOptions) :
    ((v.validate contract (some (.named address)) options).run.run w'').1.map UpgradeReport.verdict =
      ((v.validate contract (some reference) options).run.run w'').1.map UpgradeReport.verdict := by
  obtain ⟨hstorable, hlocated⟩ := hlayout.storable hbuild htexts
  obtain ⟨stale, hheld⟩ := hrecorded.held
  obtain ⟨i, hi, hshown, hat⟩ := Store.exists_recorded hrecorded.session hrecorded.sound
    hrecorded.updater ⟨hstorable, habi, hversions⟩ hlocated hrecorded.run hheld hordered
  obtain ⟨target, hleads, htarget, hfirst⟩ := hreaches.target
  have hfound := Records.deploymentAt?_of_first (hkept.trans hi) (hat target htarget) hfirst
  have hfinds : v.Finds w'' (.named address) i.layout := finds_address hreaches.isAddress fun log =>
    run_layoutAt hmanifest (hreadable.withLog log) hleads hfound
  exact validate_sameShown (hreference.finds w'') hfinds hshown contract options

end Validator

/-! ## Two namespaces -/

/-- A contract of a syntax tree. -/
def spacesContract (id : Int) (name : String) (nodes : List Json) : Json :=
  .obj [("nodeType", .str "ContractDefinition"), ("id", .int id), ("name", .str name),
    ("src", .str "0:1:0"), ("linearizedBaseContracts", .arr [.int id]), ("nodes", .arr nodes)]

/-- A struct with one word in a namespace. -/
def spacesStruct (id : Int) (name space : String) : Json :=
  .obj [("nodeType", .str "StructDefinition"), ("id", .int id), ("name", .str name),
    ("src", .str "0:1:0"), ("documentation", .str ("@custom:storage-location " ++ space)),
    ("members", .arr [.obj [("nodeType", .str "VariableDeclaration"), ("id", .int (id + 1)),
      ("name", .str "x"), ("src", .str "0:1:0"),
      ("typeDescriptions", .obj [("typeIdentifier", .str "t_uint256"),
        ("typeString", .str "uint256")])]])]

/-- A compiled contract without variables outside of namespaces. -/
def spacesCompiled : Json :=
  .obj [("storageLayout", .obj [("storage", .arr []), ("types", .obj [("t_uint256",
    .obj [("label", .str "uint256"), ("numberOfBytes", .str "32"),
      ("encoding", .str "inplace")])])])]

/-- A build of two contracts: `Both` with the namespaces `a` and `b`, and `None` without any. -/
def spacesBuild : Json :=
  .obj [("input", .obj [("sources", .obj [("a.sol", .obj [("content", .str "")])])]),
    ("output", .obj [
      ("sources", .obj [("a.sol", .obj [("id", .int 0), ("ast", .obj [
        ("nodeType", .str "SourceUnit"), ("nodes", .arr [
          spacesContract 1 "Both" [spacesStruct 2 "A" "a", spacesStruct 4 "B" "b"],
          spacesContract 6 "None" []])])])]),
      ("contracts", .obj [("a.sol", .obj [("Both", spacesCompiled), ("None", spacesCompiled)])])])]

theorem isTidy_spacesBuild : spacesBuild.IsTidy := by
  simp [spacesBuild, spacesContract, spacesStruct, spacesCompiled, Json.IsTidy, Json.areTidy_iff,
    Json.fieldsAreTidy_iff]

/-- The validation run over the two contracts. -/
def spacesRun : ValidationRun :=
  ((ValidationRun.ofBuild spacesBuild).toOption.map (·.1)).getD []

/-- The layout of `Both`. -/
def bothLayout : Layout :=
  ((spacesRun.lookup "a.sol:Both").bind (·.layout)).getD { layoutVersion := none }

/-- The word of a namespace of `Both`, which has no slot of its own. -/
def spacesItem : Item :=
  { label := "x", type := "t_uint256", contract := .str "Both", src := "a.sol:1" }

/-- The run is evaluated once; what follows about the layout is read off its value. -/
theorem bothLayout_eq : bothLayout =
    { layoutVersion := some Layout.currentVersion
      types := [("t_uint256",
        { label := "uint256", encoding := some "inplace", numberOfBytes := some 32 })]
      namespaces := [("a", [spacesItem]), ("b", [spacesItem])]
      flat := true } := by
  decide +kernel

theorem bothLayout_ne_unread : bothLayout ≠ { layoutVersion := none } := fun h => by
  rw [bothLayout_eq] at h
  cases h

theorem exists_ofBuild_spaces : ∃ notes, ValidationRun.ofBuild spacesBuild = .ok (spacesRun, notes) := by
  cases hrun : ValidationRun.ofBuild spacesBuild with
  | error e =>
    refine absurd ?_ bothLayout_ne_unread
    rw [bothLayout, spacesRun, hrun]
    rfl
  | ok built =>
    refine ⟨built.2, ?_⟩
    rw [spacesRun, hrun]
    rfl

theorem exists_lookup_both :
    ∃ record, spacesRun.lookup "a.sol:Both" = some record ∧ record.layout = some bothLayout := by
  cases hlayout : (spacesRun.lookup "a.sol:Both").bind (·.layout) with
  | none =>
    refine absurd ?_ bothLayout_ne_unread
    rw [bothLayout, hlayout]
    rfl
  | some layout =>
    obtain ⟨record, hrecord, hrecordLayout⟩ := Option.bind_eq_some_iff.mp hlayout
    refine ⟨record, hrecord, ?_⟩
    rw [bothLayout, hlayout, hrecordLayout]
    rfl

theorem hasLayout_both : ValidationRun.HasLayout spacesBuild bothLayout := by
  obtain ⟨notes, hrun⟩ := exists_ofBuild_spaces
  obtain ⟨record, hrecord, hlayout⟩ := exists_lookup_both
  exact ⟨spacesRun, notes, _, record, hrun, mem_of_lookup_eq_some hrecord, hlayout⟩

theorem textual_bothLayout : bothLayout.Textual := by
  rw [bothLayout_eq]
  decide +kernel

theorem isWritable_bothLayout : bothLayout.isWritable = true := by
  rw [bothLayout_eq]
  decide +kernel

theorem storable_bothLayout : bothLayout.Storable ∧ bothLayout.Located :=
  hasLayout_both.storable isTidy_spacesBuild textual_bothLayout

/-- An implementation with a layout. -/
def spacesImplementation (layout : Layout) : Implementation :=
  { address := "0x0000000000000000000000000000000000000001", layout }

/-- A validator over the two contracts, with a manifest. -/
def spacesValidator : Validator :=
  { catalog := ⟨[spacesRun]⟩, manifest := some Store.mainStore }

theorem proper_spacesImplementation {layout : Layout} (h : layout.Storable)
    (hwritable : layout.isWritable = true) : (spacesImplementation layout).Proper :=
  ⟨⟨h, nofun, nofun⟩, by simpa [Implementation.isWritable, spacesImplementation] using hwritable,
    nofun⟩

theorem findQualified_singleton (name : String) (run : ValidationRun) :
    Catalog.findQualified name [(0, run)] =
      (run.lookup name).map fun record => ⟨0, run, name, record⟩ := by
  unfold Catalog.findQualified
  cases h : run.lookup name <;> simp [h]

theorem inMemory_both : spacesValidator.InMemory bothLayout (.named "a.sol:Both") := by
  obtain ⟨record, hrecord, hlayout⟩ := exists_lookup_both
  refine .contract (e := ⟨0, spacesRun, "a.sol:Both", record⟩) (by decide) ?_ hlayout
  have hfound : Catalog.findQualified "a.sol:Both" spacesValidator.catalog.latestFirst =
      some ⟨0, spacesRun, "a.sol:Both", record⟩ := by
    rw [show spacesValidator.catalog.latestFirst = [(0, spacesRun)] from rfl,
      findQualified_singleton, hrecord]
    rfl
  unfold Catalog.contractNamed
  rw [if_pos (by decide), hfound]
  rfl

/-- The records after the first implementation with a layout was recorded. -/
def spacesRecords (layout : Layout) : Records :=
  (({} : Records).addDeployment "0x1" (spacesImplementation layout)).stored

theorem reaches_spacesRecords (layout other : Layout) : spacesValidator.Reaches (spacesRecords layout)
    "0x0000000000000000000000000000000000000001" "0x1" (spacesImplementation other) :=
  ⟨by decide, _, Or.inl rfl, sameAddress_refl _, rfl⟩

/-- The layout in memory and the address at which it was recorded lead to the same verdict on each of the
two contracts. -/
theorem validate_recorded_spaces : ∃ w' r,
    spacesBuild.IsTidy ∧ ValidationRun.HasLayout spacesBuild bothLayout ∧ bothLayout.Textual ∧
      Store.mainStore.Recorded Store.emptyWorkspace w' "0x1" (spacesImplementation bothLayout) r ∧
      r.Ordered "0x1" bothLayout ∧ Store.mainStore.Readable w' r ∧
      spacesValidator.Reaches r "0x0000000000000000000000000000000000000001" "0x1"
        (spacesImplementation bothLayout) ∧
      spacesValidator.InMemory bothLayout (.named "a.sol:Both") ∧
      ∀ contract options,
        ((spacesValidator.validate contract
          (some (.named "0x0000000000000000000000000000000000000001")) options).run.run w').1.map
            UpgradeReport.verdict =
        ((spacesValidator.validate contract (some (.named "a.sol:Both")) options).run.run w').1.map
            UpgradeReport.verdict := by
  have hproper : (spacesImplementation bothLayout).Proper :=
    proper_spacesImplementation storable_bothLayout.1 isWritable_bothLayout
  obtain ⟨w', hrecorded, hrest, -⟩ := atRest_mainStore.recorded Files.Tree.sound_empty
    answersTidy_none "0x1" hproper
  have hkept : Store.kept {} (({} : Records).addDeployment "0x1" (spacesImplementation bothLayout))
      true = spacesRecords bothLayout := by
    refine if_pos ⟨rfl, ?_⟩
    rw [bothLayout_eq]
    decide +kernel
  rw [hkept] at hrecorded hrest
  have hordered : (spacesRecords bothLayout).Ordered "0x1" bothLayout := by
    rintro i hi
    cases hi
    change _ = (bothLayout.namespaces.map fun e => (e.1, e.2.map Item.stored)).map (·.1)
    rw [List.map_map]
    rfl
  have hreadable := hrest.readable answersTidy_none
  have hreaches := reaches_spacesRecords bothLayout bothLayout
  exact ⟨w', _, isTidy_spacesBuild, hasLayout_both, textual_bothLayout, hrecorded, hordered, hreadable,
    hreaches, inMemory_both, Validator.validate_recorded isTidy_spacesBuild hasLayout_both
      textual_bothLayout hproper.storable.abi hproper.storable.allVersions
      hrecorded hordered rfl hreadable rfl hreaches inMemory_both⟩

/-- The layout of `Both` with its namespaces in the other order. -/
def reorderedLayout : Layout := { bothLayout with namespaces := bothLayout.namespaces.reverse }

theorem storable_reorderedLayout : reorderedLayout.Storable := by
  obtain ⟨h, -⟩ := storable_bothLayout
  refine ⟨h.storage, h.members, fun e he => h.namespaces e (List.mem_reverse.mp he), h.types_nodup, ?_⟩
  rw [reorderedLayout, List.map_reverse]
  exact List.nodup_reverse.mpr h.namespaces_nodup

/-- The places of the errors that a verdict reports. -/
def reportedPaths (verdict : Except Failure UpgradeVerdict) : Option (List (List String)) :=
  verdict.toOption.bind fun verdict => verdict.storage.bind fun storage =>
    storage.errors.toOption.map fun found => found.map (·.path)

/-- What is reported when the contract without namespaces replaces a version. -/
def pathsAfter (former : Layout) : Option (List (List String)) :=
  let options : ValidationOptions := ({} : ValidationOptions).expand
  reportedPaths (((spacesValidator.catalog.contractNamed "a.sol:None").mapError Failure.refused >>=
    fun e => Validator.compared options e
      { contract := e.key, errors := (Safety.dropAllowed e.key (e.errors options.kind) options).1 } ""
      former).map UpgradeReport.verdict)

theorem reportedPaths_validate {w : Workspace Unit} {reference : Reference} {former : Layout}
    (h : spacesValidator.Finds w reference former) (hformer : former.Storable) :
    reportedPaths (((spacesValidator.validate "a.sol:None" (some reference) {}).run.run w).1.map
      UpgradeReport.verdict) = pathsAfter former := by
  obtain ⟨name, hfinds⟩ := h
  rw [Validator.result_validate hfinds, pathsAfter]
  have hself : former.SameShown former := ⟨rfl, rfl, .refl _, hformer.types_nodup⟩
  refine congrArg reportedPaths (map_bind_congr (k := id) rfl fun e e' he => ?_)
  obtain rfl : e' = e := he
  exact Validator.compared_sameShown hself _ e' _

/-- When the manifest holds the layout with its namespaces in another order already, it is not written,
and the namespaces are reported in the order that is recorded. -/
theorem validate_reordered : ∃ w₁ w₂ r,
    ValidationRun.HasLayout spacesBuild bothLayout ∧
      (Store.mainStore.addDeployment "0x1" (spacesImplementation reorderedLayout)).run.run
        Store.emptyWorkspace = (.ok (), w₁) ∧
      Store.mainStore.Recorded w₁ w₂ "0x1" (spacesImplementation bothLayout) r ∧
      Store.mainStore.Readable w₂ r ∧
      spacesValidator.Reaches r "0x0000000000000000000000000000000000000001" "0x1"
        (spacesImplementation bothLayout) ∧
      spacesValidator.InMemory bothLayout (.named "a.sol:Both") ∧
      reportedPaths (((spacesValidator.validate "a.sol:None"
        (some (.named "0x0000000000000000000000000000000000000001")) {}).run.run w₂).1.map
          UpgradeReport.verdict) = some [["b"], ["a"]] ∧
      reportedPaths (((spacesValidator.validate "a.sol:None"
        (some (.named "a.sol:Both")) {}).run.run w₂).1.map UpgradeReport.verdict) =
          some [["a"], ["b"]] := by
  have hwritable : reorderedLayout.isWritable = true := by
    rw [reorderedLayout, bothLayout_eq]
    decide +kernel
  obtain ⟨w₁, hrecorded₁, hrest₁, hsound₁⟩ := atRest_mainStore.recorded Files.Tree.sound_empty
    answersTidy_none "0x1" (proper_spacesImplementation storable_reorderedLayout hwritable)
  have hkept₁ : Store.kept {} (({} : Records).addDeployment "0x1"
      (spacesImplementation reorderedLayout)) true = spacesRecords reorderedLayout := by
    refine if_pos ⟨rfl, ?_⟩
    rw [reorderedLayout, bothLayout_eq]
    decide +kernel
  rw [hkept₁] at hrest₁
  obtain ⟨w₂, hrecorded₂, hrest₂, -⟩ := hrest₁.recorded hsound₁ answersTidy_none "0x1"
    (proper_spacesImplementation storable_bothLayout.1 isWritable_bothLayout)
  have hkept₂ : Store.kept (spacesRecords reorderedLayout) ((spacesRecords reorderedLayout).addDeployment
      "0x1" (spacesImplementation bothLayout)) true = spacesRecords reorderedLayout := by
    have hsame : ((spacesRecords reorderedLayout).addDeployment "0x1" (spacesImplementation
        bothLayout)).toJson.same (spacesRecords reorderedLayout).toJson = true := by
      rw [reorderedLayout, bothLayout_eq]
      decide +kernel
    refine if_neg fun h => ?_
    rw [hsame] at h
    exact Bool.noConfusion h.2
  rw [hkept₂] at hrecorded₂ hrest₂
  have hreadable := hrest₂.readable answersTidy_none
  have hrecord : (spacesRecords reorderedLayout).deployment? "0x1" =
      some (spacesImplementation reorderedLayout).stored := rfl
  have hfound : (spacesRecords reorderedLayout).deploymentAt?
      "0x0000000000000000000000000000000000000001" =
        some (spacesImplementation reorderedLayout).stored :=
    Records.deploymentAt?_of_first hrecord (by decide +kernel) rfl
  have haddress : spacesValidator.Finds w₂ (.named "0x0000000000000000000000000000000000000001")
      reorderedLayout.stored :=
    Validator.finds_address (by decide) fun log =>
      Validator.run_layoutAt rfl (hreadable.withLog log) (Or.inl rfl) hfound
  refine ⟨w₁, w₂, _, hasLayout_both, hrecorded₁.run, hrecorded₂, hreadable, reaches_spacesRecords _ _,
    inMemory_both, ?_, ?_⟩
  · rw [reportedPaths_validate haddress storable_reorderedLayout.stored, reorderedLayout, bothLayout_eq]
    decide +kernel
  · rw [reportedPaths_validate (inMemory_both.finds w₂) storable_bothLayout.1, bothLayout_eq]
    decide +kernel

end UpgradeSafety
