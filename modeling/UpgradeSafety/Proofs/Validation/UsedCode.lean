import UpgradeSafety.Proofs.Safety.Findings
import UpgradeSafety.Proofs.Validation.Agreement
import UpgradeSafety.Validation.Catalog

/-!
# The errors of used code

Which safety errors are reported for a contract (`mem_errors_iff`): its own, those of its bases,
and those of the libraries that its own definition refers to, each as far as it is in the run.
Libraries that only a base refers to are left out (`not_reported_of_base`), though their code is
part of the contract, too.

A record of a run names the bases of a contract and its libraries by qualified names, and the
errors are collected by looking these up (`mem_errors`). What the record says comes from the last
definition of the contract, in which an id stands for a contract definition of any source file
(`Refers`). So both directions are a matter of names: an id that is referred to has one, as all ids
are known at the end of a run, and what is found under a name are the errors of a definition with
that id.

One error is not about code that is used: behind a proxy that upgrades itself a contract may miss
the method for that (`MissesUpgrade`).
-/

namespace UpgradeSafety

open Syntax

namespace CatalogEntry

variable {entry : CatalogEntry} {kind : Option ProxyKind} {e : SafetyError}

/-- Behind a proxy that upgrades itself the contract has no method for that. -/
def MissesUpgrade (entry : CatalogEntry) (kind : Option ProxyKind) : Prop :=
  kind = some .uups ∧
    ∀ r ∈ entry.record :: entry.known entry.record.bases, ∀ m ∈ upgradeMethods, m ∉ r.methods

theorem missesUpgrade_iff : MissesUpgrade entry kind ↔
    (kind == some .uups && !upgradeMethods.any
      (entry.record.methods ++ (entry.known entry.record.bases).flatMap (·.methods)).contains) = true := by
  unfold MissesUpgrade
  rw [Bool.and_eq_true, beq_iff_eq, Bool.not_eq_true', List.any_eq_false, List.forall_mem_cons]
  refine and_congr_right fun _ => ?_
  simp only [List.contains_iff_mem, List.mem_append, List.mem_flatMap, not_or, not_exists, not_and]
  constructor
  · rintro ⟨hown, hbases⟩ m hm
    exact ⟨hown m hm, fun r hr => hbases r hr m hm⟩
  · intro h
    exact ⟨fun m hm => (h m hm).1, fun r hr m hm => (h m hm).2 r hr⟩

/-- The errors that are reported for a contract of a run. -/
theorem mem_errors : e ∈ entry.errors kind ↔
    e ∈ entry.record.errors ∨
      (∃ key ∈ entry.record.bases ++ entry.record.libraries, ∃ used,
        entry.run.lookup key = some used ∧ e ∈ used.errors) ∨
      MissesUpgrade entry kind ∧ e = { kind := .missingUpgradeTo, src := .str entry.record.src } := by
  unfold CatalogEntry.errors
  dsimp only
  rw [List.mem_append, List.mem_append, or_assoc, List.mem_flatMap, missesUpgrade_iff]
  refine or_congr Iff.rfl (or_congr ?_ ?_)
  · simp only [known, List.mem_filterMap]
    constructor
    · rintro ⟨used, ⟨key, hkey, hused⟩, he⟩
      exact ⟨key, hkey, used, hused, he⟩
    · rintro ⟨key, hkey, used, hused, he⟩
      exact ⟨used, ⟨key, hkey, hused⟩, he⟩
  · split
    · rename_i hmissing
      rw [List.mem_singleton]
      exact ⟨fun he => ⟨hmissing, he⟩, fun he => he.2⟩
    · rename_i hmissing
      exact ⟨fun he => absurd he List.not_mem_nil, fun he => absurd he.1 hmissing⟩

end CatalogEntry

namespace ValidationRun

variable {v : Json} {run : ValidationRun} {notes : List Log.Record}

/-- An id is that of a contract definition whose contract is known in a run. -/
def Refers (v : Json) (run : ValidationRun) (id : Json) (used : ContractRecord) : Prop :=
  ∃ e ∈ definitionNames v, e.1.same id = true ∧ run.lookup e.2 = some used

/-- What a definition says: the errors that its checks find, and the ids of its bases and of the libraries that
it refers to. -/
structure Says (v : Json) (c : Compiled) (d : Json) (errors : List SafetyError)
    (bases libraries : List Json) : Prop where
  errors : ∃ build sources bytecode, Import.Build.ofJson v = .ok build ∧
    Sources.ofCompilation build.input build.output = .ok sources ∧
    bytecodeOf c.data = .ok bytecode ∧ Safety.contractErrors d bytecode sources.locate = .ok errors
  bases : baseIds d = .ok bases
  libraries : libraryIds d = .ok libraries

theorem errors_complete {trees : List Json} {build : Import.Build} {locate : Locate}
    {definition data : Json} {before record : ContractRecord}
    (h : Gives trees (complete build locate definition data before) record) :
    ∃ bytecode, bytecodeOf data = .ok bytecode ∧
      Safety.contractErrors definition bytecode locate = .ok record.errors := by
  unfold complete at h
  obtain ⟨bytecode, hbytecode, h⟩ := h.of_lift_bind
  obtain ⟨src, -, h⟩ := h.of_lift_bind
  obtain ⟨errors, herrors, h⟩ := h.of_lift_bind
  obtain ⟨methods, -, h⟩ := h.of_lift_bind
  refine ⟨bytecode, hbytecode, herrors.trans (congrArg Except.ok ?_)⟩
  refine (h.yields (P := fun record => record.errors = errors) ?_).symm
  refine .bind (.any _) fun raw _ => ?_
  dsimp only
  split
  · exact .pure rfl
  · exact .bind (.any _) fun layout _ => .pure rfl

/-- The errors that are reported for a contract of a build are its own, those of its bases, and those of the
libraries that its own definition refers to. -/
theorem mem_errors_iff (hrun : ofBuild v = .ok (run, notes)) (horderly : Orderly (buildTrees v))
    (hnames : DistinctNames v) {c : Compiled} (hc : c ∈ compiledContracts v) (hdata : c.data ≠ .null)
    {d : Json} (hd : definitionIn? (treeOf v c.source) c.name = some d) (index : Nat)
    (kind : Option ProxyKind) :
    ∃ record bases libraries, run.lookup c.key = some record ∧
      Says v c d record.errors bases libraries ∧
      ∀ e, e ∈ (CatalogEntry.mk index run c.key record).errors kind ↔
        e ∈ record.errors ∨
          (∃ id ∈ bases ++ libraries, ∃ used, Refers v run id used ∧ e ∈ used.errors) ∨
          CatalogEntry.MissesUpgrade ⟨index, run, c.key, record⟩ kind ∧
            e = { kind := .missingUpgradeTo, src := .str record.src } := by
  obtain ⟨build, sources, record, bases, libraries, hbuild, hsources, hcompletes, hids, hrecord⟩ :=
    describes_ofBuild hrun horderly.unique hnames hc hdata hd
  obtain ⟨before, hgives⟩ := hcompletes.record
  obtain ⟨bytecode, hbytecode, herrors⟩ := errors_complete hgives
  refine ⟨_, bases, libraries, hrecord, ⟨⟨build, sources, bytecode, hbuild, hsources, hbytecode, herrors⟩,
    hcompletes.bases, hcompletes.libraries⟩, fun e => ?_⟩
  rw [CatalogEntry.mem_errors]
  refine or_congr Iff.rfl (or_congr ?_ Iff.rfl)
  -- a name is that of an id, and no other name is
  have hone : Unambiguous (definitionNames v).reverse :=
    (unambiguous_definitionNames horderly).perm (List.reverse_perm _).symm
  have hnamed (key : String) :
      key ∈ namesOf (definitionNames v).reverse bases ++ namesOf (definitionNames v).reverse libraries ↔
        ∃ id ∈ bases ++ libraries, ∃ f ∈ definitionNames v, f.1.same id = true ∧ f.2 = key := by
    rw [namesOf, namesOf, ← List.filterMap_append, ← namesOf, hone.mem_namesOf_iff hids]
    simp only [List.mem_reverse]
  constructor
  · rintro ⟨key, hkey, used, hused, he⟩
    obtain ⟨id, hid, f, hf, hsame, rfl⟩ := (hnamed key).mp hkey
    exact ⟨id, hid, used, ⟨f, hf, hsame, hused⟩, he⟩
  · rintro ⟨id, hid, used, ⟨f, hf, hsame, hused⟩, he⟩
    exact ⟨f.2, (hnamed f.2).mpr ⟨id, hid, f, hf, hsame, rfl⟩, used, hused, he⟩

/-! ## A library of a base -/

/-- A call of `delegatecall`. -/
def delegating (id : Int) : Json :=
  .obj [("nodeType", .str "FunctionCall"), ("id", .int id), ("src", .str "0:1:0"),
    ("expression", .obj [("typeDescriptions",
      .obj [("typeIdentifier", .str "t_function_baredelegatecall_nonpayable")])])]

/-- The use of a library. -/
def usingLibrary (id library : Int) : Json :=
  .obj [("nodeType", .str "UsingForDirective"), ("id", .int id), ("src", .str "0:1:0"),
    ("libraryName", .obj [("referencedDeclaration", .int library)])]

/-- A build of a library with a `delegatecall`, a contract that uses it, and one that inherits from that
contract. -/
def librarianBuild : Json :=
  buildWith "a.sol"
    [owningContract 1 "Calls" [1] [delegating 2], owningContract 3 "Base" [3] [usingLibrary 4 1],
      owningContract 5 "Vault" [5, 3] []]
    (.obj [("a.sol", .obj [("Calls", .obj []), ("Base", .obj []), ("Vault", .obj [])])])

/-- The error of the library. -/
def delegatingError : SafetyError := { kind := .delegatecall, src := .str "a.sol:1" }

/-- The error is reported for the contract that uses the library. -/
theorem mem_errors_iff_librarian : ∃ run notes record,
    ofBuild librarianBuild = .ok (run, notes) ∧ run.lookup "a.sol:Base" = some record ∧
      delegatingError ∈ (CatalogEntry.mk 0 run "a.sol:Base" record).errors (some .uups) := by
  obtain ⟨run, notes, hrun, herrors⟩ := exists_ofBuild_of_any (v := librarianBuild)
    (P := fun run => (run.lookup "a.sol:Calls").map (·.errors) = some [delegatingError])
    (by decide +kernel)
  obtain ⟨used, hused, herrors⟩ := Option.map_eq_some_iff.mp herrors
  obtain ⟨record, bases, libraries, hrecord, hfacts, hiff⟩ := mem_errors_iff hrun (by decide +kernel)
    (by decide +kernel) (c := ⟨"a.sol", "Base", .obj []⟩) (List.mem_cons_of_mem _ List.mem_cons_self)
    (by decide +kernel) (d := owningContract 3 "Base" [3] [usingLibrary 4 1]) (by decide +kernel) 0
    (some .uups)
  have hlibraries : libraryIds (owningContract 3 "Base" [3] [usingLibrary 4 1]) = .ok [.int 1] :=
    eq_ok_of_toOption (by decide +kernel)
  obtain rfl : libraries = [.int 1] := Except.ok.inj (hfacts.libraries.symm.trans hlibraries)
  refine ⟨run, notes, record, hrun, hrecord, (hiff delegatingError).mpr (Or.inr (Or.inl
    ⟨.int 1, List.mem_append_right _ List.mem_cons_self, used,
      ⟨(.int 1, "a.sol:Calls"), by decide +kernel, by decide +kernel, hused⟩, ?_⟩))⟩
  rw [herrors]
  exact List.mem_cons_self

/-- For the contract that inherits the use of the library nothing is reported. -/
theorem not_reported_of_base : Orderly (buildTrees librarianBuild) ∧ DistinctNames librarianBuild ∧
    ∃ run notes, ofBuild librarianBuild = .ok (run, notes) ∧
      (run.lookup "a.sol:Vault").map (·.bases) = some ["a.sol:Base"] ∧
      (run.lookup "a.sol:Base").map (·.libraries) = some ["a.sol:Calls"] ∧
      (run.lookup "a.sol:Calls").map (·.errors) = some [delegatingError] ∧
      (run.lookup "a.sol:Vault").map (fun record =>
        (CatalogEntry.mk 0 run "a.sol:Vault" record).errors none) = some [] :=
  ⟨by decide +kernel, by decide +kernel, exists_ofBuild_of_any (by decide +kernel)⟩

end ValidationRun

end UpgradeSafety
