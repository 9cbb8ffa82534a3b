import UpgradeSafety.Import
import UpgradeSafety.Proofs.Syntax.Lookups

/-!
# Build documents

What stands in a build document: the trees of its source files (`buildTrees`), and its compiled
contracts (`compiledContracts`), which may or may not be defined in the tree of their source file
(`Defines`).

An import goes through the document by its own loops, one for the trees and one for the contracts
of each source file. Here both are lists, in the order of the document, so that later statements can
say "for every compiled contract" or "in another order" without a run of the import. The trees with
which an import starts, with nothing looked up yet, are tied to them once (`ofCompilation_eq`).

A contract is known by its qualified name, the name of its source file and its own name with a
colon between them. As either may have a colon, two contracts may have the same qualified name;
where that matters, `DistinctNames` excludes it.
-/

namespace UpgradeSafety

open Syntax

/-! ## Builds -/

/-- The fields of an object; other values have none. -/
def fieldsOf : Json → Fields
  | .obj fields => fields
  | _ => []

/-- The trees of a build document. -/
def buildTrees (v : Json) : List Json :=
  (fieldsOf ((v.field "output").field "sources")).filterMap fun source => source.2.field? "ast"

/-- The tree of a source file of a build document. -/
def treeOf (v : Json) (source : String) : Json :=
  (((v.field "output").field "sources").field source).field "ast"

/-- A compiled contract: its source file, its name, and what the compiler says about it. -/
structure Compiled where
  source : String
  name : String
  data : Json

/-- The qualified name of a contract. -/
def Compiled.key (c : Compiled) : String := c.source ++ ":" ++ c.name

/-- The compiled contracts of a source file. -/
def compiledIn (source : String × Json) : List Compiled :=
  (fieldsOf source.2).map fun contract => ⟨source.1, contract.1, contract.2⟩

/-- The compiled contracts of a build document. -/
def compiledContracts (v : Json) : List Compiled :=
  (fieldsOf ((v.field "output").field "contracts")).flatMap compiledIn

/-- No two contracts of a build document have the same qualified name. -/
def DistinctNames (v : Json) : Prop := ((compiledContracts v).map Compiled.key).Nodup

/-- A tree defines a contract with a name. -/
def Defines (tree : Json) (name : String) : Prop :=
  ∃ d ∈ objects [tree], hasType ["ContractDefinition"] d = true ∧ d.field "name" = .str name

variable {v : Json} {build : Import.Build}

theorem eq_field_of_getOr {v w default : Json} {key : String} (h : v.getOr key default = .ok w) :
    w = v.field key ∨ v.field key = .null ∧ w = default := by
  cases v with
  | obj fields =>
    have h : (fields.lookup key).getD default = w := Except.ok.inj h
    rw [Json.field, Json.field?]
    cases hlookup : fields.lookup key with
    | none =>
      rw [hlookup] at h
      exact Or.inr ⟨rfl, h.symm⟩
    | some u =>
      rw [hlookup] at h
      exact Or.inl h.symm
  | null | bool _ | int _ | float _ | str _ | arr _ => cases h

theorem eq_field_of_get {v w : Json} {key : String} (h : v.get key = .ok w) : w = v.field key := by
  rcases eq_field_of_getOr h with h | ⟨hnull, rfl⟩
  · exact h
  · exact hnull.symm

theorem eq_fieldsOf_of_entries {v : Json} {entries : Fields} (h : v.entries = .ok entries) :
    entries = fieldsOf v := by
  cases v with
  | obj fields => exact (Except.ok.inj h).symm
  | null | bool _ | int _ | float _ | str _ | arr _ => cases h

/-- The entries of a part of a document that may be absent. -/
theorem entries_getOr {v field : Json} {entries : Fields} {key : String}
    (hfield : v.getOr key (.obj []) = .ok field) (h : field.entries = .ok entries) :
    entries = fieldsOf (v.field key) := by
  rcases eq_field_of_getOr hfield with rfl | ⟨hnull, rfl⟩
  · exact eq_fieldsOf_of_entries h
  · rw [eq_fieldsOf_of_entries h, hnull]
    rfl

theorem output_ofJson (h : Import.Build.ofJson v = .ok build) : build.output = v.field "output" := by
  unfold Import.Build.ofJson at h
  split at h
  · rename_i houtput
    cases h
    exact (congrArg (Option.getD · Json.null) houtput).symm
  · cases h

/-- The tree of a source file. -/
theorem eq_treeOf (hbuild : Import.Build.ofJson v = .ok build) {source : String} {tree : Json}
    (h : build.tree source = .ok tree) : tree = treeOf v source := by
  unfold Import.Build.tree at h
  obtain ⟨sources, hsources, h⟩ := bind_eq_ok_iff.mp h
  obtain ⟨entry, hentry, h⟩ := bind_eq_ok_iff.mp h
  rw [output_ofJson hbuild] at hsources
  rw [treeOf, eq_field_of_get h]
  rcases eq_field_of_getOr hsources with rfl | ⟨hnull, rfl⟩
  · rcases eq_field_of_getOr hentry with rfl | ⟨hnull, rfl⟩
    · rfl
    · rw [hnull]
      rfl
  · cases hentry
    rw [hnull]
    rfl

theorem field?_of_need {v w : Json} {key : String} (h : v.need key = .ok w) :
    v.field? key = some w := by
  cases v with
  | obj fields =>
    unfold Json.need at h
    dsimp only at h
    split at h
    · rename_i hlookup
      cases h
      exact hlookup
    · cases h
  | null | bool _ | int _ | float _ | str _ | arr _ => cases h

theorem field?_ast_of_hasTree {source : Json} (h : hasTree source = .ok false) :
    source.field? "ast" = none := by
  cases source with
  | obj fields => exact Option.isSome_eq_false_iff.mp (Except.ok.inj h) |> Option.isNone_iff_eq_none.mp
  | null | bool _ | int _ | float _ | str _ | arr _ => rfl

theorem eq_filterMap_of_hasTree {entries : Fields} {trees : List Json}
    (h : (entries.filterMapM fun entry => do
      if ← hasTree entry.2 then return some (← entry.2.need "ast") else return none) = .ok trees) :
    trees = entries.filterMap fun entry => entry.2.field? "ast" := by
  induction entries generalizing trees with
  | nil =>
    cases h
    rfl
  | cons entry entries ih =>
    rw [List.filterMapM_cons] at h
    obtain ⟨tree, htree, h⟩ := bind_eq_ok_iff.mp h
    obtain ⟨has, hhas, htree⟩ := bind_eq_ok_iff.mp htree
    rw [List.filterMap_cons]
    cases has with
    | true =>
      obtain ⟨found, hfound, htree⟩ := bind_eq_ok_iff.mp htree
      cases htree
      obtain ⟨rest, hrest, h⟩ := bind_eq_ok_iff.mp h
      cases h
      rw [field?_of_need hfound, ih hrest]
    | false =>
      cases htree
      rw [field?_ast_of_hasTree hhas]
      exact ih h

theorem ofCompilation_eq (hbuild : Import.Build.ofJson v = .ok build) {nodes : Nodes}
    (h : Nodes.ofCompilation build.output = .ok nodes) : nodes = ⟨buildTrees v, []⟩ := by
  unfold Nodes.ofCompilation at h
  obtain ⟨sources, hsources, h⟩ := bind_eq_ok_iff.mp h
  obtain ⟨entries, hentries, h⟩ := bind_eq_ok_iff.mp h
  obtain ⟨trees, htrees, h⟩ := bind_eq_ok_iff.mp h
  cases h
  rw [output_ofJson hbuild] at hsources
  rw [buildTrees, ← entries_getOr hsources hentries, eq_filterMap_of_hasTree htrees]

end UpgradeSafety
