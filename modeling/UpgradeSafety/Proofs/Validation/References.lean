import UpgradeSafety.Proofs.Report.Shown
import UpgradeSafety.Proofs.Workspace
import UpgradeSafety.Validation.Upgrade

/-!
# References that lead to the same layout

A validation looks at nothing of the version it starts from but its layout, and at no more of the
layout than is shown (`Validator.validate_sameShown`): two references of any kind whose layouts
show the same lead to the same verdict, or to the same failure.

A reference may be a layout, a contract of the catalog, or an address that is looked up in a
manifest. `Finds` says of all of them that they lead to a layout, and leaves out what was logged on
the way. From there on a validation is the same for all: the layouts are compared, the operations
are put into a report, and the safety errors of the contract, which have nothing to do with the
reference, are added (`result_validate`).

The verdict is what is told of this (`UpgradeVerdict`), with the failure of a text that cannot be
written, and without the name of the version it started from, in which references differ.
-/

namespace UpgradeSafety

open Stateful

/-! ## Comparisons -/

/-- A comparison told of by what is shown of its operations. -/
theorem storageReport_sameShown {former former' : Layout} (h : former.SameShown former')
    (options : ValidationOptions) (updated : Layout) :
    (storageReport options former' updated).map (fun told => told.1.shown) =
      (storageReport options former updated).map (fun told => told.1.shown) := by
  unfold storageReport
  exact map_bind_congr (Compare.layouts_sameShown h updated) fun outcome outcome' hshown =>
    congrArg (fun o : Compare.Outcome => Except.ok (Report.mk o.operations)) hshown

/-! ## Verdicts -/

/-- All that a validation tells, except for what the version it starts from is called. -/
structure UpgradeVerdict where
  contract : String
  errors : List SafetyError
  storage : Option Verdict
  storageSkipped : Bool

/-- What the outcome of a validation tells. -/
def UpgradeReport.verdict (r : UpgradeReport) : UpgradeVerdict :=
  ⟨r.contract, r.errors, r.storage.map Report.verdict, r.storageSkipped⟩

namespace Validator

variable {σ : Type} {v : Validator} {w w' : Workspace σ} {reference reference' : Reference}
  {name name' : String} {former former' : Layout}

/-- What comparing the layout of a contract with a former one leads to. -/
def compared (options : ValidationOptions) (e : CatalogEntry) (report : UpgradeReport)
    (name : String) (former : Layout) : Except Failure UpgradeReport :=
  if options.skipStorageCheck then
    .ok { report with reference := some name, storageSkipped := true }
  else do
    let updated ← e.layout.mapError .refused
    let told ← storageReport options former updated
    return { report with reference := some name, storage := some told.1 }

theorem result_checkStorage (h : (v.resolve reference).run.run w = (.ok (name, former), w'))
    (options : ValidationOptions) (e : CatalogEntry) (report : UpgradeReport) :
    ((v.checkStorage options e reference report).run.run w).1 =
      compared options e report name former := by
  unfold checkStorage compared
  rw [run_bind_of_ok h]
  dsimp only
  split
  · rw [run_bind_of_ok (Act.run_tell _)]
    rfl
  · rw [run_bind, Act.run_ofResult]
    cases e.layout.mapError Failure.refused with
    | error e => rfl
    | ok updated =>
      dsimp only
      rw [run_bind, Act.run_ofResult, ok_bind]
      cases storageReport options former updated with
      | error e => rfl
      | ok told =>
        obtain ⟨storage, notes⟩ := told
        dsimp only
        rw [run_bind_of_ok (Act.run_tell _)]
        rfl

theorem compared_sameShown (h : former.SameShown former') (options : ValidationOptions)
    (e : CatalogEntry) (report : UpgradeReport) :
    (compared options e report name' former').map UpgradeReport.verdict =
      (compared options e report name former).map UpgradeReport.verdict := by
  unfold compared
  split
  · rfl
  · refine map_bind_congr (k := id) rfl fun updated updated' hupdated => ?_
    obtain rfl : updated' = updated := hupdated
    refine map_bind_congr (storageReport_sameShown h options updated') fun told told' htold => ?_
    have hverdict : told'.1.verdict = told.1.verdict := by
      rw [← Report.verdict_shown, htold, Report.verdict_shown]
    exact congrArg (fun verdict => Except.ok (UpgradeVerdict.mk _ _ (some verdict) _)) hverdict

/-- A reference leads to a layout, whatever the log says. -/
def Finds (v : Validator) (w : Workspace σ) (reference : Reference) (layout : Layout) : Prop :=
  ∃ name, ∀ log, ∃ w', (v.resolve reference).run.run { w with log } = (.ok (name, layout), w')

/-- A reference that needs no manifest: a layout, or a contract of the catalog that has a layout. -/
inductive InMemory (v : Validator) (layout : Layout) : Reference → Prop where
  | layout : InMemory v layout (.layout layout)
  | contract {name : String} {e : CatalogEntry} (hname : isAddress name = false)
      (hcontract : v.catalog.contractNamed name = .ok e)
      (hlayout : e.record.layout = some layout) : InMemory v layout (.named name)

theorem InMemory.finds (h : v.InMemory former reference) (w : Workspace σ) :
    v.Finds w reference former := by
  cases h with
  | layout => exact ⟨"reference layout", fun log => ⟨_, rfl⟩⟩
  | @contract name e hname hcontract hlayout =>
    refine ⟨e.key, fun log => ⟨{ w with log }, ?_⟩⟩
    have hfound : e.layout.mapError Failure.refused = .ok former := by
      unfold CatalogEntry.layout
      rw [hlayout]
      rfl
    unfold resolve
    dsimp only
    rw [if_neg (by simp [hname]), Act.run_ofResult, hcontract]
    change ((do return (e.key, ← e.layout.mapError Failure.refused) : Except Failure _), _) = _
    rw [hfound]
    rfl

/-- An address leads to the layout at it. -/
theorem finds_address {address : String} (haddress : isAddress address = true)
    (h : ∀ log, ∃ w', (v.layoutAt address).run.run { w with log } = (.ok former, w')) :
    v.Finds w (.named address) former := by
  refine ⟨address, fun log => ?_⟩
  obtain ⟨w', hfound⟩ := h log
  refine ⟨w', ?_⟩
  unfold resolve
  dsimp only
  rw [if_pos haddress, run_bind_of_ok hfound]
  rfl

/-- What a validation leads to depends on the layout of the version that it starts from. -/
theorem result_validate (h : ∀ log, ∃ w', (v.resolve reference).run.run { w with log } =
      (.ok (name, former), w')) (contract : String) (options : ValidationOptions) :
    ((v.validate contract (some reference) options).run.run w).1 =
      (v.catalog.contractNamed contract).mapError Failure.refused >>= fun e =>
        compared options.expand e
          { contract := e.key
            errors := (Safety.dropAllowed e.key (e.errors options.expand.kind) options.expand).1 }
          name former := by
  unfold validate
  rw [run_bind, Act.run_ofResult]
  cases (v.catalog.contractNamed contract).mapError Failure.refused with
  | error e => rfl
  | ok e =>
    dsimp only
    rw [ok_bind]
    generalize Safety.dropAllowed e.key (e.errors options.expand.kind) options.expand = dropped
    obtain ⟨errors, warnings⟩ := dropped
    dsimp only
    rw [run_bind_of_ok (Act.run_tell _)]
    obtain ⟨w', hresolve⟩ := h (w.log ++ warnings)
    have hresult := result_checkStorage hresolve options.expand e { contract := e.key, errors }
    rw [← hresult, run_bind]
    rcases (v.checkStorage options.expand e reference { contract := e.key, errors }).run.run
      { w with log := w.log ++ warnings } with ⟨result, w''⟩
    cases result <;> rfl

/-- Two references whose layouts show the same lead to the same verdict. -/
theorem validate_sameShown (h : v.Finds w reference former) (h' : v.Finds w reference' former')
    (hsame : former.SameShown former') (contract : String) (options : ValidationOptions) :
    ((v.validate contract (some reference') options).run.run w).1.map UpgradeReport.verdict =
      ((v.validate contract (some reference) options).run.run w).1.map UpgradeReport.verdict := by
  obtain ⟨name, hfinds⟩ := h
  obtain ⟨name', hfinds'⟩ := h'
  rw [result_validate hfinds, result_validate hfinds']
  refine map_bind_congr (k := id) rfl fun e e' he => ?_
  obtain rfl : e' = e := he
  exact compared_sameShown hsame options.expand e' _

end Validator

end UpgradeSafety
