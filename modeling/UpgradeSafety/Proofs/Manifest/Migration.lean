import UpgradeSafety.Manifest.Migration
import UpgradeSafety.Proofs.Json.Reading
import UpgradeSafety.Proofs.Stateful

/-!
# Migrated manifests

A manifest that was migrated has the current format (`migration_eq_ok`), and one in the current
format stays as it is (`migration_of_isCurrent`).

Formats are named by texts and read as versions, and a migration makes the steps that do not start
before the version of the manifest, in their order. Four versions can be migrated
(`before_eq_false_iff`), and whichever it is, the last step puts the name of the current format
(`isCurrent_steps`); a manifest in the current format has no step left (`stepsFrom_current`). Each
step puts fields in an object, so that no field comes to occur twice (`isTidy_run`), provided that
an updater of layouts answers with values without repeated fields, too (`AnswersTidy`).

That is all that reading a manifest needs. What the single steps do to the other fields is told in
the module on migrations step by step.
-/

namespace UpgradeSafety.Manifest

open Json Stateful

/-- The fields of a manifest name the current format. -/
def IsCurrent (data : Fields) : Prop :=
  ∃ text, data.lookup "manifestVersion" = some (.str text) ∧ Version.ofText text = .ok .current

/-- An updater answers with values without repeated fields. -/
def AnswersTidy (update : Option Updater) : Prop :=
  ∀ u ∈ update, ∀ version layout v, u version layout = some v → v.IsTidy

theorem answersTidy_none : AnswersTidy none := fun _ h => nomatch h

/-! ## Versions -/

/-- A format that can be migrated is one of four. -/
theorem before_eq_false_iff {a b : Version} :
    a.before b = false ↔ b.major ≤ a.major ∧ (a.major = b.major → b.minor ≤ a.minor) := by
  simp [Version.before]

theorem eq_of_migratable {v : Version} (hold : v.before .oldest = false)
    (hnew : Version.current.before v = false) :
    v = ⟨3, 0⟩ ∨ v = ⟨3, 1⟩ ∨ v = ⟨3, 2⟩ ∨ v = ⟨3, 3⟩ := by
  obtain ⟨major, minor⟩ := v
  rw [before_eq_false_iff] at hold hnew
  simp only [Version.oldest, Version.current] at hold hnew
  simp only [Version.mk.injEq]
  omega

theorem ofText_currentVersion : Version.ofText currentVersion = .ok .current := by cbv

theorem text_beacons : MigrationStep.beacons.stop.text = currentVersion := by decide +kernel

theorem isCurrent_putField (data : Fields) :
    IsCurrent (putField "manifestVersion" (.str MigrationStep.beacons.stop.text) data) := by
  refine ⟨currentVersion, ?_, ofText_currentVersion⟩
  rw [lookup_putField_self, text_beacons]

theorem stepsFrom_eq_nil_or_append {v : Version} (hold : v.before .oldest = false)
    (hnew : Version.current.before v = false) :
    (v = .current ∧ stepsFrom v = []) ∨ ∃ steps, stepsFrom v = steps ++ [.beacons] := by
  rcases eq_of_migratable hold hnew with rfl | rfl | rfl | rfl
  · exact Or.inr ⟨[.refresh, .proxies], by decide +kernel⟩
  · exact Or.inr ⟨[.proxies], by decide +kernel⟩
  · exact Or.inr ⟨[], by decide +kernel⟩
  · exact Or.inl ⟨rfl, by decide +kernel⟩

theorem stepsFrom_current : stepsFrom .current = [] := by decide +kernel

/-! ## Steps -/

theorem isTidy_putField {fields : Fields} {key : String} {v : Json} (h : (obj fields).IsTidy)
    (hv : v.IsTidy) : (obj (putField key v fields)).IsTidy := by
  obtain ⟨hkeys, hfields⟩ := isTidy_obj.mp h
  refine isTidy_obj.mpr ⟨nodup_putField hkeys, fun f hf => ?_⟩
  rcases mem_putField hf with rfl | hf
  · exact hv
  · exact hfields f hf

theorem isTidy_putMissing {fields : Fields} {key : String} {v : Json} (h : (obj fields).IsTidy)
    (hv : v.IsTidy) : (obj (putMissing key v fields)).IsTidy := by
  unfold putMissing
  split
  · exact h
  · rename_i hmissing
    rw [Option.not_isSome_iff_eq_none, lookup_eq_none_iff_not_mem] at hmissing
    rw [← putField_not_mem hmissing]
    exact isTidy_putField h hv

section Steps

variable {update : Option Updater} (hupdate : AnswersTidy update)
  {data data' : Fields} {asked asked' : List Refresh}

theorem isTidy_refreshImplementation {u : Updater} (hu : AnswersTidy (some u)) {version : String}
    {impl impl' : Json} (h : (refreshImplementation u version impl).run.run asked =
      (.ok impl', asked')) (himpl : impl.IsTidy) : impl'.IsTidy := by
  unfold refreshImplementation at h
  split at h
  · split at h
    · rename_i fields layout hlayout
      obtain ⟨answer, s, hask, h⟩ := run_bind_eq_ok_iff.mp h
      obtain ⟨_, s', -, hask⟩ := run_bind_eq_ok_iff.mp hask
      cases hask
      split at h
      · rename_i fresh hfresh
        cases h
        exact isTidy_putField himpl (hu u rfl version layout fresh hfresh)
      · cases h
        exact himpl
    · cases h
      exact himpl
  · cases h

theorem isTidy_refreshed {u : Updater} (hu : AnswersTidy (some u)) {impls fresh : Fields}
    (h : (impls.mapM fun (version, impl) => do
      return (version, ← refreshImplementation u version impl)).run.run asked = (.ok fresh, asked'))
    (himpls : (obj impls).IsTidy) : (obj fresh).IsTidy := by
  have hfresh : List.Forall₂ (fun f g : String × Json => f.1 = g.1 ∧ (f.2.IsTidy → g.2.IsTidy))
      impls fresh := by
    refine (forall₂_of_run_mapM h).imp fun f g hrun => ?_
    obtain ⟨s, s', hrun⟩ := hrun
    obtain ⟨impl, s₁, himpl, hrun⟩ := run_bind_eq_ok_iff.mp hrun
    cases hrun
    exact ⟨rfl, isTidy_refreshImplementation hu himpl⟩
  rw [isTidy_obj] at himpls ⊢
  obtain ⟨hkeys, hvalues⟩ := himpls
  have hsame : impls.map (·.1) = fresh.map (·.1) :=
    List.forall₂_eq_eq_eq ▸ List.forall₂_map_left_iff.mpr
      (List.forall₂_map_right_iff.mpr (hfresh.imp fun _ _ hfg => hfg.1))
  refine ⟨hsame ▸ hkeys, fun g hg => ?_⟩
  obtain ⟨f, hf, -, hfg⟩ := exists_of_mem_forall₂ hfresh hg
  exact hfg (hvalues f hf)

include hupdate in
theorem isTidy_refreshLayouts (h : (refreshLayouts update data).run.run asked = (.ok data', asked'))
    (hdata : (obj data).IsTidy) : (obj data').IsTidy := by
  unfold refreshLayouts at h
  split at h
  · cases h
    exact hdata
  · split at h
    · rename_i u _ impls himpls
      obtain ⟨fresh, s, hfresh, h⟩ := run_bind_eq_ok_iff.mp h
      cases h
      split
      · rename_i hsome
        obtain ⟨v, hv⟩ := Option.isSome_iff_exists.mp hsome
        rw [hv, Option.getD_some] at himpls
        subst himpls
        have himpls := (isTidy_obj.mp hdata).2 _ (mem_of_lookup_eq_some hv)
        exact isTidy_putField hdata (isTidy_refreshed hupdate hfresh himpls)
      · exact hdata
    · cases h

theorem isTidy_addBeaconTable (hdata : (obj data).IsTidy) : (obj (addBeaconTable data)).IsTidy := by
  have hput : (obj (putMissing "beacons" (.obj []) data)).IsTidy :=
    isTidy_putMissing hdata (isTidy_obj.mpr ⟨List.nodup_nil, nofun⟩)
  unfold addBeaconTable
  dsimp only
  split
  · exact isTidy_putField hput (isTidy_obj.mpr ⟨List.nodup_singleton _, by simp [IsTidy]⟩)
  · exact hput

include hupdate in
/-- A step keeps the fields apart. -/
theorem isTidy_run (step : MigrationStep)
    (h : (step.run update data).run.run asked = (.ok data', asked')) (hdata : (obj data).IsTidy) :
    (obj data').IsTidy := by
  unfold MigrationStep.run at h
  obtain ⟨changed, s, hchange, h⟩ := run_bind_eq_ok_iff.mp h
  cases h
  refine isTidy_putField ?_ trivial
  cases step with
  | refresh => exact isTidy_refreshLayouts hupdate hchange hdata
  | proxies =>
    cases hchange
    exact isTidy_putMissing hdata (isTidy_arr.mpr nofun)
  | beacons =>
    cases hchange
    exact isTidy_addBeaconTable hdata

include hupdate in
theorem isTidy_steps {steps : List MigrationStep}
    (h : (steps.foldlM (fun data step => MigrationStep.run step update data) data).run.run asked =
      (.ok data', asked')) (hdata : (obj data).IsTidy) : (obj data').IsTidy := by
  induction steps generalizing data asked with
  | nil =>
    cases h
    exact hdata
  | cons step steps ih =>
    rw [List.foldlM_cons] at h
    obtain ⟨data₁, s, hstep, h⟩ := run_bind_eq_ok_iff.mp h
    exact ih h (isTidy_run hupdate step hstep hdata)

/-- After the last step a manifest has the current format. -/
theorem isCurrent_steps {steps : List MigrationStep}
    (h : ((steps ++ [MigrationStep.beacons]).foldlM
      (fun data step => MigrationStep.run step update data) data).run.run asked =
      (.ok data', asked')) : IsCurrent data' := by
  rw [List.foldlM_append] at h
  obtain ⟨data₁, s, -, h⟩ := run_bind_eq_ok_iff.mp h
  rw [List.foldlM_cons] at h
  obtain ⟨data₂, s', hlast, h⟩ := run_bind_eq_ok_iff.mp h
  cases h
  unfold MigrationStep.run at hlast
  obtain ⟨changed, s'', -, hlast⟩ := run_bind_eq_ok_iff.mp hlast
  cases hlast
  exact isCurrent_putField changed

end Steps

/-! ## Migration -/

variable {update : Option Updater} {data : Fields}

theorem ofJson_eq_ok {v : Json} {version : Version} (h : Version.ofJson v = .ok version) :
    ∃ text, v = .str text ∧ Version.ofText text = .ok version := by
  cases v with
  | str text => exact ⟨text, rfl, h⟩
  | _ => cases h

/-- A migrated manifest has the current format, and no field of it occurs twice. -/
theorem migration_eq_ok {m : Migrated} (hupdate : AnswersTidy update) (hdata : (obj data).IsTidy)
    (h : (migration update data).1 = .ok m) : (obj m.data).IsTidy ∧ IsCurrent m.data := by
  obtain ⟨refreshes, hrun⟩ : ∃ refreshes, (migrate update data).run.run [] = (.ok m, refreshes) :=
    ⟨_, Prod.ext h rfl⟩
  unfold migrate at hrun
  obtain ⟨version, s, hlift, hrun⟩ := run_bind_eq_ok_iff.mp hrun
  obtain ⟨hversion, rfl⟩ := Prod.mk.inj ((run_liftM _).symm.trans hlift)
  obtain ⟨text, htext, hparse⟩ := ofJson_eq_ok hversion
  split at hrun
  · cases hrun
  split at hrun
  · cases hrun
  rename_i hold hnew
  rw [Bool.not_eq_true] at hold hnew
  obtain ⟨data', s', hsteps, hrun⟩ := run_bind_eq_ok_iff.mp hrun
  cases hrun
  refine ⟨isTidy_steps hupdate hsteps hdata, ?_⟩
  rcases stepsFrom_eq_nil_or_append hold hnew with ⟨rfl, hnone⟩ | ⟨steps, hsome⟩
  · rw [hnone] at hsteps
    cases hsteps
    cases hlookup : data.lookup "manifestVersion" with
    | none =>
      rw [hlookup] at htext
      cases htext
    | some v =>
      rw [hlookup] at htext
      exact ⟨text, by rw [hlookup, ← htext]; rfl, hparse⟩
  · rw [hsome] at hsteps
    exact isCurrent_steps hsteps

/-- A manifest in the current format stays as it is. -/
theorem migration_of_isCurrent (h : IsCurrent data) :
    (migration update data).1 = .ok ⟨data, []⟩ := by
  obtain ⟨text, hlookup, hparse⟩ := h
  have hversion : Version.ofJson ((data.lookup "manifestVersion").getD .null) = .ok .current := by
    rw [hlookup]
    exact hparse
  have hrun : (migrate update data).run.run [] = (.ok ⟨data, []⟩, []) := by
    have hlift : (liftM (Version.ofJson ((data.lookup "manifestVersion").getD .null)) :
        Migrating Version).run.run [] = (.ok .current, []) := by
      rw [run_liftM, hversion]
    unfold migrate
    rw [run_bind_of_ok hlift, if_neg (by decide), if_neg (by decide), stepsFrom_current]
    rfl
  exact congrArg Prod.fst hrun

end UpgradeSafety.Manifest
