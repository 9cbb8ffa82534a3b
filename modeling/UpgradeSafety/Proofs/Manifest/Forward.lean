import UpgradeSafety.Proofs.Manifest.Migration

/-!
# Migration step by step

A manifest in one of the formats 3.0 to 3.3 is brought to the current format by the steps from its
format on. Only the first of them asks for layouts, and only it can fail: when there is no table of
implementations or one of them is no object. A step keeps the fields that it does not concern
(`Keeps`), and what the first one does to an implementation concerns its layout alone
(`Refreshed`).

What a migration gives is said by one structure (`MigratesTo`): the format afterwards, that
migrating once more changes nothing, that the result is what the steps make one after the other,
what is kept, and which implementations are asked for, in order, with what the answers do to them.
The formats differ only in where they begin in the list of all steps, so that the rest of this list
is what is argued about.

* `migration_forward`: what a migration gives for each format, and that all other formats are
  refused.
-/

namespace UpgradeSafety.Manifest

open Json Stateful

variable {update : Option Updater} {u : Updater} {data data' data'' : Fields} {asked asked' : List Refresh}
  {steps : List MigrationStep}

/-- The format that a manifest names. -/
def formatOf (data : Fields) : Except Refusal Version :=
  Version.ofJson ((data.lookup "manifestVersion").getD .null)

theorem formatOf_eq_current_iff : formatOf data = .ok .current ↔ IsCurrent data := by
  constructor
  · intro h
    obtain ⟨text, htext, hparse⟩ := ofJson_eq_ok h
    cases hlookup : data.lookup "manifestVersion" with
    | none =>
      rw [hlookup] at htext
      cases htext
    | some v =>
      rw [hlookup, Option.getD_some] at htext
      exact ⟨text, by rw [hlookup, htext], hparse⟩
  · rintro ⟨text, hlookup, hparse⟩
    rw [formatOf, hlookup]
    exact hparse

/-! ## Implementations -/

/-- A value is an object. -/
def IsObject (v : Json) : Prop := ∃ fields, v = .obj fields

/-- The question for a newer layout that an implementation leads to; it has a layout that is an object. -/
def question? (u : Updater) (e : String × Json) : Option Refresh :=
  match e.2.field "layout" with
  | .obj layout => some ⟨e.1, layout, u e.1 layout⟩
  | _ => none

/-- The newer layout of an implementation. -/
def newLayout? (u : Updater) (e : String × Json) : Option Json := (question? u e).bind Refresh.answer

/-- An implementation with the newer layout, if there is one. -/
def refreshed (u : Updater) (e : String × Json) : Json :=
  match e.2, newLayout? u e with
  | .obj fields, some fresh => .obj (putField "layout" fresh fields)
  | v, _ => v

/-- An implementation is as before, except that its layout is replaced just when the updater gives a newer
one. -/
structure Refreshed (u : Updater) (e e' : String × Json) : Prop where
  version : e'.1 = e.1
  layout : e'.2.field "layout" = (newLayout? u e).getD (e.2.field "layout")
  others : ∀ key ≠ "layout", e'.2.field? key = e.2.field? key
  kept : newLayout? u e = none → e' = e

theorem refreshed_spec (u : Updater) (version : String) (fields : Fields) :
    Refreshed u (version, .obj fields) (version, refreshed u (version, .obj fields)) := by
  unfold refreshed
  cases hnew : newLayout? u (version, .obj fields) with
  | none => exact ⟨rfl, by rw [hnew]; rfl, fun _ _ => rfl, fun _ => rfl⟩
  | some fresh =>
    refine ⟨rfl, ?_, fun key hkey => lookup_putField_other hkey, fun hnone => ?_⟩
    · rw [hnew, field, field?, lookup_putField_self]
      rfl
    · rw [hnew] at hnone
      cases hnone

theorem run_refreshImplementation (u : Updater) (version : String) (fields : Fields) :
    (refreshImplementation u version (.obj fields)).run.run asked =
      (.ok (refreshed u (version, .obj fields)),
        asked ++ (question? u (version, .obj fields)).toList) := by
  unfold refreshImplementation refreshed newLayout? question?
  cases hlayout : (Json.obj fields).field "layout" with
  | obj layout =>
    have hask : (askLayout u version layout).run.run asked =
        (.ok (u version layout), asked ++ [⟨version, layout, u version layout⟩]) := rfl
    dsimp only
    rw [run_bind_of_ok hask]
    cases u version layout <;> rfl
  | null | bool _ | int _ | float _ | str _ | arr _ =>
    rw [Option.toList_none, List.append_nil]
    rfl

/-- Every implementation that is an object is refreshed. -/
theorem run_refreshImplementations {impls : Fields} (h : ∀ e ∈ impls, IsObject e.2) :
    (impls.mapM fun (version, impl) => do
      return (version, ← refreshImplementation u version impl)).run.run asked =
      (.ok (impls.map fun e => (e.1, refreshed u e)), asked ++ impls.filterMap (question? u)) := by
  induction impls generalizing asked with
  | nil =>
    rw [List.mapM_nil, List.filterMap_nil, List.append_nil]
    rfl
  | cons e rest ih =>
    obtain ⟨version, impl⟩ := e
    rw [List.forall_mem_cons] at h
    obtain ⟨⟨fields, rfl⟩, hrest⟩ := h
    have hfirst : (do
        return (version, ← refreshImplementation u version (.obj fields)) :
          Migrating (String × Json)).run.run asked =
        (.ok (version, refreshed u (version, .obj fields)),
          asked ++ (question? u (version, .obj fields)).toList) := by
      rw [run_bind_of_ok (run_refreshImplementation u version fields)]
      rfl
    rw [List.mapM_cons, run_bind_of_ok hfirst, run_bind_of_ok (ih hrest), List.append_assoc,
      List.filterMap_cons]
    cases question? u (version, .obj fields) <;> rfl

/-- The first implementation that is no object makes the refreshing fail. -/
theorem run_refreshImplementations_error {front back : Fields} {version : String} {impl : Json}
    (hfront : ∀ e ∈ front, IsObject e.2) (himpl : ¬ IsObject impl) :
    ((front ++ (version, impl) :: back).mapM fun (version, impl) => do
      return (version, ← refreshImplementation u version impl)).run.run asked =
      (.error (.implNotRecord version), asked ++ front.filterMap (question? u)) := by
  rw [List.mapM_append, run_bind_of_ok (run_refreshImplementations hfront), List.mapM_cons]
  have hrefused : (refreshImplementation u version impl).run.run (asked ++ front.filterMap (question? u)) =
      (.error (.implNotRecord version), asked ++ front.filterMap (question? u)) := by
    cases impl with
    | obj fields => exact absurd ⟨fields, rfl⟩ himpl
    | null | bool _ | int _ | float _ | str _ | arr _ => rfl
  exact run_bind_of_error (run_bind_of_error (run_bind_of_error hrefused))

/-! ## The table of implementations -/

instance : DecidablePred IsObject := fun v =>
  match v with
  | .obj fields => isTrue ⟨fields, rfl⟩
  | .null | .bool _ | .int _ | .float _ | .str _ | .arr _ => isFalse nofun

/-- The implementations of a manifest. -/
def implsOf (data : Fields) : Fields :=
  match data.lookup "impls" with
  | some (.obj impls) => impls
  | _ => []

/-- Why the layouts of a manifest cannot be refreshed: its implementations are no table, or one of them is
no object. -/
inductive Unrefreshable (data : Fields) : Refusal → Prop where
  | table {v : Json} (hlookup : data.lookup "impls" = some v) (hv : ¬ IsObject v) :
      Unrefreshable data .implsNotTable
  | record {front back : Fields} {version : String} {impl : Json}
      (hlookup : data.lookup "impls" = some (.obj (front ++ (version, impl) :: back)))
      (hfront : ∀ e ∈ front, IsObject e.2) (himpl : ¬ IsObject impl) :
      Unrefreshable data (.implNotRecord version)

theorem Unrefreshable.family {e : Refusal} (h : Unrefreshable data e) : e.family = .migration := by
  cases h <;> rfl

theorem impls_of_refreshable (h : ∀ e, ¬ Unrefreshable data e) : data.lookup "impls" = none ∨
    ∃ impls, data.lookup "impls" = some (.obj impls) ∧ ∀ e ∈ impls, IsObject e.2 := by
  cases hlookup : data.lookup "impls" with
  | none => exact Or.inl rfl
  | some v =>
    obtain ⟨impls, rfl⟩ : IsObject v := by
      by_contra hv
      exact h _ (.table hlookup hv)
    refine Or.inr ⟨impls, rfl, ?_⟩
    cases hfind : impls.find? (fun e => ¬ IsObject e.2) with
    | none => simpa using hfind
    | some e =>
      obtain ⟨he, front, back, rfl, hfront⟩ := List.find?_eq_some_iff_append.mp hfind
      exact absurd (.record hlookup (by simpa using hfront) (by simpa using he)) (h _)

theorem run_refreshLayouts_error (u : Updater) (asked : List Refresh) {e : Refusal}
    (h : Unrefreshable data e) :
    ∃ asked', (refreshLayouts (some u) data).run.run asked = (.error e, asked') := by
  unfold refreshLayouts
  cases h with
  | @table v hlookup hv =>
    refine ⟨asked, ?_⟩
    rw [hlookup]
    cases v with
    | obj fields => exact absurd ⟨fields, rfl⟩ hv
    | null | bool _ | int _ | float _ | str _ | arr _ => rfl
  | record hlookup hfront himpl =>
    rw [hlookup]
    exact ⟨_, run_bind_of_error (run_refreshImplementations_error hfront himpl)⟩

theorem run_refreshLayouts_none (h : data.lookup "impls" = none) :
    (refreshLayouts (some u) data).run.run asked = (.ok data, asked) := by
  unfold refreshLayouts
  rw [h]
  rfl

theorem run_refreshLayouts {impls : Fields} (hlookup : data.lookup "impls" = some (.obj impls))
    (himpls : ∀ e ∈ impls, IsObject e.2) : (refreshLayouts (some u) data).run.run asked =
      (.ok (putField "impls" (.obj (impls.map fun e => (e.1, refreshed u e))) data),
        asked ++ impls.filterMap (question? u)) := by
  unfold refreshLayouts
  rw [hlookup]
  exact run_bind_of_ok (run_refreshImplementations himpls)

/-! ## Steps -/

/-- A manifest keeps the fields that no step concerns, and the proxies and beacons that it has. -/
structure Keeps (data data' : Fields) : Prop where
  others : ∀ key ∉ ["manifestVersion", "admin", "proxies", "beacons", "impls"],
    data'.lookup key = data.lookup key
  proxies : ∀ v, data.lookup "proxies" = some v → data'.lookup "proxies" = some v
  beacons : ∀ v, data.lookup "beacons" = some v → data'.lookup "beacons" = some v

theorem Keeps.refl (data : Fields) : Keeps data data := ⟨fun _ _ => rfl, fun _ h => h, fun _ h => h⟩

theorem Keeps.trans (h : Keeps data data') (h' : Keeps data' data'') : Keeps data data'' where
  others key hkey := (h'.others key hkey).trans (h.others key hkey)
  proxies v hv := h'.proxies v (h.proxies v hv)
  beacons v hv := h'.beacons v (h.beacons v hv)

theorem keeps_putField {key : String} (hkey : key ∈ ["manifestVersion", "admin", "impls"]) (v : Json)
    (data : Fields) : Keeps data (putField key v data) where
  others other hother := lookup_putField_other fun heq => hother <| by
    subst heq
    simp only [List.mem_cons, List.not_mem_nil, or_false] at hkey ⊢
    tauto
  proxies w hw := by rwa [lookup_putField_other fun heq => absurd (heq ▸ hkey) (by decide)]
  beacons w hw := by rwa [lookup_putField_other fun heq => absurd (heq ▸ hkey) (by decide)]

theorem lookup_putMissing_of_some {key other : String} {v w : Json} (h : data.lookup other = some w) :
    (putMissing key v data).lookup other = some w := by
  unfold putMissing
  split
  · exact h
  · rw [lookup_append_or, h, Option.some_or]

theorem lookup_putMissing_other {key other : String} (h : other ≠ key) (v : Json) :
    (putMissing key v data).lookup other = data.lookup other := by
  unfold putMissing
  split
  · rfl
  · rw [lookup_append_or, lookup_cons_other h, List.lookup_nil, Option.or_none]

theorem keeps_putMissing {key : String} (hkey : key ∈ ["proxies", "beacons"]) (v : Json)
    (data : Fields) : Keeps data (putMissing key v data) where
  others other hother := lookup_putMissing_other (fun heq => hother <| by
    subst heq
    simp only [List.mem_cons, List.not_mem_nil, or_false] at hkey ⊢
    tauto) v
  proxies _ hw := lookup_putMissing_of_some hw
  beacons _ hw := lookup_putMissing_of_some hw

theorem keeps_addBeaconTable (data : Fields) : Keeps data (addBeaconTable data) := by
  have hmissing : Keeps data (putMissing "beacons" (.obj []) data) := keeps_putMissing (by simp) _ _
  unfold addBeaconTable
  dsimp only
  split
  · exact hmissing.trans (keeps_putField (by simp) _ _)
  · exact hmissing

theorem keeps_run {step : MigrationStep}
    (h : (step.run update data).run.run asked = (.ok data', asked')) : Keeps data data' := by
  unfold MigrationStep.run at h
  obtain ⟨changed, s, hchange, h⟩ := run_bind_eq_ok_iff.mp h
  cases h
  refine Keeps.trans ?_ (keeps_putField (by simp) _ _)
  cases step with
  | refresh =>
    change (refreshLayouts update data).run.run asked = _ at hchange
    unfold refreshLayouts at hchange
    split at hchange
    · cases hchange
      exact .refl data
    · split at hchange
      · obtain ⟨fresh, s, -, hchange⟩ := run_bind_eq_ok_iff.mp hchange
        cases hchange
        split
        · exact keeps_putField (by simp) _ _
        · exact .refl data
      · cases hchange
  | proxies =>
    cases hchange
    exact keeps_putMissing (by simp) _ _
  | beacons =>
    cases hchange
    exact keeps_addBeaconTable data

/-- Makes steps one after the other. -/
def runSteps (update : Option Updater) (steps : List MigrationStep) (data : Fields) : Migrating Fields :=
  steps.foldlM (fun data step => step.run update data) data

theorem runSteps_cons (update : Option Updater) (step : MigrationStep) (data : Fields) :
    runSteps update (step :: steps) data = step.run update data >>= runSteps update steps := rfl

theorem keeps_runSteps (h : (runSteps update steps data).run.run asked = (.ok data', asked')) :
    Keeps data data' := by
  induction steps generalizing data asked with
  | nil =>
    cases h
    exact .refl _
  | cons step steps ih =>
    rw [runSteps_cons] at h
    obtain ⟨data₁, s, hstep, h⟩ := run_bind_eq_ok_iff.mp h
    exact (keeps_run hstep).trans (ih h)

theorem lookup_impls_addBeaconTable (data : Fields) :
    (addBeaconTable data).lookup "impls" = data.lookup "impls" := by
  unfold addBeaconTable
  dsimp only
  split
  · rw [lookup_putField_other (by decide), lookup_putMissing_other (by decide)]
  · exact lookup_putMissing_other (by decide) _

/-- A step that asks for no layouts succeeds and leaves the implementations as they are. -/
theorem run_step (data : Fields) (asked : List Refresh) {step : MigrationStep}
    (hstep : step = .refresh → update = none) :
    ∃ data', (step.run update data).run.run asked = (.ok data', asked) ∧
      data'.lookup "impls" = data.lookup "impls" := by
  obtain ⟨changed, hchange, himpls⟩ : ∃ changed, (step.change update data).run.run asked =
      (.ok changed, asked) ∧ changed.lookup "impls" = data.lookup "impls" := by
    cases step with
    | refresh =>
      rw [hstep rfl]
      exact ⟨_, rfl, rfl⟩
    | proxies => exact ⟨_, rfl, lookup_putMissing_other (by decide) _⟩
    | beacons => exact ⟨_, rfl, lookup_impls_addBeaconTable data⟩
  exact ⟨_, run_bind_of_ok hchange, by rw [lookup_putField_other (by decide), himpls]⟩

theorem run_runSteps (data : Fields) (asked : List Refresh)
    (hsteps : ∀ step ∈ steps, step = .refresh → update = none) :
    ∃ data', (runSteps update steps data).run.run asked = (.ok data', asked) ∧
      data'.lookup "impls" = data.lookup "impls" := by
  induction steps generalizing data with
  | nil => exact ⟨_, rfl, rfl⟩
  | cons step steps ih =>
    rw [List.forall_mem_cons] at hsteps
    obtain ⟨data₁, hrun, himpls⟩ := run_step data asked hsteps.1
    obtain ⟨data₂, hrun', himpls'⟩ := ih data₁ hsteps.2
    rw [runSteps_cons, run_bind_of_ok hrun]
    exact ⟨data₂, hrun', himpls'.trans himpls⟩

/-! ## Formats -/

theorem stepsFrom_eq {k : Nat} (hk : k ≤ 3) : stepsFrom ⟨3, k⟩ = MigrationStep.all.drop k := by
  match k, hk with
  | 0, _ | 1, _ | 2, _ | 3, _ => decide +kernel

theorem run_migrate (update : Option Updater) (asked : List Refresh) {k : Nat} (hk : k ≤ 3)
    (h : formatOf data = .ok ⟨3, k⟩) :
    (migrate update data).run.run asked = ((fun data' => (⟨data', MigrationStep.all.drop k⟩ : Migrated)) <$>
      runSteps update (MigrationStep.all.drop k) data).run.run asked := by
  have hold : Version.before ⟨3, k⟩ .oldest = false := by
    rw [before_eq_false_iff]
    exact ⟨Int.le_refl 3, fun _ => Int.natCast_nonneg k⟩
  have hnew : Version.current.before ⟨3, k⟩ = false := by
    rw [before_eq_false_iff]
    exact ⟨Int.le_refl 3, fun _ => Int.ofNat_le.mpr hk⟩
  have hlift : (liftM (formatOf data) : Migrating Version).run.run asked = (.ok ⟨3, k⟩, asked) := by
    rw [run_liftM, h]
  unfold formatOf at hlift
  unfold migrate
  dsimp only
  rw [run_bind_of_ok hlift, hold, hnew, if_neg Bool.false_ne_true, if_neg Bool.false_ne_true,
    stepsFrom_eq hk, map_eq_pure_bind, runSteps]

theorem family_of_ofJson {v : Json} {e : Refusal} (h : Version.ofJson v = .error e) :
    e.family = .migration := by
  cases v with
  | str s =>
    change Version.ofText s = .error e at h
    unfold Version.ofText at h
    split at h
    · split at h
      · cases h
      · cases h
        rfl
    · cases h
      rfl
  | null | bool _ | int _ | float _ | arr _ | obj _ =>
    cases h
    rfl

/-- A manifest in no format from 3.0 to 3.3 is refused. -/
theorem run_migrate_error (update : Option Updater) (asked : List Refresh)
    (h : ∀ k : Nat, k ≤ 3 → formatOf data ≠ .ok ⟨3, k⟩) :
    ∃ e : Refusal, e.family = .migration ∧ (migrate update data).run.run asked = (.error e, asked) := by
  unfold migrate
  dsimp only
  cases hformat : formatOf data with
  | error e =>
    have hlift : (liftM (formatOf data) : Migrating Version).run.run asked = (.error e, asked) := by
      rw [run_liftM, hformat]
    exact ⟨e, family_of_ofJson hformat, run_bind_of_error hlift⟩
  | ok version =>
    have hlift : (liftM (formatOf data) : Migrating Version).run.run asked = (.ok version, asked) := by
      rw [run_liftM, hformat]
    unfold formatOf at hlift
    rw [run_bind_of_ok hlift]
    split
    · exact ⟨_, rfl, rfl⟩
    · rename_i hold
      split
      · exact ⟨_, rfl, rfl⟩
      · rename_i hnew
        rw [Bool.not_eq_true] at hold hnew
        rcases eq_of_migratable hold hnew with rfl | rfl | rfl | rfl
        · exact absurd hformat (h 0 (by decide))
        · exact absurd hformat (h 1 (by decide))
        · exact absurd hformat (h 2 (by decide))
        · exact absurd hformat (h 3 (by decide))

/-! ## Migration -/

theorem migration_of_run {result : Except Refusal Migrated}
    (h : (migrate update data).run.run [] = (result, asked)) :
    ∃ notes, migration update data = (result, asked, notes) := by
  unfold migration
  rw [h]
  exact ⟨_, rfl⟩

/-- What a migration from the format 3.k makes of a manifest, and what it asks for on the way. -/
structure MigratesTo (update : Option Updater) (k : Nat) (data data' : Fields) (asked : List Refresh) :
    Prop where
  /-- The result has the current format. -/
  current : formatOf data' = .ok .current
  /-- It is not changed by another migration, which asks for nothing. -/
  settled : ∀ update', migration update' data' = (.ok ⟨data', []⟩, [], [])
  /-- It is what the steps from the format on make of the manifest, one after the other. -/
  composed : (runSteps update (MigrationStep.all.drop k) data).run.run [] = (.ok data', asked)
  keeps : Keeps data data'
  /-- Implementations are refreshed from the first format only. -/
  implsKept : (k = 0 → update = none) → data'.lookup "impls" = data.lookup "impls" ∧ asked = []
  /-- Every implementation with a layout is asked for once, in order, and gets the answer. -/
  implsRefreshed : k = 0 → ∀ u, update = some u → asked = (implsOf data).filterMap (question? u) ∧
    (data.lookup "impls" = none → data'.lookup "impls" = none) ∧
    ∀ impls, data.lookup "impls" = some (.obj impls) → ∃ impls',
      data'.lookup "impls" = some (.obj impls') ∧ List.Forall₂ (Refreshed u) impls impls'

theorem migration_of_current (h : formatOf data = .ok .current) :
    migration update data = (.ok ⟨data, []⟩, [], []) := by
  have hrun : (migrate update data).run.run [] = (.ok ⟨data, []⟩, []) :=
    run_migrate update [] (Nat.le_refl 3) h
  unfold migration
  rw [hrun]
  rfl

/-- The steps from a format on. -/
theorem drop_all {k : Nat} (hk : k ≤ 3) : (k = 3 ∧ MigrationStep.all.drop k = []) ∨
    ∃ steps, MigrationStep.all.drop k = steps ++ [.beacons] := by
  match k, hk with
  | 0, _ => exact Or.inr ⟨[.refresh, .proxies], rfl⟩
  | 1, _ => exact Or.inr ⟨[.proxies], rfl⟩
  | 2, _ => exact Or.inr ⟨[], rfl⟩
  | 3, _ => exact Or.inl ⟨rfl, rfl⟩

theorem changed_drop {k : Nat} (hk : k ≤ 3) :
    Migrated.changed ⟨data, MigrationStep.all.drop k⟩ = decide (k < 3) := by
  match k, hk with
  | 0, _ | 1, _ | 2, _ | 3, _ => rfl

theorem eq_zero_of_refresh_mem {k : Nat} (hk : k ≤ 3)
    (h : MigrationStep.refresh ∈ MigrationStep.all.drop k) : k = 0 := by
  match k, hk with
  | 0, _ => rfl
  | 1, _ | 2, _ | 3, _ => simp [MigrationStep.all] at h

theorem formatOf_steps {k : Nat} (hk : k ≤ 3) (hformat : formatOf data = .ok ⟨3, k⟩)
    (hsteps : (runSteps update (MigrationStep.all.drop k) data).run.run asked = (.ok data', asked')) :
    formatOf data' = .ok .current := by
  rcases drop_all hk with ⟨rfl, hnone⟩ | ⟨steps, hsome⟩
  · rw [hnone] at hsteps
    cases hsteps
    exact hformat
  · rw [hsome] at hsteps
    exact formatOf_eq_current_iff.mpr (isCurrent_steps hsteps)

/-- From 3.0 the implementations are refreshed, and the other steps leave them as they are. -/
theorem run_allSteps (u : Updater) (h : ∀ e, ¬ Unrefreshable data e) : ∃ data',
    (runSteps (some u) MigrationStep.all data).run.run [] =
      (.ok data', (implsOf data).filterMap (question? u)) ∧
    (data.lookup "impls" = none → data'.lookup "impls" = none) ∧
    ∀ impls, data.lookup "impls" = some (.obj impls) → ∃ impls',
      data'.lookup "impls" = some (.obj impls') ∧ List.Forall₂ (Refreshed u) impls impls' := by
  have hlater : ∀ step ∈ [MigrationStep.proxies, .beacons], step = .refresh → some u = none := by
    simp
  have hstart (changed : Fields) {asked : List Refresh}
      (hrun : (refreshLayouts (some u) data).run.run [] = (.ok changed, asked)) : ∃ data',
      (runSteps (some u) MigrationStep.all data).run.run [] = (.ok data', asked) ∧
        data'.lookup "impls" = changed.lookup "impls" := by
    have hfirst : (MigrationStep.run .refresh (some u) data).run.run [] =
        (.ok (putField "manifestVersion" (.str MigrationStep.refresh.stop.text) changed), asked) :=
      run_bind_of_ok hrun
    obtain ⟨data', hrest, himpls⟩ := run_runSteps (putField "manifestVersion"
      (.str MigrationStep.refresh.stop.text) changed) asked hlater
    refine ⟨data', ?_, himpls.trans (lookup_putField_other (by decide))⟩
    rw [MigrationStep.all, runSteps_cons, run_bind_of_ok hfirst]
    exact hrest
  rcases impls_of_refreshable h with hnone | ⟨impls, hlookup, himpls⟩
  · obtain ⟨data', hrun, hkept⟩ := hstart data (run_refreshLayouts_none hnone)
    have hempty : implsOf data = [] := by
      rw [implsOf, hnone]
    rw [hempty]
    refine ⟨data', hrun, fun _ => hkept.trans hnone, fun impls himpls => ?_⟩
    rw [hnone] at himpls
    cases himpls
  · obtain ⟨data', hrun, hkept⟩ := hstart _ (run_refreshLayouts hlookup himpls)
    have hall : implsOf data = impls := by
      rw [implsOf, hlookup]
    rw [hall]
    refine ⟨data', hrun, fun hnone => ?_, fun impls' himpls' => ?_⟩
    · rw [hlookup] at hnone
      cases hnone
    · rw [hlookup] at himpls'
      cases himpls'
      refine ⟨_, hkept.trans lookup_putField_self, ?_⟩
      refine List.forall₂_map_right_iff.mpr (List.forall₂_same.mpr fun e he => ?_)
      obtain ⟨version, impl⟩ := e
      obtain ⟨fields, rfl⟩ := himpls _ he
      exact refreshed_spec u version fields

/-- The steps of a migration decide its result. -/
theorem migration_of_runSteps {k : Nat} {result : Except Refusal Fields} (hk : k ≤ 3)
    (hformat : formatOf data = .ok ⟨3, k⟩)
    (hsteps : (runSteps update (MigrationStep.all.drop k) data).run.run [] = (result, asked)) :
    ∃ notes, migration update data =
      (result.map fun data' => ⟨data', MigrationStep.all.drop k⟩, asked, notes) := by
  have hmigrate := run_migrate update [] hk hformat
  rw [run_map, hsteps] at hmigrate
  exact migration_of_run hmigrate

/-- Layouts that cannot be refreshed are refused. -/
theorem migration_unrefreshable (u : Updater) {e : Refusal} (hformat : formatOf data = .ok ⟨3, 0⟩)
    (he : Unrefreshable data e) : (migration (some u) data).1 = .error e := by
  obtain ⟨asked, hrun⟩ := run_refreshLayouts_error u [] he
  have hfirst : (MigrationStep.run .refresh (some u) data).run.run [] = (.error e, asked) :=
    run_bind_of_error hrun
  have hsteps : (runSteps (some u) (MigrationStep.all.drop 0) data).run.run [] = (.error e, asked) :=
    run_bind_of_error hfirst
  obtain ⟨notes, hresult⟩ := migration_of_runSteps (Nat.zero_le 3) hformat hsteps
  rw [hresult]
  rfl

/-- Steps that come to an end migrate to the current format. -/
theorem migratesTo_of_runSteps {k : Nat} (hk : k ≤ 3) (hformat : formatOf data = .ok ⟨3, k⟩)
    (hsteps : (runSteps update (MigrationStep.all.drop k) data).run.run [] = (.ok data', asked))
    (hkept : (k = 0 → update = none) → data'.lookup "impls" = data.lookup "impls" ∧ asked = [])
    (hrefreshed : k = 0 → ∀ u, update = some u → asked = (implsOf data).filterMap (question? u) ∧
      (data.lookup "impls" = none → data'.lookup "impls" = none) ∧
      ∀ impls, data.lookup "impls" = some (.obj impls) → ∃ impls',
        data'.lookup "impls" = some (.obj impls') ∧ List.Forall₂ (Refreshed u) impls impls') :
    ∃ m asked notes, migration update data = (.ok m, asked, notes) ∧
      m.changed = decide (k < 3) ∧ MigratesTo update k data m.data asked := by
  obtain ⟨notes, hresult⟩ := migration_of_runSteps hk hformat hsteps
  have hcurrent := formatOf_steps hk hformat hsteps
  exact ⟨_, asked, notes, hresult, changed_drop hk, hcurrent,
    fun update' => migration_of_current hcurrent, hsteps, keeps_runSteps hsteps, hkept, hrefreshed⟩

/-- A migration goes forward to the current format, for every manifest in one of the formats 3.0 to 3.3,
unless layouts are to be refreshed that cannot be. Manifests in other formats are refused. -/
theorem migration_forward (update : Option Updater) (data : Fields) :
    (∀ k : Nat, k ≤ 3 → formatOf data = .ok ⟨3, k⟩ →
      (∀ e, k = 0 → update ≠ none → Unrefreshable data e →
        e.family = .migration ∧ (migration update data).1 = .error e) ∧
      ((k = 0 → update ≠ none → ∀ e, ¬ Unrefreshable data e) →
        ∃ m asked notes, migration update data = (.ok m, asked, notes) ∧
          m.changed = decide (k < 3) ∧ MigratesTo update k data m.data asked)) ∧
    ((∀ k : Nat, k ≤ 3 → formatOf data ≠ .ok ⟨3, k⟩) →
      ∃ e : Refusal, e.family = .migration ∧ migration update data = (.error e, [], [])) := by
  refine ⟨fun k hk hformat => ⟨fun e hzero hupdate he => ⟨he.family, ?_⟩, fun hrefreshable => ?_⟩,
    fun hother => ?_⟩
  · subst hzero
    obtain ⟨u, rfl⟩ := Option.ne_none_iff_exists'.mp hupdate
    exact migration_unrefreshable u hformat he
  · -- Either the first step asks for layouts, or no step does.
    by_cases hasks : k = 0 → update = none
    · have hquiet : ∀ step ∈ MigrationStep.all.drop k, step = .refresh → update = none :=
        fun step hstep hrefresh => hasks (eq_zero_of_refresh_mem hk (hrefresh ▸ hstep))
      obtain ⟨data', hsteps, himpls⟩ := run_runSteps data [] hquiet
      refine migratesTo_of_runSteps hk hformat hsteps (fun _ => ⟨himpls, rfl⟩) fun hzero u hu => ?_
      rw [hasks hzero] at hu
      cases hu
    · rw [Classical.not_imp] at hasks
      obtain ⟨rfl, hupdate⟩ := hasks
      obtain ⟨u, rfl⟩ := Option.ne_none_iff_exists'.mp hupdate
      obtain ⟨data', hsteps, hnone, hsome⟩ := run_allSteps u (hrefreshable rfl hupdate)
      refine migratesTo_of_runSteps hk hformat hsteps (fun hkept => absurd (hkept rfl) hupdate)
        fun _ u' hu' => ?_
      cases hu'
      exact ⟨rfl, hnone, hsome⟩
  · obtain ⟨e, he, hrun⟩ := run_migrate_error update [] hother
    refine ⟨e, he, ?_⟩
    unfold migration
    rw [hrun]
    rfl

/-- A manifest in the first format, with one implementation that has a layout and one that has none. -/
def firstFormat : Fields :=
  [("manifestVersion", .str "3.0"), ("admin", .str "0xA"), ("note", .int 7),
    ("impls", .obj [("v1", .obj [("address", .str "0x1"), ("layout", .obj [])]), ("v2", .obj [])])]

/-- An updater that knows a newer layout of every implementation. -/
def newerLayout : Updater := fun _ _ => some (.obj [("storage", .arr [])])

theorem migration_forward_firstFormat :
    (∃ m asked notes, migration (some newerLayout) firstFormat = (.ok m, asked, notes) ∧
      m.changed = true ∧ MigratesTo (some newerLayout) 0 firstFormat m.data asked) ∧
    (migration (some newerLayout) [("manifestVersion", .str "3.0"), ("impls", .null)]).1 =
      .error .implsNotTable ∧
    ∃ e : Refusal, e.family = .migration ∧
      migration (some newerLayout) [("manifestVersion", .str "2.0")] = (.error e, [], []) := by
  have hfirst (fields : Fields) : formatOf (("manifestVersion", .str "3.0") :: fields) = .ok ⟨3, 0⟩ := by
    cbv
  have hrefreshable (e : Refusal) : ¬ Unrefreshable firstFormat e := by
    rintro (⟨hlookup, hv⟩ | ⟨hlookup, -, himpl⟩)
    · cases hlookup
      exact hv ⟨_, rfl⟩
    · rename_i front back version impl
      have hmem : (version, impl) ∈ [("v1", obj [("address", .str "0x1"), ("layout", .obj [])]),
          ("v2", .obj [])] := by
        rw [show [("v1", obj [("address", .str "0x1"), ("layout", .obj [])]), ("v2", .obj [])] =
          front ++ (version, impl) :: back by simpa [firstFormat, List.lookup] using hlookup]
        simp
      simp only [List.mem_cons, Prod.mk.injEq, List.not_mem_nil, or_false] at hmem
      rcases hmem with ⟨-, rfl⟩ | ⟨-, rfl⟩ <;> exact himpl ⟨_, rfl⟩
  refine ⟨?_, ?_, ?_⟩
  · exact ((migration_forward (some newerLayout) firstFormat).1 0 (by decide) (hfirst _)).2
      fun _ _ => hrefreshable
  · exact (((migration_forward (some newerLayout) [("manifestVersion", .str "3.0"), ("impls", .null)]).1 0
      (by decide) (hfirst _)).1 _ rfl (by simp) (.table rfl nofun)).2
  · refine (migration_forward (some newerLayout) [("manifestVersion", .str "2.0")]).2 fun k _ => ?_
    rw [show formatOf [("manifestVersion", .str "2.0")] = .ok ⟨2, 0⟩ by cbv]
    simp

end UpgradeSafety.Manifest
