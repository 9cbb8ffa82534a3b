import UpgradeSafety.Proofs.Manifest.Programs

/-!
# Stores refine records in memory

Whatever stores of one place do, one after another, alone or in runs that are nested in any way,
ends as it does on records in memory, and each turn writes the file at most once, when it is done
(`performAll_refines`).

The turns are arbitrary: any number of stores, any operations with their refusals, runs inside runs
to any depth. Three conditions are needed (`performAll_counterexample`): no number of what is
recorded is too long to be written; a lookup inside a run that finds nothing is caught there; and
what is done inside a run is done with the store whose run it is, as another one would wait for the
lock. Layouts name their format and the contracts of their items, so that they are written alike
before and after they were read back.

What is compared is how each operation ended, with its answer, and the last set of records. Both
are compared up to the way in which they are written. The file is seen to be written at most once
in a turn because the workspaces before and after a turn are related by a single writing
(`Turn.WritesOnce`).
-/

namespace UpgradeSafety.Manifest

open Files Stateful Store

variable {σ : Type} {s : Store} {w w' : Workspace σ} {r : Records}

/-- A turn of a store writes its file at most once, when the body of the run is done, and not at all if
its operations change nothing. -/
def Turn.WritesOnce (s : Store) (turn : Turn) (w w' : Workspace σ) : Prop :=
  ∃ t r, w.files.makeFolder s.lockFile.parent = .ok t ∧ s.held t = .ok (r, false) ∧
    (∀ p notes, turn = .run p → ((p.perform s).run.run (s.opened t r notes w)).2.files = t) ∧
    ((replay turn.operations r).toJson.same r.toJson = true → w'.files.files = w.files.files) ∧
    ((replay turn.operations r).toJson.same r.toJson = false →
      ∃ text, fileText (replay turn.operations r) = .ok text ∧ Rewritten s t text w'.files)

namespace Turn

theorem writesOnce_of_ran {turn : Turn} {succeeded : Bool} (h : s.AtRest w r)
    (hsucceeded : succeeded = true ∨ replay turn.operations r = r)
    (hran : s.Ran w w' r (replay turn.operations r) succeeded) : turn.WritesOnce s w w' := by
  obtain ⟨t, hmake, hholds⟩ := h.files
  obtain ⟨t', hmake', htransacted⟩ := hran.files
  cases hmake.symm.trans hmake'
  unfold Transacted at htransacted
  refine ⟨t, r, hmake, hholds.held s (.refl s), ?_, fun hsame => ?_, fun hchanged => ?_⟩
  · rintro p notes rfl
    obtain ⟨log, hrun⟩ := p.run_underway t w.outside h.session r (w.log ++ notes)
    rw [opened_eq_underway, hrun]
    rfl
  · rw [if_neg (by simp [hsame])] at htransacted
    rw [htransacted]
    exact (Tree.makeFoldersFrom_eq_ok hmake).1
  · have htrue : succeeded = true := by
      refine hsucceeded.resolve_right fun hself => ?_
      rw [hself, (Records.isReflexive_toJson h.proper.sound.storable).2] at hchanged
      cases hchanged
    rwa [if_pos ⟨htrue, hchanged⟩] at htransacted

/-- A turn of a store at rest that records nothing but what can be written. -/
theorem run_refines {turn : Turn} {m : Records} (h : s.AtRest w r)
    (hm : m.Agree Implementation.Alike r)
    (ho : ∀ o ∈ turn.operations, o.Proper ∧ o.Explicit) :
    ∃ w' result r', (turn.perform s).run.run w = (result, w') ∧ w'.drafts = w.drafts ∧
      s.AtRest w' r' ∧ (replay turn.operations m).Agree Implementation.Alike r' ∧
      List.Forall₂ (OutcomesAgree Implementation.Alike) (answers s.network turn.operations m)
        (outcomes result) ∧ turn.WritesOnce s w w' := by
  have hstorable : ∀ o ∈ turn.operations, o.Storable := fun o hmem => (ho o hmem).1.storable
  have hproper : (replay turn.operations r).Proper :=
    proper_replay h.proper fun o hmem => (ho o hmem).1
  obtain ⟨w', result, hrun, hresult, hran⟩ := turn.run_atRest h hstorable
  obtain ⟨houtcomes, hok⟩ := hresult.resolve_right fun himproper => himproper.1 hproper
  have hsucceeded := hok.imp_right fun hlookup => replay_of_isLookup hlookup r
  refine ⟨w', result, _, hrun, hran.drafts, hran.rest, ?_, ?_, writesOnce_of_ran h hsucceeded hran⟩
  · rcases hsucceeded with hok | hself
    · rw [hok]
      exact agree_turn likeness_alike h hm hstorable
        (lasts_alike fun o hmem => ⟨hstorable o hmem, (ho o hmem).2⟩)
    · have hkept : kept r (replay turn.operations r) result.isOk = r := by
        rw [hself, kept, if_neg]
        rw [(Records.isReflexive_toJson h.proper.sound.storable).2]
        simp
      have hreplay := agree_replay likeness_alike hm hstorable
      rwa [hself, ← hkept] at hreplay
  · rw [houtcomes]
    exact agree_answers likeness_alike hm hstorable s.network

end Turn

theorem network_of_shares {s' : Store} (h : s'.Shares s) : s'.network = s.network := by
  rw [network, network, h.site]

theorem performAll_agree {turns : List (Store × Turn)} {m : Records} (h : s.AtRest w r)
    (hm : m.Agree Implementation.Alike r) (hturns : Rounds s w turns)
    (ho : ∀ c ∈ turns, ∀ o ∈ c.2.operations, o.Proper ∧ o.Explicit) :
    ∃ results w' r', (performAll turns).run.run w = (.ok results, w') ∧ w'.drafts = w.drafts ∧
      s.AtRest w' r' ∧
      (replay (turns.flatMap (·.2.operations)) m).Agree Implementation.Alike r' ∧
      List.Forall₂ (OutcomesAgree Implementation.Alike)
        (answers s.network (turns.flatMap (·.2.operations)) m) (results.flatMap Turn.outcomes) := by
  induction turns generalizing w r m with
  | nil => exact ⟨[], w, r, rfl, rfl, h, hm, .nil⟩
  | cons c turns ih =>
    obtain ⟨s', turn⟩ := c
    rw [Rounds, List.forall_mem_cons] at hturns
    rw [List.forall_mem_cons] at ho
    obtain ⟨⟨hshares, hidle⟩, hturns⟩ := hturns
    obtain ⟨w₁, result, r₁, hrun, hdrafts, h₁, hm₁, houtcomes, -⟩ :=
      turn.run_refines (h.of_shares hshares hidle) hm ho.1
    obtain ⟨results, w', r', hruns, hdrafts', h', hm', hrest⟩ :=
      ih (h₁.of_shares hshares.symm (hdrafts ▸ h.session)) hm₁
        (fun c hc => hdrafts.symm ▸ hturns c hc) ho.2
    refine ⟨result :: results, w', r', ?_, hdrafts'.trans hdrafts, h', ?_, ?_⟩
    · rw [performAll, run_bind_of_ok (run_caught _), hrun, run_bind_of_ok hruns]
      rfl
    · rw [List.flatMap_cons, replay_append]
      exact hm'
    · rw [List.flatMap_cons, List.flatMap_cons, answers_append]
      rw [network_of_shares hshares] at houtcomes
      exact List.rel_append houtcomes hrest

/-- Whatever stores of one place do in turns, starting from no records, ends as its operations do on
records in memory, one after another. Each turn, here the last one, writes the file at most once. -/
theorem performAll_refines (turns : List (Store × Turn)) (s' : Store) (turn : Turn)
    (h : s.AtRest w {}) (hturns : Rounds s w (turns ++ [(s', turn)]))
    (ho : ∀ c ∈ turns ++ [(s', turn)], ∀ o ∈ c.2.operations, o.Proper ∧ o.Explicit) :
    ∃ results w₁ result w₂, (performAll turns).run.run w = (.ok results, w₁) ∧
      (turn.perform s').run.run w₁ = (result, w₂) ∧
      List.Forall₂ (OutcomesAgree Implementation.Alike)
        (answers s.network ((turns ++ [(s', turn)]).flatMap (·.2.operations)) {})
        (results.flatMap Turn.outcomes ++ Turn.outcomes result) ∧
      turn.WritesOnce s' w₁ w₂ := by
  rw [Rounds, List.forall_mem_append, List.forall_mem_singleton] at hturns
  rw [List.forall_mem_append, List.forall_mem_singleton] at ho
  obtain ⟨hturns, hshares, hidle⟩ := hturns
  obtain ⟨results, w₁, r₁, hruns, hdrafts, h₁, hm₁, houtcomes⟩ :=
    performAll_agree h Records.agree_empty hturns ho.1
  obtain ⟨w₂, result, r₂, hrun, -, -, -, houtcome, hwrites⟩ :=
    turn.run_refines (h₁.of_shares hshares (hdrafts ▸ hidle)) hm₁ ho.2
  refine ⟨results, w₁, result, w₂, hruns, hrun, ?_, hwrites⟩
  rw [List.flatMap_append, answers_append, List.flatMap_singleton]
  rw [network_of_shares hshares] at houtcome
  exact List.rel_append houtcomes houtcome

/-! ## What stands in the way -/

/-- Another store of the place of the main store. -/
def otherStore : Store := { mainStore with session := 1 }

theorem performAll_refines_nested : ∃ results w₁ result w₂,
    (performAll [(mainStore, .alone (.addDeployment "0x1" (.bare "0xa")))]).run.run emptyWorkspace =
      (.ok results, w₁) ∧
    (Turn.perform otherStore (.run (.step (.addProxy ⟨"0xb", none, .uups⟩) (.nested
      (.step (.deploymentAt "0xA") .done) (.step (.proxyAt "0xc") .done))))).run.run w₁ =
        (result, w₂) ∧
    List.Forall₂ (OutcomesAgree Implementation.Alike)
      [.ok .done, .ok .done, .ok (.implementation (.bare "0xa")),
        .error (.refused (.unknownProxy "0xc"))]
      (results.flatMap Turn.outcomes ++ Turn.outcomes result) ∧
    Turn.WritesOnce otherStore (.run (.step (.addProxy ⟨"0xb", none, .uups⟩) (.nested
      (.step (.deploymentAt "0xA") .done) (.step (.proxyAt "0xc") .done)))) w₁ w₂ := by
  have hbare : (Operation.addDeployment "0x1" (.bare "0xa")).Proper ∧
      (Operation.addDeployment "0x1" (.bare "0xa")).Explicit :=
    ⟨Implementation.proper_bare "0xa", Implementation.explicit_bare "0xa"⟩
  exact performAll_refines [(mainStore, .alone (.addDeployment "0x1" (.bare "0xa")))] _ _
    atRest_mainStore
    (by
      rw [Rounds, List.forall_mem_append, List.forall_mem_singleton, List.forall_mem_singleton]
      exact ⟨⟨⟨rfl, rfl⟩, rfl⟩, ⟨rfl, rfl⟩, rfl⟩)
    (by
      rw [List.forall_mem_append, List.forall_mem_singleton, List.forall_mem_singleton]
      refine ⟨List.forall_mem_singleton.mpr hbare, fun o ho => ?_⟩
      fin_cases ho <;> exact ⟨trivial, trivial⟩)

/-- An implementation with a variable in a slot of more digits than are written. -/
def Implementation.far (address : String) : Implementation where
  address := address
  layout :=
    { layoutVersion := some Layout.currentVersion
      storage :=
        [{ label := "owner", type := "t_address", slot := some (10 ^ Numeral.maxDecimalDigits) }] }

theorem Implementation.isWritable_far (address : String) : (far address).isWritable = false := by
  have hslot : Numeral.isWritable (10 ^ Numeral.maxDecimalDigits) = false := by
    have hpow (k : Nat) : ((10 : Int) ^ k).natAbs = Nat.pow 10 k := Int.natAbs_pow 10 k
    rw [Numeral.isWritable, hpow, decide_eq_false_iff_not]
    exact Nat.lt_irrefl _
  unfold Implementation.isWritable far Layout.isWritable Item.isWritable isWritable?
  simp [hslot]

/-- Each of the conditions is needed. A deployment without a written form is not recorded; a lookup that
ends its run undoes what was recorded in it; and another store cannot look anything up during a run. -/
theorem performAll_counterexample :
    (∃ w₁ w₂, (mainStore.addDeployment "0x1" (.far "0xa")).run.run emptyWorkspace =
        (.error (.fault .unserialisable), w₁) ∧
      (mainStore.deployment "0x1").run.run w₁ = (.error (.refused (.unknownVersion "0x1")), w₂) ∧
      answers mainStore.network [.addDeployment "0x1" (.far "0xa"), .deployment "0x1"] {} =
        [.ok .done, .ok (.implementation (.far "0xa"))]) ∧
    (∃ w₁ w₂, (mainStore.withRecords fun _ => do
        mainStore.addProxy ⟨"0xa", none, .uups⟩
        mainStore.proxyAt "0xb").run.run emptyWorkspace =
          (.error (.refused (.unknownProxy "0xb")), w₁) ∧
      (mainStore.proxyAt "0xa").run.run w₁ = (.error (.refused (.unknownProxy "0xa")), w₂) ∧
      answers mainStore.network [.addProxy ⟨"0xa", none, .uups⟩, .proxyAt "0xb", .proxyAt "0xa"] {} =
        [.ok .done, .error (.refused (.unknownProxy "0xb")), .ok (.proxy ⟨"0xa", none, .uups⟩)]) ∧
    ∃ w₁, (mainStore.withRecords fun _ => otherStore.proxyAt "0xa").run.run emptyWorkspace =
        (.error (.refused (.lockTimeout otherStore.lockFile.text otherStore.lockTimeout)), w₁) ∧
      answers mainStore.network [.proxyAt "0xa"] {} = [.error (.refused (.unknownProxy "0xa"))] := by
  refine ⟨?_, ?_, ⟨_, rfl, rfl⟩⟩
  · have hfar : (({} : Records).addDeployment "0x1" (.far "0xa")).isWritable = false := by
      rw [Records.isWritable]
      exact Bool.and_eq_false_iff.mpr (Or.inl (Implementation.isWritable_far "0xa"))
    obtain ⟨w₁, hupdate, hran⟩ := atRest_mainStore.run_update_unserialisable
      (f := (·.addDeployment "0x1" (.far "0xa"))) hfar
    obtain ⟨w₂, hfind, -⟩ := hran.rest.run_find (·.deployment? "0x1") (.unknownVersion "0x1")
    exact ⟨w₁, w₂, run_bind_of_error hupdate, hfind, rfl⟩
  · have hworks : mainStore.Works emptyWorkspace (fun _ => do
        mainStore.addProxy ⟨"0xa", none, .uups⟩
        mainStore.proxyAt "0xb") {} (({} : Records).addProxy ⟨"0xa", none, .uups⟩)
          (.error (.refused (.unknownProxy "0xb"))) () := fun _ _ =>
      ⟨_, (run_bind_of_ok (run_told_underway rfl _ _)).trans (run_find_underway _ _)⟩
    obtain ⟨w₁, hrun, -, hran⟩ := atRest_mainStore.run_error hworks
    obtain ⟨w₂, hfind, -⟩ := hran.rest.run_find (·.proxyAt? "0xa") (.unknownProxy "0xa")
    refine ⟨w₁, w₂, hrun, hfind, ?_⟩
    rfl

end UpgradeSafety.Manifest
