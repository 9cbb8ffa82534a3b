import UpgradeSafety.Proofs.Manifest.Agreement

/-!
# Sequences of operations on stores

Operations of a store, alone or in runs that are nested in any way (`Program`), and turns of stores
of one place, one after another (`performAll`). A program inside a run does to the records in hand
what its operations do in memory (`Program.run_underway`). A turn of a store at rest leaves it at
rest, holding what its operations make of what it held, or unchanged if that cannot be written
(`Turn.run_atRest`). So the stores hold, after all turns, what the operations of those turns that
succeeded make of what they held (`performAll_atRest`).

A program is flattened to the sequence of its operations: a run inside a run works on the same
records and writes nothing, so that only the outermost run counts. The first induction is on
programs, with the workspace of a run under way as the state; the second one on turns, with stores
at rest, and there the records agree with those in memory, which is less than being equal since
files are written and read in between.
-/

namespace UpgradeSafety.Manifest

open Stateful

variable {σ α : Type} {s : Store} {w : Workspace σ} {r : Records}

/-! ## One operation -/

/-- Lets a store do an operation. -/
def Operation.perform (s : Store) : Operation → Act σ Answer
  | .addProxy proxy => (fun _ => .done) <$> s.addProxy proxy
  | .removeProxy address => (fun _ => .done) <$> s.removeProxy address
  | .addDeployment version i => (fun _ => .done) <$> s.addDeployment version i
  | .setAdmin a => (fun _ => .done) <$> s.setAdmin a
  | .addBeacon beacon => (fun _ => .done) <$> s.addBeacon beacon
  | .proxyAt address => .proxy <$> s.proxyAt address
  | .deployment version => .implementation <$> s.deployment version
  | .deploymentAt address => .implementation <$> s.deploymentAt address
  | .admin => .admin <$> s.admin
  | .beaconAt address => .beacon <$> s.beaconAt address

/-- Does something and returns how it ended. -/
def caught (x : Act σ α) : Act σ (Except Failure α) :=
  tryCatch (Except.ok <$> x) fun e => pure (.error e)

theorem run_map_eq {β : Type} {x : Act σ α} {w' : Workspace σ} {result : Except Failure α}
    (f : α → β) (h : x.run.run w = (result, w')) :
    (f <$> x).run.run w = (result.map f, w') := by
  rw [run_map, h]

theorem run_caught (x : Act σ α) :
    (caught x).run.run w = (.ok (x.run.run w).1, (x.run.run w).2) := by
  rw [caught, run_tryCatch, run_map]
  rcases x.run.run w with ⟨result, w'⟩
  cases result <;> rfl

namespace Store

variable {t : Files.Tree} {log : List Log.Record} {outside : σ}

theorem run_nested (body : Handle → Act σ α) :
    (s.withRecords body).run.run (s.underway t r log outside w) =
      (body ⟨s.session, 0⟩).run.run (s.underway t r log outside w) :=
  run_withRecords_nested (d := ⟨[r], 0⟩) List.lookup_cons_self body

theorem run_lookup_underway (lookup : Records → Option α) (missing : Refusal) :
    (do match lookup (← handed ⟨s.session, 0⟩) with
        | some a => return a
        | none => Act.refuse missing : Act σ α).run.run (s.underway t r log outside w) =
      (Operation.lookedUp missing (lookup r), s.underway t r log outside w) := by
  have hhanded : (handed ⟨s.session, 0⟩ : Act σ Records).run.run (s.underway t r log outside w) =
      (.ok r, s.underway t r log outside w) := by
    rw [run_handed]
    simp [underway]
  rw [run_bind_of_ok hhanded]
  cases lookup r <;> rfl

theorem run_find_underway (lookup : Records → Option α) (missing : Refusal) :
    (s.find lookup missing).run.run (s.underway t r log outside w) =
      (Operation.lookedUp missing (lookup r), s.underway t r log outside w) := by
  unfold find
  rw [run_nested]
  exact run_lookup_underway lookup missing

theorem run_update_underway (hsession : w.drafts.lookup s.session = none)
    (f : Records → Records) :
    (s.update f).run.run (s.underway t r log outside w) =
      (.ok (), s.underway t (f r) log outside w) := by
  unfold update
  rw [run_nested]
  exact run_change_underway hsession f

/-- A change that is told afterwards. -/
theorem run_told_underway (hsession : w.drafts.lookup s.session = none) (f : Records → Records)
    (notes : List Log.Record) :
    (do s.update f; Act.tell notes : Act σ Unit).run.run (s.underway t r log outside w) =
      (.ok (), s.underway t (f r) (log ++ notes) outside w) := by
  rw [run_bind_of_ok (run_update_underway hsession f)]
  rfl

/-! ## Runs of their own -/

/-- A change of the records of a store at rest. -/
theorem AtRest.run_update {f : Records → Records} (h : s.AtRest w r) (hf : (f r).Sound) :
    ∃ w' result, (s.update f).run.run w = (result, w') ∧
      (result = .ok () ∨ (¬ (f r).Proper ∧ Unwritten result)) ∧
      s.Ran w w' r (f r) result.isOk := by
  have hworks : s.Works w (change · f) r (f r) (.ok ()) w.outside :=
    fun _ _ => ⟨_, run_change_underway h.session f⟩
  obtain ⟨w', result, hrun, -, hresult, hran⟩ := h.run hworks hf
  exact ⟨w', result, hrun, hresult, hran⟩

theorem AtRest.run_told {f : Records → Records} (h : s.AtRest w r) (hf : (f r).Sound)
    (notes : List Log.Record) :
    ∃ w' result, (do s.update f; Act.tell notes : Act σ Unit).run.run w = (result, w') ∧
      (result = .ok () ∨ (¬ (f r).Proper ∧ Unwritten result)) ∧
      s.Ran w w' r (f r) result.isOk := by
  obtain ⟨w', result, hrun, hresult, hran⟩ := h.run_update hf
  cases result with
  | error e => exact ⟨w', .error e, run_bind_of_error hrun, hresult, hran⟩
  | ok a => exact ⟨_, .ok (), run_bind_of_ok hrun, hresult, hran.of_files rfl rfl rfl⟩

/-- A change after which the records have no written form. -/
theorem AtRest.run_update_unserialisable {f : Records → Records} (h : s.AtRest w r)
    (hf : (f r).isWritable = false) : ∃ w',
    (s.update f).run.run w = (.error (.fault .unserialisable), w') ∧ s.Ran w w' r (f r) false := by
  have hworks : s.Works w (change · f) r (f r) (.ok ()) w.outside :=
    fun _ _ => ⟨_, run_change_underway h.session f⟩
  obtain ⟨w', hrun, -, hran⟩ := h.run_unserialisable hworks hf
  exact ⟨w', hrun, hran⟩

/-- A lookup in the records of a store at rest. -/
theorem AtRest.run_find (h : s.AtRest w r) (lookup : Records → Option α) (missing : Refusal) :
    ∃ w', (s.find lookup missing).run.run w = (Operation.lookedUp missing (lookup r), w') ∧
      s.Ran w w' r r (Operation.lookedUp missing (lookup r)).isOk := by
  have hworks : s.Works w (fun h => do
      match lookup (← handed h) with
      | some a => return a
      | none => Act.refuse missing) r r (Operation.lookedUp missing (lookup r)) w.outside :=
    fun _ _ => ⟨_, run_lookup_underway lookup missing⟩
  obtain ⟨w', hrun, -, hran⟩ := h.run_proper hworks h.proper
  exact ⟨w', hrun, hran⟩

end Store

open Store

namespace Operation

/-- An operation inside a run works on the records in hand. -/
theorem run_underway (t : Files.Tree) (outside : σ) (hsession : w.drafts.lookup s.session = none)
    (o : Operation) (r : Records) (log : List Log.Record) : ∃ log',
    (o.perform s).run.run (s.underway t r log outside w) =
      (o.answer s.network r, s.underway t (o.change r) log' outside w) := by
  cases o with
  | addProxy _ | addDeployment _ _ | addBeacon _ =>
    exact ⟨_, run_map_eq _ (Store.run_told_underway hsession _ _)⟩
  | removeProxy _ | setAdmin _ => exact ⟨_, run_map_eq _ (Store.run_update_underway hsession _)⟩
  | proxyAt _ | deployment _ | deploymentAt _ | admin | beaconAt _ =>
    exact ⟨_, run_map_eq _ (Store.run_find_underway _ _)⟩

theorem answered {w' : Workspace σ} {x : Act σ Unit} {r' : Records} {result : Except Failure Unit}
    (hrun : x.run.run w = (result, w'))
    (hresult : result = .ok () ∨ (¬ r'.Proper ∧ Unwritten result))
    (hran : s.Ran w w' r r' result.isOk) :
    ∃ w' result, ((fun _ => Answer.done) <$> x).run.run w = (result, w') ∧
      (result = .ok .done ∨ (¬ r'.Proper ∧ Unwritten result)) ∧
      s.Ran w w' r r' result.isOk := by
  refine ⟨w', _, run_map_eq _ hrun, ?_, ?_⟩
  · rcases hresult with rfl | ⟨himproper, hunwritten⟩
    · exact Or.inl rfl
    · exact Or.inr ⟨himproper, hunwritten.map _⟩
  · cases result <;> exact hran

/-- An operation in a run of its own ends as it does in memory, unless what it makes of the records
cannot be written. -/
theorem run_atRest {o : Operation} (h : s.AtRest w r) (ho : o.Storable) :
    ∃ w' result, (o.perform s).run.run w = (result, w') ∧
      (result = o.answer s.network r ∨ (¬ (o.change r).Proper ∧ Unwritten result)) ∧
      s.Ran w w' r (o.change r) result.isOk := by
  have hsound : (o.change r).Sound := sound_change h.proper.sound ho
  have hfound {α : Type} {lookup : Records → Option α} {missing : Refusal} (f : α → Answer) :
      ∃ w' result, (f <$> s.find lookup missing).run.run w = (result, w') ∧
        (result = (lookedUp missing (lookup r)).map f ∨ (¬ r.Proper ∧ Unwritten result)) ∧
        s.Ran w w' r r result.isOk := by
    obtain ⟨w', hrun, hran⟩ := h.run_find lookup missing
    refine ⟨w', _, run_map_eq _ hrun, Or.inl rfl, ?_⟩
    cases hlookup : lookup r with
    | none =>
      rw [hlookup] at hran
      exact hran
    | some a =>
      rw [hlookup] at hran
      exact hran
  cases o with
  | addProxy _ | addDeployment _ _ | addBeacon _ =>
    obtain ⟨w', result, hrun, hresult, hran⟩ := h.run_told hsound _
    exact answered hrun hresult hran
  | removeProxy _ | setAdmin _ =>
    obtain ⟨w', result, hrun, hresult, hran⟩ := h.run_update hsound
    exact answered hrun hresult hran
  | proxyAt _ | deployment _ | deploymentAt _ | admin | beaconAt _ => exact hfound _

end Operation

/-! ## Programs inside a run -/

/-- How an operation ended. -/
abbrev Outcome := Except Failure Answer

/-- What is done inside a run: operations, alone or in runs inside it, to any depth. A lookup that finds
nothing does not end the run. -/
inductive Program where
  | done
  | step (o : Operation) (next : Program)
  | nested (inner next : Program)

namespace Program

/-- The operations of a program in their order. -/
def operations : Program → List Operation
  | done => []
  | step o next => o :: next.operations
  | nested inner next => inner.operations ++ next.operations

/-- Lets a store run a program. -/
def perform (s : Store) : Program → Act σ (List Outcome)
  | done => return []
  | step o next => do
    let outcome ← caught (o.perform s)
    let outcomes ← next.perform s
    return outcome :: outcomes
  | nested inner next => do
    let first ← s.withRecords fun _ => inner.perform s
    let outcomes ← next.perform s
    return first ++ outcomes

/-- A program inside a run does to the records in hand what its operations do in memory. -/
theorem run_underway (t : Files.Tree) (outside : σ) (hsession : w.drafts.lookup s.session = none)
    (p : Program) (r : Records) (log : List Log.Record) : ∃ log',
    (p.perform s).run.run (s.underway t r log outside w) =
      (.ok (answers s.network p.operations r),
        s.underway t (replay p.operations r) log' outside w) := by
  induction p generalizing r log with
  | done => exact ⟨log, rfl⟩
  | step o next ih =>
    obtain ⟨log₁, ho⟩ := o.run_underway t outside hsession r log
    obtain ⟨log₂, hnext⟩ := ih (o.change r) log₁
    refine ⟨log₂, ?_⟩
    rw [perform, run_bind_of_ok (run_caught _), ho, run_bind_of_ok hnext]
    rfl
  | nested inner next ihinner ihnext =>
    obtain ⟨log₁, hinner⟩ := ihinner r log
    obtain ⟨log₂, hnext⟩ := ihnext (replay inner.operations r) log₁
    have hrun := (Store.run_nested (fun _ => inner.perform s)).trans hinner
    refine ⟨log₂, ?_⟩
    rw [perform, run_bind_of_ok hrun, run_bind_of_ok hnext, operations, answers_append,
      replay_append]
    rfl

end Program

/-! ## Turns of stores -/

/-- What a store does at a time: an operation alone, or a program in a run. -/
inductive Turn where
  | alone (o : Operation)
  | run (p : Program)

namespace Turn

/-- The operations of a turn in their order. -/
def operations : Turn → List Operation
  | alone o => [o]
  | run p => p.operations

/-- Lets a store take a turn. -/
def perform (s : Store) : Turn → Act σ (List Outcome)
  | alone o => (fun a => [.ok a]) <$> o.perform s
  | run p => s.withRecords fun _ => p.perform s

/-- How the operations of a turn ended. A turn that fails ends with its failure. -/
def outcomes : Except Failure (List Outcome) → List Outcome
  | .ok outcomes => outcomes
  | .error e => [.error e]

theorem alone_outcomes (x : Outcome) : outcomes (x.map fun a => [Except.ok a]) = [x] := by
  cases x <;> rfl

/-- A turn is a lookup alone. -/
def IsLookup (turn : Turn) : Prop := ∃ o, turn = alone o ∧ o.isLookup = true

theorem replay_of_isLookup {turn : Turn} (h : turn.IsLookup) (r : Records) :
    replay turn.operations r = r := by
  obtain ⟨o, rfl, ho⟩ := h
  exact Operation.change_of_isLookup ho r

/-- A turn of a store at rest ends as its operations do in memory, unless what they make of the records
cannot be written. It succeeds, unless it is a lookup alone. -/
theorem run_atRest {turn : Turn} (h : s.AtRest w r) (ho : ∀ o ∈ turn.operations, o.Storable) :
    ∃ w' result, (turn.perform s).run.run w = (result, w') ∧
      ((outcomes result = answers s.network turn.operations r ∧
          (result.isOk = true ∨ turn.IsLookup)) ∨
        (¬ (replay turn.operations r).Proper ∧ Unwritten result)) ∧
      s.Ran w w' r (replay turn.operations r) result.isOk := by
  cases turn with
  | alone o =>
    obtain ⟨w', x, hrun, hx, hran⟩ := o.run_atRest h (ho o List.mem_cons_self)
    refine ⟨w', x.map fun a => [.ok a], run_map_eq _ hrun, ?_, ?_⟩
    · rcases hx with hx | ⟨himproper, hunwritten⟩
      · refine Or.inl ⟨(alone_outcomes x).trans (congrArg (fun x => [x]) hx), ?_⟩
        cases hlookup : o.isLookup with
        | true => exact Or.inr ⟨o, rfl, hlookup⟩
        | false =>
          have hok := o.isOk_answer hlookup s.network r
          rw [← hx] at hok
          cases x with
          | ok a => exact Or.inl rfl
          | error e => cases hok
      · exact Or.inr ⟨himproper, hunwritten.map _⟩
    · cases x <;> exact hran
  | run p =>
    have hsound : (replay p.operations r).Sound := sound_replay h.proper.sound ho
    have hworks : s.Works w (fun _ => p.perform s) r (replay p.operations r)
        (.ok (answers s.network p.operations r)) w.outside :=
      fun t _ => p.run_underway t w.outside h.session r _
    obtain ⟨w', result, hrun, -, hresult, hran⟩ := h.run hworks hsound
    refine ⟨w', result, hrun, ?_, hran⟩
    rcases hresult with rfl | ⟨himproper, he⟩
    · exact Or.inl ⟨rfl, Or.inl rfl⟩
    · exact Or.inr ⟨himproper, he⟩

end Turn

/-- Lets stores take their turns, one after another. -/
def performAll : List (Store × Turn) → Act σ (List (Except Failure (List Outcome)))
  | [] => return []
  | (s, turn) :: turns => do
    let result ← caught (turn.perform s)
    let results ← performAll turns
    return result :: results

/-- Every turn that records only what can be written succeeds, unless it is a lookup alone. -/
def Succeed (turns : List (Store × Turn)) (results : List (Except Failure (List Outcome))) : Prop :=
  List.Forall₂ (fun c result => (∀ o ∈ c.2.operations, o.Proper) → ¬ c.2.IsLookup →
    result.isOk = true) turns results

/-- The operations of a turn that succeeded. -/
def Turn.recorded (turn : Turn) : Except Failure (List Outcome) → List Operation
  | .ok _ => turn.operations
  | .error _ => []

/-- The operations of the turns that succeeded. -/
def recorded (turns : List (Store × Turn)) (results : List (Except Failure (List Outcome))) :
    List Operation :=
  (List.zipWith (fun c result => c.2.recorded result) turns results).flatten

theorem Succeed.forall_isOk {turns : List (Store × Turn)}
    {results : List (Except Failure (List Outcome))} (h : Succeed turns results)
    (hturns : ∀ c ∈ turns, (∀ o ∈ c.2.operations, o.Proper) ∧ ¬ c.2.IsLookup) :
    ∀ result ∈ results, result.isOk = true := by
  induction h with
  | nil => exact List.forall_mem_nil _
  | cons hc _ ih =>
    rw [List.forall_mem_cons] at hturns
    exact List.forall_mem_cons.mpr ⟨hc hturns.1.1 hturns.1.2, ih hturns.2⟩

/-- If all turns record what can be written and none is a lookup alone, all operations are recorded. -/
theorem Succeed.recorded_eq {turns : List (Store × Turn)}
    {results : List (Except Failure (List Outcome))} (h : Succeed turns results)
    (hturns : ∀ c ∈ turns, (∀ o ∈ c.2.operations, o.Proper) ∧ ¬ c.2.IsLookup) :
    recorded turns results = turns.flatMap (·.2.operations) := by
  induction h with
  | nil => rfl
  | @cons c result turns results hc _ ih =>
    rw [List.forall_mem_cons] at hturns
    have hok := hc hturns.1.1 hturns.1.2
    cases result with
    | ok outcomes => exact congrArg (c.2.operations ++ ·) (ih hturns.2)
    | error e => cases hok

/-- Stores of the place of `s` take turns in a workspace in which none of them has a run in
progress. -/
def Rounds (s : Store) (w : Workspace σ) (turns : List (Store × Turn)) : Prop :=
  ∀ c ∈ turns, c.1.Shares s ∧ w.drafts.lookup c.1.session = none

/-- What the operations make of records that were read back is still like it when it is read back. -/
def Lasts (I : Implementation → Implementation → Prop) (operations : List Operation) : Prop :=
  ∀ r : Records, r.Proper → r.stored = r → ∀ e ∈ (replay operations r).impls, I e.2 e.2.stored

theorem lasts_samePlaces (operations : List Operation) :
    Lasts Implementation.SamePlaces operations :=
  fun _ _ _ _ _ => ⟨rfl, rfl⟩

theorem lasts_alike {operations : List Operation}
    (h : ∀ o ∈ operations, o.Storable ∧ o.Explicit) : Lasts Implementation.Alike operations := by
  intro r hproper hstored e he
  have hsound : (replay operations r).Sound := sound_replay hproper.sound fun o ho => (h o ho).1
  have hexplicit : (replay operations r).Explicit :=
    explicit_replay (hstored ▸ r.explicit_stored) fun o ho => (h o ho).2
  rw [Implementation.Alike, Implementation.toJson_stored (hexplicit e he)]
  exact (Implementation.isReflexive_toJson (hsound.storable.impls e he)).2

/-- What a store at rest holds after a turn agrees with what its operations make of records that agree
with what it held, if the turn succeeds. -/
theorem agree_turn {I : Implementation → Implementation → Prop} (hI : Likeness I) {m : Records}
    {operations : List Operation} (h : s.AtRest w r) (hm : m.Agree I r)
    (ho : ∀ o ∈ operations, o.Storable) (hlasts : Lasts I operations) :
    (replay operations m).Agree I (Store.kept r (replay operations r) true) := by
  have hsound : (replay operations r).Sound := sound_replay h.proper.sound ho
  exact (agree_replay hI hm ho).trans hI
    (Records.agree_kept hI hsound.storable (keysIn_replay operations r) (hlasts r h.proper h.stored))

/-- After all turns a store holds what the operations of those that succeeded make of records that agree
with what it held. -/
theorem performAll_atRest {I : Implementation → Implementation → Prop} (hI : Likeness I)
    {m : Records} {turns : List (Store × Turn)} (h : s.AtRest w r) (hm : m.Agree I r)
    (hturns : Rounds s w turns) (ho : ∀ c ∈ turns, ∀ o ∈ c.2.operations, o.Storable)
    (hlasts : ∀ c ∈ turns, Lasts I c.2.operations) :
    ∃ w' results r', (performAll turns).run.run w = (.ok results, w') ∧
      w'.drafts = w.drafts ∧ s.AtRest w' r' ∧ Succeed turns results ∧
      (replay (recorded turns results) m).Agree I r' := by
  induction turns generalizing w r m with
  | nil => exact ⟨w, [], r, rfl, rfl, h, .nil, hm⟩
  | cons c turns ih =>
    obtain ⟨s', turn⟩ := c
    rw [Rounds, List.forall_mem_cons] at hturns
    rw [List.forall_mem_cons] at ho hlasts
    obtain ⟨⟨hshares, hidle⟩, hturns⟩ := hturns
    have hs' : s'.AtRest w r := h.of_shares hshares hidle
    obtain ⟨w₁, result, hrun, hresult, hran⟩ := turn.run_atRest hs' ho.1
    have hsucceeds : (∀ o ∈ turn.operations, o.Proper) → ¬ turn.IsLookup → result.isOk = true := by
      intro hproper hlookup
      obtain ⟨-, hok⟩ := hresult.resolve_right fun himproper =>
        himproper.1 (proper_replay h.proper hproper)
      exact hok.resolve_right hlookup
    have h₁ := hran.rest.of_shares hshares.symm (hran.drafts ▸ h.session)
    have hturns₁ : Rounds s w₁ turns := fun c hc => hran.drafts.symm ▸ hturns c hc
    have hm₁ : (replay (turn.recorded result) m).Agree I
        (Store.kept r (replay turn.operations r) result.isOk) := by
      cases result with
      | error e => exact hm
      | ok outcomes => exact agree_turn hI h hm ho.1 hlasts.1
    obtain ⟨w', results, r', hruns, hdrafts, h', hrest, hm'⟩ := ih h₁ hm₁ hturns₁ ho.2 hlasts.2
    refine ⟨w', result :: results, r', ?_, hdrafts.trans hran.drafts, h', .cons hsucceeds hrest, ?_⟩
    · rw [performAll, run_bind_of_ok (run_caught _), hrun, run_bind_of_ok hruns]
      rfl
    · rwa [← replay_append] at hm'

/-! ## The main store -/

theorem atRest_mainStore : Store.AtRest Store.mainStore Store.emptyWorkspace {} :=
  Store.atRest_of_empty rfl (by decide) rfl rfl List.not_mem_nil

/-- The main store does operations, each of them alone. -/
def mainTurns (operations : List Operation) : List (Store × Turn) :=
  operations.map fun o => (Store.mainStore, .alone o)

theorem rounds_mainTurns (operations : List Operation) :
    Rounds Store.mainStore Store.emptyWorkspace (mainTurns operations) := by
  intro c hc
  obtain ⟨o, -, rfl⟩ := List.mem_map.mp hc
  exact ⟨.refl _, rfl⟩

theorem forall_mainTurns {operations : List Operation} {P : Operation → Prop}
    (h : ∀ o ∈ operations, P o) : ∀ c ∈ mainTurns operations, ∀ o ∈ c.2.operations, P o := by
  intro c hc o ho
  obtain ⟨o', ho', rfl⟩ := List.mem_map.mp hc
  cases List.mem_singleton.mp ho
  exact h o ho'

/-- What the main store holds after operations that record what can be written. -/
theorem performAll_mainTurns {operations : List Operation}
    (h : ∀ o ∈ operations, o.Proper ∧ o.Explicit ∧ o.isLookup = false) :
    ∃ w' results r', (performAll (mainTurns operations)).run.run Store.emptyWorkspace =
        (.ok results, w') ∧ (∀ result ∈ results, result.isOk = true) ∧
      Store.AtRest Store.mainStore w' r' ∧
      (replay operations {}).Agree Implementation.Alike r' := by
  have hlasting := forall_mainTurns (P := fun o => o.Storable ∧ o.Explicit)
    fun o ho => ⟨(h o ho).1.storable, (h o ho).2.1⟩
  obtain ⟨w', results, r', hrun, -, h', hsucceed, hm⟩ := performAll_atRest likeness_alike
    atRest_mainStore Records.agree_empty (rounds_mainTurns operations)
    (forall_mainTurns fun o ho => (h o ho).1.storable) fun c hc => lasts_alike (hlasting c hc)
  have hsure : ∀ c ∈ mainTurns operations,
      (∀ o ∈ c.2.operations, o.Proper) ∧ ¬ c.2.IsLookup := by
    intro c hc
    obtain ⟨o, ho, rfl⟩ := List.mem_map.mp hc
    refine ⟨List.forall_mem_singleton.mpr (h o ho).1, ?_⟩
    rintro ⟨o', heq, hlookup⟩
    cases heq
    rw [(h o ho).2.2] at hlookup
    cases hlookup
  have hrecorded : recorded (mainTurns operations) results = operations := by
    rw [hsucceed.recorded_eq hsure, mainTurns, List.flatMap_map]
    exact List.flatMap_singleton' operations
  rw [hrecorded] at hm
  exact ⟨w', results, r', hrun, hsucceed.forall_isOk hsure, h', hm⟩

end UpgradeSafety.Manifest
