import UpgradeSafety.Manifest.Reuse
import UpgradeSafety.Proofs.Manifest.Agreement
import UpgradeSafety.Proofs.Manifest.Attempts

/-!
# Reused deployments

A deployment is looked up, or made and recorded, and then asked for its code. What was asked and
deployed is a list of events (`Happen`). Whatever the answers are and wherever it fails, the
records agree with the outcome (`Reconciled`, `Store.reuseOrDeploy_reconciled`).

The chain is a parameter: its answers may depend on anything that happened before, and each
question and each deployment may fail. Implementations and the admin are treated as one, as slots
in the records: what is set in a slot is got from it and changes nothing else (`Slot.Lawful`).

There are two runs at most. The first one looks the deployment up, or makes and records it, and its
body is taken apart into the cases of `Choice`; if that run fails nothing is recorded. The second
one strikes the deployment off again when it has no code. What holds after each of them is known
from the runs of a store, and `reconciled` goes through the cases and puts both together.
-/

namespace UpgradeSafety.Manifest

open Files Stateful Json

variable {σ δ : Type}

/-! ## What is asked and deployed -/

/-- A question that is asked of a chain, or a deployment on it. -/
inductive Event (δ : Type) where
  | asked (address : String) (answer : Bool)
  | deployed (result : Except Failure δ)

/-- Questions and deployments, one after another, lead from one state of a chain to another. -/
def Happen (deploy : StateM σ (Except Failure δ)) (hasCode : String → StateM σ Bool) :
    List (Event δ) → σ → σ → Prop
  | [], x, y => x = y
  | .asked address answer :: events, x, z =>
    ∃ y, (hasCode address).run x = (answer, y) ∧ Happen deploy hasCode events y z
  | .deployed result :: events, x, z =>
    ∃ y, deploy.run x = (result, y) ∧ Happen deploy hasCode events y z

theorem Happen.append {deploy : StateM σ (Except Failure δ)} {hasCode : String → StateM σ Bool}
    {events others : List (Event δ)} {x y z : σ} (h : Happen deploy hasCode events x y)
    (h' : Happen deploy hasCode others y z) : Happen deploy hasCode (events ++ others) x z := by
  induction events generalizing x with
  | nil =>
    obtain rfl : x = y := h
    exact h'
  | cons event events ih =>
    cases event with
    | asked address answer =>
      obtain ⟨y', hy', hrest⟩ := h
      exact ⟨y', hy', ih hrest⟩
    | deployed result =>
      obtain ⟨y', hy', hrest⟩ := h
      exact ⟨y', hy', ih hrest⟩

theorem happen_asked (deploy : StateM σ (Except Failure δ)) (hasCode : String → StateM σ Bool)
    (address : String) (x : σ) :
    Happen deploy hasCode [.asked address ((hasCode address).run x).1] x
      ((hasCode address).run x).2 := ⟨_, rfl, rfl⟩

theorem happen_deployed (deploy : StateM σ (Except Failure δ)) (hasCode : String → StateM σ Bool)
    (x : σ) : Happen deploy hasCode [.deployed (deploy.run x).1] x (deploy.run x).2 := ⟨_, rfl, rfl⟩

/-- All events are questions. -/
def Asks (events : List (Event δ)) : Prop := ∀ e ∈ events, ∃ address answer, e = .asked address answer

/-! ## What is chosen -/

variable {slot : Slot δ} {r r' : Records}

/-- What is asked before a deployment is made: nothing is recorded, or the recorded address has no
code. -/
inductive Vacant (slot : Slot δ) (r : Records) : List (Event δ) → Prop
  | unrecorded : slot.get r = none → Vacant slot r []
  | codeless {known : δ} : slot.get r = some known →
      Vacant slot r [.asked (slot.address known) false]

/-- What happens in the run that looks a deployment up, what it ends with, and the records that it
leaves. -/
inductive Choice (slot : Slot δ) (r : Records) :
    List (Event δ) → Except Failure δ → Records → Prop
  | reused {d : δ} : slot.get r = some d → Choice slot r [.asked (slot.address d) true] (.ok d) r
  | renewed {asks : List (Event δ)} {d : δ} : Vacant slot r asks →
      Choice slot r (asks ++ [.deployed (.ok d)]) (.ok d) (slot.set r (some d))
  | failed {asks : List (Event δ)} {e : Failure} : Vacant slot r asks →
      Choice slot r (asks ++ [.deployed (.error e)]) (.error e) r

namespace Store

variable {s : Store} {w w' : Workspace σ} {t : Tree} {deploy : StateM σ (Except Failure δ)}
  {hasCode : String → StateM σ Bool}

theorem body_reuse {idle : Nat → Prop} {h : Handle} (hh : h.session = s.session) :
    Body s idle (s.reuse slot deploy hasCode h) := by
  have hanew : Body s idle (do
      let d ← Act.ofResult (← Act.outside deploy)
      change h fun r => slot.set r (some d)
      Act.tell [s.note .deployed ("Deployed " ++ slot.description ++ " at " ++ slot.address d)]
      return d : Act σ δ) := by
    refine .bind (.outside deploy) fun result => .bind ?_ fun d => .bind (.change _ hh) fun _ =>
      .bind (.tell _) fun _ => .pure d
    cases result with
    | ok d => exact .pure d
    | error e => exact .fail e
  refine .bind (.handed h) fun r => ?_
  split
  · exact hanew
  · refine .bind (.outside _) fun answer => ?_
    split
    · exact .pure _
    · exact .bind (.tell _) fun _ => hanew

/-- What the run that looks a deployment up does to the records in hand. -/
theorem run_reuse (hsession : w.drafts.lookup s.session = none) (slot : Slot δ)
    (deploy : StateM σ (Except Failure δ)) (hasCode : String → StateM σ Bool) (t : Tree) (r : Records)
    (log : List Log.Record) (x : σ) :
    ∃ events result r' log' y, Happen deploy hasCode events x y ∧ Choice slot r events result r' ∧
      (s.reuse slot deploy hasCode ⟨s.session, 0⟩).run.run (s.underway t r log x w) =
        (result, s.underway t r' log' y w) := by
  have hanew {asks : List (Event δ)} {log : List Log.Record} {y : σ}
      (hasks : Happen deploy hasCode asks x y) (hvacant : Vacant slot r asks) :
      ∃ events result r' log' z, Happen deploy hasCode events x z ∧ Choice slot r events result r' ∧
        (do
          let d ← Act.ofResult (← Act.outside deploy)
          change ⟨s.session, 0⟩ fun r => slot.set r (some d)
          Act.tell [s.note .deployed ("Deployed " ++ slot.description ++ " at " ++ slot.address d)]
          return d : Act σ δ).run.run (s.underway t r log y w) =
            (result, s.underway t r' log' z w) := by
    have hdeployed := hasks.append (happen_deployed deploy hasCode y)
    rw [run_bind_of_ok (Act.run_outside _), run_bind, Act.run_ofResult]
    rcases hrun : deploy.run y with ⟨result, z⟩
    rw [hrun] at hdeployed
    have hrun : deploy.run (s.underway t r log y w).outside = (result, z) := hrun
    rw [hrun]
    cases result with
    | error e => exact ⟨_, _, _, _, _, hdeployed, .failed hvacant, rfl⟩
    | ok d =>
      refine ⟨_, .ok d, _, log ++ [s.note .deployed
        ("Deployed " ++ slot.description ++ " at " ++ slot.address d)], z, hdeployed,
        .renewed hvacant, ?_⟩
      have hchange : (change ⟨s.session, 0⟩ fun r => slot.set r (some d)).run.run
          (s.underway t r log z w) = (.ok (), s.underway t (slot.set r (some d)) log z w) :=
        run_change_underway hsession _
      exact (run_bind_of_ok hchange).trans rfl
  have hhanded : (handed ⟨s.session, 0⟩ : Act σ Records).run.run (s.underway t r log x w) =
      (.ok r, s.underway t r log x w) := by
    rw [run_handed]
    simp [underway]
  unfold reuse
  rw [run_bind_of_ok hhanded]
  cases hget : slot.get r with
  | none => exact hanew (show Happen deploy hasCode [] x x from rfl) (.unrecorded hget)
  | some known =>
    have hasked := happen_asked deploy hasCode (slot.address known) x
    dsimp only
    rw [run_bind_of_ok (Act.run_outside _)]
    rcases hrun : (hasCode (slot.address known)).run x with ⟨answer, y⟩
    rw [hrun] at hasked
    have hrun : (hasCode (slot.address known)).run (s.underway t r log x w).outside = (answer, y) :=
      hrun
    rw [hrun]
    cases answer with
    | true => exact ⟨_, _, _, _, _, hasked, .reused hget, rfl⟩
    | false =>
      rw [if_neg Bool.false_ne_true, run_bind_of_ok (Act.run_tell _)]
      exact hanew hasked (.codeless hget)

/-- A run of a store finds the records `r`. -/
def Finds (s : Store) (w : Workspace σ) (r : Records) : Prop :=
  ∃ t stale, w.files.makeFolder s.lockFile.parent = .ok t ∧ s.held t = .ok (r, stale)

/-- A run that looks a deployment up and succeeds. -/
theorem reuse_ok {d : δ} (hsession : w.drafts.lookup s.session = none)
    (h : (s.withRecords (s.reuse slot deploy hasCode)).run.run w = (.ok d, w')) :
    ∃ t r stale events r', w.files.makeFolder s.lockFile.parent = .ok t ∧
      s.held t = .ok (r, stale) ∧ Happen deploy hasCode events w.outside w'.outside ∧
      Choice slot r events (.ok d) r' ∧ r'.isWritable = true ∧
      Committed s t r stale r' w'.files ∧ w'.drafts = w.drafts := by
  obtain ⟨t, r, stale, notes, w₂, draft, hmake, hheld, hbody, hdraft, hwritable, hcommitted, -,
    hdrafts, houtside⟩ := withRecords_ok hsession (fun _ => body_reuse) h
  obtain ⟨events, result, r', log', y, hhappen, hchoice, hrun⟩ :=
    run_reuse hsession slot deploy hasCode t r (w.log ++ notes) w.outside
  rw [opened_eq_underway, hrun] at hbody
  cases hbody
  obtain rfl : (⟨[r'], 0⟩ : Draft) = draft := by
    simpa [underway] using hdraft
  rw [houtside]
  exact ⟨t, r, stale, events, r', hmake, hheld, hhappen, hchoice, hwritable, hcommitted, hdrafts⟩

/-- A run that looks a deployment up and fails. -/
theorem reuse_error {e : Failure} (hsession : w.drafts.lookup s.session = none)
    (h : (s.withRecords (s.reuse slot deploy hasCode)).run.run w = (.error e, w')) :
    w'.files.files = w.files.files ∧ ∃ events, Happen deploy hasCode events w.outside w'.outside ∧
      ((events = [] ∧ Unrelated e) ∨ ∃ r result r', s.Finds w r ∧ Choice slot r events result r' ∧
        (result = .error e ∨ (∃ d, result = .ok d) ∧ Unrelated e)) := by
  obtain ⟨huntouched, -⟩ := withRecords_error hsession (fun _ => body_reuse) h
  refine ⟨huntouched.files, ?_⟩
  rcases withRecords_failed hsession h with ⟨he, houtside⟩ |
    ⟨t, r, stale, notes, result, w₂, hmake, hheld, hbody, houtside, hresult⟩
  · exact ⟨[], houtside.symm, Or.inl ⟨rfl, he⟩⟩
  · obtain ⟨events, result', r', log', y, hhappen, hchoice, hrun⟩ :=
      run_reuse hsession slot deploy hasCode t r (w.log ++ notes) w.outside
    rw [opened_eq_underway, hrun] at hbody
    cases hbody
    rw [houtside]
    exact ⟨events, hhappen, Or.inr ⟨r, result, r', ⟨t, stale, hmake, hheld⟩, hchoice, hresult⟩⟩

end Store

/-! ## Slots -/

/-- What is set in a slot is got from it, cleared of it and read back for it, and changes nothing else.
A deployment is `Good` if it is read back as it was written. -/
structure Slot.Lawful (slot : Slot δ) (Good : δ → Prop) (Same : δ → δ → Prop) (stored : δ → δ) :
    Prop where
  get_set (r : Records) (d : δ) : slot.get (slot.set r (some d)) = some d
  get_clear (r : Records) : slot.get (slot.set r none) = none
  clear_set (r : Records) (d? : Option δ) : slot.set (slot.set r d?) none = slot.set r none
  clear_stored (r : Records) : slot.set r.stored none = (slot.set r none).stored
  get_stored (r : Records) : slot.get r.stored = (slot.get r).map stored
  sound_set {r : Records} {d? : Option δ} : r.Sound → (∀ d ∈ d?, Good d) → (slot.set r d?).Sound
  explicit_set {r : Records} {d? : Option δ} : r.Explicit → (∀ d ∈ d?, Good d) →
    (slot.set r d?).Explicit
  good_get {r : Records} {d : δ} : r.Sound → r.Explicit → slot.get r = some d → Good d
  same_stored {d : δ} : Good d → Same d (stored d)
  same_get {r r' : Records} : r.Sound → r.toJson.same r'.toJson = true →
    Option.Rel Same (slot.get r) (slot.get r')
  txHash_of_same {d k : δ} : Same d k → slot.txHash d = slot.txHash k

theorem Slot.lawful_implementation (version : String) :
    (Slot.implementation version).Lawful (fun i => i.Storable ∧ i.Explicit) Implementation.Alike
      Implementation.stored where
  get_set r d := lookup_putField_self
  get_clear r := lookup_dropField_self
  clear_set r d? := by
    cases d? with
    | none => exact congrArg (fun impls => { r with impls }) dropField_dropField
    | some d => exact congrArg (fun impls => { r with impls }) dropField_putField
  clear_stored r := congrArg (fun impls => { r.stored with impls }) (dropField_map_values _)
  get_stored r := lookup_map_values _
  sound_set {r d?} hr hd := by
    cases d? with
    | none => exact ⟨⟨fun e he => hr.storable.impls e (List.mem_of_mem_filter he),
        hr.storable.beacons, nodup_dropField hr.storable.impls_nodup, hr.storable.beacons_nodup⟩,
        hr.version⟩
    | some d => exact ⟨hr.storable.putDeployment version (hd d rfl).1, hr.version⟩
  explicit_set {r d?} hr hd := by
    intro e he
    cases d? with
    | none => exact hr e (List.mem_of_mem_filter he)
    | some d =>
      rcases mem_putField he with rfl | he
      · exact (hd d rfl).2
      · exact hr e he
  good_get hr hexplicit hget :=
    have hmem := mem_of_lookup_eq_some hget
    ⟨hr.storable.impls _ hmem, hexplicit _ hmem⟩
  same_stored {i} hi := by
    rw [Implementation.Alike, Implementation.toJson_stored hi.2]
    exact (Implementation.isReflexive_toJson hi.1).2
  same_get {r r'} hr hsame := by
    rw [Records.toJson_eq, Records.toJson_eq] at hsame
    have himpls := lookup_of_same_obj (Records.keys_fields r) hsame "impls"
    simp [Records.fields, lookup_cons_eq] at himpls
    exact lookup_of_same_table hr.storable.impls_nodup himpls version
  txHash_of_same {i j} hij := by
    rw [Implementation.Alike, Implementation.toJson_eq, Implementation.toJson_eq] at hij
    have htxHash := lookup_of_same_obj (Implementation.keys_fields i) hij "txHash"
    simp [Implementation.fields, deploymentFields, lookup_cons_eq, rel_map_iff] at htxHash
    exact eq_of_rel_eq (fun _ _ => text_eq_of_same) htxHash

theorem Slot.lawful_admin : Slot.admin.Lawful (fun _ => True) (· = ·) id where
  get_set r d := rfl
  get_clear r := rfl
  clear_set r d? := rfl
  clear_stored r := rfl
  get_stored r := Option.map_id.symm ▸ rfl
  sound_set hr _ := ⟨⟨hr.storable.impls, hr.storable.beacons, hr.storable.impls_nodup,
    hr.storable.beacons_nodup⟩, hr.version⟩
  explicit_set hr _ := hr
  good_get _ _ _ := trivial
  same_stored _ := rfl
  same_get {r r'} hr hsame := by
    rw [Records.toJson_eq, Records.toJson_eq] at hsame
    have hadmin := lookup_of_same_obj (Records.keys_fields r) hsame "admin"
    simp [Records.fields, lookup_cons_eq, rel_map_iff] at hadmin
    have heq : r.admin = r'.admin := eq_of_rel_eq (fun _ _ => Admin.eq_of_same) hadmin
    rw [show Slot.admin.get r = Slot.admin.get r' from heq]
    exact rel_eq_self _
  txHash_of_same := congrArg _

/-! ## What is left -/

variable {Good : δ → Prop} {Same : δ → δ → Prop} {stored : δ → δ}

theorem Records.agree_self (hr : r.Sound) : r.Agree Implementation.Alike r :=
  agree_of_same likeness_alike hr.storable (.refl r) (isReflexive_toJson hr.storable).2

theorem Records.agree_stored_of_explicit (hr : r.Sound) (hexplicit : r.Explicit) :
    r.Agree Implementation.Alike r.stored := by
  refine agree_stored hr.storable fun e he => ?_
  rw [Implementation.Alike, Implementation.toJson_stored (hexplicit e he)]
  exact (Implementation.isReflexive_toJson (hr.storable.impls e he)).2

/-- A run that sets a slot alone leaves what it set there, and all other records. -/
theorem Slot.Lawful.settled {final : Records} {d? : Option δ} (h : slot.Lawful Good Same stored)
    (hr : r.Sound) (hexplicit : r.Explicit) (hd : ∀ d ∈ d?, Good d)
    (hfinal : final = r ∨ final = slot.set r d?)
    (hr' : r' = final.stored ∨ (r' = r ∧ final.toJson.same r.toJson = true)) :
    r'.Explicit ∧ (slot.set r none).Agree Implementation.Alike (slot.set r' none) ∧
      Option.Rel Same (slot.get final) (slot.get r') := by
  have hclear : slot.set final none = slot.set r none := by
    rcases hfinal with rfl | rfl
    · rfl
    · exact h.clear_set r d?
  have hsound : final.Sound := by
    rcases hfinal with rfl | rfl
    · exact hr
    · exact h.sound_set hr hd
  have hfinalExplicit : final.Explicit := by
    rcases hfinal with rfl | rfl
    · exact hexplicit
    · exact h.explicit_set hexplicit hd
  have hcleared : (slot.set r none).Sound := h.sound_set hr nofun
  rcases hr' with rfl | ⟨rfl, hsame⟩
  · refine ⟨final.explicit_stored, ?_, ?_⟩
    · rw [h.clear_stored, hclear]
      exact Records.agree_stored_of_explicit hcleared (h.explicit_set hexplicit nofun)
    · rw [h.get_stored]
      cases hget : slot.get final with
      | none => exact .none
      | some d => exact .some (h.same_stored (h.good_get hsound hfinalExplicit hget))
  · exact ⟨hexplicit, Records.agree_self hcleared, h.same_get hsound hsame⟩

theorem txHash_strikeOff (h : slot.Lawful Good Same stored) (d : δ) (r : Records) :
    ∀ k ∈ slot.get (Store.strikeOff slot d r), slot.txHash k ≠ slot.txHash d := by
  intro k hk
  unfold Store.strikeOff at hk
  cases hget : slot.get r with
  | none =>
    rw [hget] at hk
    simp [hget] at hk
  | some known =>
    rw [hget] at hk
    dsimp only at hk
    split at hk
    · rw [h.get_clear] at hk
      cases hk
    · rename_i hne
      rw [hget] at hk
      cases hk
      simpa using hne

/-- The files hold the records `r` for a store; further folders may have been made since. -/
def Store.Leaves (s : Store) (t : Tree) (r : Records) : Prop :=
  ∃ t', t'.files = t.files ∧ t'.FoldersIn t ∧ s.held t' = .ok (r, false)

/-- The records of a store agree with the outcome of looking a deployment up in a slot, or deploying
it. -/
structure Reconciled (s : Store) (slot : Slot δ) (Same : δ → δ → Prop) (w w' : Workspace σ)
    (events : List (Event δ)) (result : Except Failure δ) : Prop where
  /-- At most one deployment is made, and only if none is recorded, or its address has no code. -/
  deployed : Asks events ∨ ∃ before x after, events = before ++ .deployed x :: after ∧
    Asks before ∧ Asks after ∧ ∃ r, s.Finds w r ∧
      ∀ known ∈ slot.get r, .asked (slot.address known) false ∈ before
  /-- What is returned is recorded, and had code when it was last asked for it. -/
  returned : ∀ d, result = .ok d → (∃ r', s.held w'.files = .ok (r', false) ∧
      ∃ k ∈ slot.get r', Same d k) ∧
    events.getLast? = some (.asked (slot.address d) true)
  /-- What is refused for missing code was recorded or deployed, and is not recorded any more, unless
  the deployment failed for that itself. -/
  refused : ∀ address, result = .error (.refused (.noCode address)) → .deployed result ∈ events ∨
    ∃ d, slot.address d = address ∧ events.getLast? = some (.asked address false) ∧
      ((∃ r, s.Finds w r ∧ slot.get r = some d) ∨ .deployed (.ok d) ∈ events) ∧
      ∃ r', s.held w'.files = .ok (r', false) ∧ ∀ k ∈ slot.get r', slot.txHash k ≠ slot.txHash d
  /-- A deployment that fails leaves the files as they were. -/
  raised : ∀ e, .deployed (.error e) ∈ events →
    result = .error e ∧ w'.files.files = w.files.files
  /-- Nothing but the slot is changed. -/
  others : w'.files.files = w.files.files ∨ ∃ r r', s.Finds w r ∧ s.Leaves w'.files r' ∧
    (slot.set r none).Agree Implementation.Alike (slot.set r' none)

namespace Choice

variable {events : List (Event δ)} {result : Except Failure δ}

theorem asks_of_vacant {asks : List (Event δ)} (h : Vacant slot r asks) : Asks asks := by
  cases h with
  | unrecorded => exact List.forall_mem_nil _
  | codeless => exact List.forall_mem_singleton.mpr ⟨_, _, rfl⟩

theorem asked_of_vacant {asks : List (Event δ)} (h : Vacant slot r asks) :
    ∀ known ∈ slot.get r, .asked (slot.address known) false ∈ asks := by
  intro known hknown
  cases h with
  | unrecorded hget =>
    rw [hget] at hknown
    cases hknown
  | codeless hget =>
    rw [hget] at hknown
    cases hknown
    exact List.mem_cons_self

/-- Whatever is asked afterwards, at most one deployment was made. -/
theorem deployed {s : Store} {w : Workspace σ} {asks : List (Event δ)} (h : Choice slot r events result r')
    (hfinds : s.Finds w r) (hasks : Asks asks) : Asks (events ++ asks) ∨
      ∃ before x after, events ++ asks = before ++ .deployed x :: after ∧ Asks before ∧ Asks after ∧
        ∃ r, s.Finds w r ∧ ∀ known ∈ slot.get r, .asked (slot.address known) false ∈ before := by
  cases h with
  | reused hget => exact Or.inl (List.forall_mem_cons.mpr ⟨⟨_, _, rfl⟩, hasks⟩)
  | renewed hvacant | failed hvacant =>
    exact Or.inr ⟨_, _, asks, List.append_assoc _ _ _, asks_of_vacant hvacant, hasks, r, hfinds,
      asked_of_vacant hvacant⟩

theorem eq_of_deployed {x : Except Failure δ} (h : Choice slot r events result r')
    (hx : .deployed x ∈ events) : x = result := by
  have hlast {asks : List (Event δ)} {y : Except Failure δ} (hvacant : Vacant slot r asks)
      (hx : .deployed x ∈ asks ++ [.deployed y]) : x = y := by
    rcases List.mem_append.mp hx with hx | hx
    · obtain ⟨_, _, hasked⟩ := asks_of_vacant hvacant _ hx
      cases hasked
    · cases List.mem_singleton.mp hx
      rfl
  cases h with
  | reused hget => cases List.mem_singleton.mp hx
  | renewed hvacant | failed hvacant => exact hlast hvacant hx

/-- What is chosen was recorded, or was deployed. -/
theorem recorded_or_deployed {d : δ} (h : Choice slot r events (.ok d) r') :
    (slot.get r = some d ∧ r' = r) ∨ (.deployed (.ok d) ∈ events ∧ r' = slot.set r (some d)) := by
  cases h with
  | reused hget => exact Or.inl ⟨hget, rfl⟩
  | renewed hvacant => exact Or.inr ⟨List.mem_append_right _ List.mem_cons_self, rfl⟩

theorem deployed_of_error {e : Failure} (h : Choice slot r events (.error e) r') :
    .deployed (.error e) ∈ events := by
  cases h with
  | failed hvacant => exact List.mem_append_right _ List.mem_cons_self

end Choice

theorem Happen.good {deploy : StateM σ (Except Failure δ)} {hasCode : String → StateM σ Bool}
    {events : List (Event δ)} {x y : σ} {d : δ} (h : Happen deploy hasCode events x y)
    (hdeploy : ∀ x d, (deploy.run x).1 = .ok d → Good d) (hd : .deployed (.ok d) ∈ events) : Good d := by
  induction events generalizing x with
  | nil => cases hd
  | cons event events ih =>
    cases event with
    | asked address answer =>
      obtain ⟨z, -, hrest⟩ := h
      rcases List.mem_cons.mp hd with heq | hd
      · cases heq
      · exact ih hrest hd
    | deployed result =>
      obtain ⟨z, hrun, hrest⟩ := h
      rcases List.mem_cons.mp hd with heq | hd
      · cases heq
        exact hdeploy x d (by rw [hrun])
      · exact ih hrest hd

namespace Store

variable {s : Store} {w w' : Workspace σ} {deploy : StateM σ (Except Failure δ)}
  {hasCode : String → StateM σ Bool} {d : δ}

/-- What a store holds after a deployment was looked up, or made. -/
theorem reuse_settled (h : slot.Lawful Good Same stored)
    (hsession : w.drafts.lookup s.session = none) (hsound : w.files.Sound)
    (hupdater : AnswersTidy s.updater) (hexplicit : ∀ r, s.Finds w r → r.Explicit)
    (hdeploy : ∀ x d, (deploy.run x).1 = .ok d → Good d)
    (hrun : (s.withRecords (s.reuse slot deploy hasCode)).run.run w = (.ok d, w')) :
    ∃ r events final r', s.Finds w r ∧ Happen deploy hasCode events w.outside w'.outside ∧
      Choice slot r events (.ok d) final ∧ w'.drafts = w.drafts ∧ w'.files.Sound ∧
      w'.files.makeFolder s.lockFile.parent = .ok w'.files ∧ s.held w'.files = .ok (r', false) ∧
      r'.Explicit ∧ (slot.set r none).Agree Implementation.Alike (slot.set r' none) ∧
      ∃ k ∈ slot.get r', Same d k := by
  obtain ⟨t, r, stale, events, final, hmake, hheld, hhappen, hchoice, hwritable, hcommitted,
    hdrafts⟩ := reuse_ok hsession hrun
  have hfinds : s.Finds w r := ⟨t, stale, hmake, hheld⟩
  have hr : r.Sound := held_sound hupdater hheld
  have hgood : Good d ∧ (final = r ∨ final = slot.set r (some d)) ∧ slot.get final = some d := by
    rcases hchoice.recorded_or_deployed with ⟨hget, rfl⟩ | ⟨hdeployed, rfl⟩
    · exact ⟨h.good_get hr (hexplicit _ hfinds) hget, Or.inl rfl, hget⟩
    · exact ⟨hhappen.good hdeploy hdeployed, Or.inr rfl, h.get_set r d⟩
  obtain ⟨hgood, hfinal, hget⟩ := hgood
  have hgoods : ∀ d' ∈ some d, Good d' := fun d' hd' => Option.some.inj hd' ▸ hgood
  have hfinalSound : final.Sound := by
    rcases hfinal with rfl | rfl
    · exact hr
    · exact h.sound_set hr hgoods
  obtain ⟨hsound', hfolders, r', hheld', hr'⟩ :=
    hcommitted.held (hsound.makeFoldersFrom hmake) hheld hfinalSound hwritable
  obtain ⟨hexplicit', hagree, hrel⟩ := h.settled hr (hexplicit r hfinds) hgoods hfinal hr'
  rw [hget] at hrel
  exact ⟨r, events, final, r', hfinds, hhappen, hchoice, hdrafts, hsound',
    Tree.makeFoldersFrom_eq_self hmake hfolders, hheld', hexplicit', hagree,
    exists_of_rel_some hrel⟩

/-- What a store holds after a deployment was struck off. -/
theorem strikeOff_settled (h : slot.Lawful Good Same stored) {result : Except Failure Unit}
    (hsession : w.drafts.lookup s.session = none) (hsound : w.files.Sound)
    (hupdater : AnswersTidy s.updater) (hmake : w.files.makeFolder s.lockFile.parent = .ok w.files)
    (hheld : s.held w.files = .ok (r, false)) (hexplicit : r.Explicit)
    (hrun : (s.update (strikeOff slot d)).run.run w = (result, w')) :
    w'.outside = w.outside ∧
      ((∃ e, result = .error e ∧ Unrelated e ∧ w'.files.files = w.files.files ∧
        w.files.FoldersIn w'.files) ∨
      (result = .ok () ∧ ∃ r', s.held w'.files = .ok (r', false) ∧
        (slot.set r none).Agree Implementation.Alike (slot.set r' none) ∧
        ∀ k ∈ slot.get r', slot.txHash k ≠ slot.txHash d)) := by
  cases result with
  | error e =>
    obtain ⟨huntouched, -⟩ := withRecords_error hsession (fun _ hh => .change _ hh) hrun
    rcases withRecords_failed hsession hrun with ⟨he, houtside⟩ |
      ⟨t, r, stale, notes, result, w₂, -, -, hbody, houtside, hresult⟩
    · exact ⟨houtside, Or.inl ⟨e, rfl, he, huntouched.files, huntouched.folders⟩⟩
    · rw [opened_eq_underway, run_change_underway hsession] at hbody
      cases hbody
      rcases hresult with hresult | ⟨-, he⟩
      · cases hresult
      · exact ⟨houtside, Or.inl ⟨e, rfl, he, huntouched.files, huntouched.folders⟩⟩
  | ok _ =>
    obtain ⟨t, r₁, stale, hmake', hheld', hwritable, hcommitted, -, -, houtside⟩ :=
      update_ok hsession hrun
    cases hmake.symm.trans hmake'
    cases hheld.symm.trans hheld'
    have hr : r.Sound := held_sound hupdater hheld
    have hfinal : strikeOff slot d r = r ∨ strikeOff slot d r = slot.set r none := by
      unfold strikeOff
      split
      · split
        · exact Or.inr rfl
        · exact Or.inl rfl
      · exact Or.inl rfl
    have hfinalSound : (strikeOff slot d r).Sound := by
      rcases hfinal with hfinal | hfinal
      · rwa [hfinal]
      · rw [hfinal]
        exact h.sound_set hr nofun
    obtain ⟨-, -, r', hheld', hr'⟩ := hcommitted.held hsound hheld hfinalSound hwritable
    obtain ⟨-, hagree, hrel⟩ := h.settled hr hexplicit
      (fun d' (hd' : d' ∈ (none : Option δ)) => nomatch hd') hfinal hr'
    refine ⟨houtside, Or.inr ⟨rfl, r', hheld', hagree, fun k hk => ?_⟩⟩
    rw [Option.mem_def.mp hk] at hrel
    cases hget : slot.get (strikeOff slot d r) with
    | none =>
      rw [hget] at hrel
      cases hrel
    | some k' =>
      rw [hget] at hrel
      cases hrel with
      | some hsame => exact h.txHash_of_same hsame ▸ txHash_strikeOff h d r k' hget

/-- Looking a deployment up, or making it, leaves records that agree with the outcome. -/
theorem reconciled (h : slot.Lawful Good Same stored)
    (hsession : w.drafts.lookup s.session = none) (hsound : w.files.Sound)
    (hupdater : AnswersTidy s.updater) (hexplicit : ∀ r, s.Finds w r → r.Explicit)
    (hdeploy : ∀ x d, (deploy.run x).1 = .ok d → Good d) :
    ∃ events result w', (s.reuseOrDeploy slot deploy hasCode).run.run w = (result, w') ∧
      Happen deploy hasCode events w.outside w'.outside ∧
      Reconciled s slot Same w w' events result := by
  have hunreturned (e : Failure) {P : δ → Prop} : ∀ d, Except.error e = .ok d → P d :=
    fun _ h => by cases h
  rcases hfirst : (s.withRecords (s.reuse slot deploy hasCode)).run.run w with ⟨first, w₁⟩
  unfold reuseOrDeploy
  cases first with
  | error e =>
    obtain ⟨hfiles, events, hhappen, hcases⟩ := reuse_error hsession hfirst
    refine ⟨events, _, _, run_bind_of_error hfirst, hhappen, ?_⟩
    rcases hcases with ⟨rfl, he⟩ | ⟨r, result, final, hfinds, hchoice, hresult⟩
    · exact ⟨Or.inl (List.forall_mem_nil _), hunreturned e,
        fun a ha => absurd (Except.error.inj ha) (he a), fun _ h => absurd h List.not_mem_nil,
        Or.inl hfiles⟩
    · have hdeployed := hchoice.deployed hfinds (List.forall_mem_nil _ : Asks [])
      rw [List.append_nil] at hdeployed
      refine ⟨hdeployed, hunreturned e, fun a ha => ?_, fun e' he' => ?_, Or.inl hfiles⟩
      · rcases hresult with rfl | ⟨-, he⟩
        · exact Or.inl hchoice.deployed_of_error
        · exact absurd (Except.error.inj ha) (he a)
      · have hlast := hchoice.eq_of_deployed he'
        rcases hresult with rfl | ⟨⟨d, rfl⟩, -⟩
        · exact ⟨hlast.symm, hfiles⟩
        · cases hlast
  | ok d =>
    obtain ⟨r, events, final, r₁, hfinds, hhappen, hchoice, hdrafts, hsound₁, hmake₁, hheld₁,
      hexplicit₁, hagree, k, hk, hsame⟩ :=
      reuse_settled h hsession hsound hupdater hexplicit hdeploy hfirst
    rw [run_bind_of_ok hfirst, run_bind_of_ok (Act.run_outside _)]
    have hasked := hhappen.append (happen_asked deploy hasCode (slot.address d) w₁.outside)
    rcases hcode : (hasCode (slot.address d)).run w₁.outside with ⟨answer, y⟩
    rw [hcode] at hasked
    have hdeployed := hchoice.deployed hfinds
      (show Asks [.asked (slot.address d) answer] from List.forall_mem_singleton.mpr ⟨_, _, rfl⟩)
    have hraised : ∀ e, .deployed (.error e) ∉ events ++ [.asked (slot.address d) answer] := by
      intro e he
      rcases List.mem_append.mp he with he | he
      · cases hchoice.eq_of_deployed he
      · cases List.mem_singleton.mp he
    cases answer with
    | true =>
      refine ⟨_, .ok d, _, rfl, hasked, hdeployed, fun d' hd' => ?_, fun _ h => (by cases h),
        fun e he => absurd he (hraised e), Or.inr ⟨r, r₁, hfinds, ⟨_, rfl, .refl _, hheld₁⟩, hagree⟩⟩
      cases hd'
      exact ⟨⟨r₁, hheld₁, k, hk, hsame⟩, List.getLast?_concat⟩
    | false =>
      rcases hsecond : (s.update (strikeOff slot d)).run.run { w₁ with outside := y } with
        ⟨second, w₂⟩
      obtain ⟨houtside, hcases⟩ := strikeOff_settled (w := { w₁ with outside := y }) h
        (by rw [hdrafts]; exact hsession) hsound₁ hupdater hmake₁ hheld₁ hexplicit₁ hsecond
      rw [← (show w₂.outside = y from houtside)] at hasked
      rcases hcases with ⟨e, rfl, he, hfiles, hfolders⟩ | ⟨rfl, r₂, hheld₂, hagree₂, hstruck⟩
      · exact ⟨_, _, _, run_bind_of_error hsecond, hasked, hdeployed, hunreturned _,
          fun a ha => absurd (Except.error.inj ha) (he a), fun e he => absurd he (hraised e),
          Or.inr ⟨r, r₁, hfinds, ⟨w₁.files, hfiles.symm, hfolders, hheld₁⟩, hagree⟩⟩
      · refine ⟨_, _, _, run_bind_of_ok hsecond, hasked, hdeployed, hunreturned _, fun a ha => Or.inr ?_,
          fun e he => absurd he (hraised e), Or.inr ⟨r, r₂, hfinds, ⟨_, rfl, .refl _, hheld₂⟩,
            hagree.trans likeness_alike hagree₂⟩⟩
        cases ha
        refine ⟨d, rfl, List.getLast?_concat, ?_, r₂, hheld₂, hstruck⟩
        rcases hchoice.recorded_or_deployed with ⟨hget, -⟩ | ⟨hmade, -⟩
        · exact Or.inl ⟨r, hfinds, hget⟩
        · exact Or.inr (List.mem_append_left _ hmade)

/-- Looking up the implementation of a version or the admin, or deploying it anew, leaves records that
agree with the outcome, whatever the chain answers and wherever it fails. -/
theorem reuseOrDeploy_reconciled {deploy : StateM σ (Except Failure Implementation)}
    {deployAdmin : StateM σ (Except Failure Admin)} {hasCode : String → StateM σ Bool}
    (version : String) (hsession : w.drafts.lookup s.session = none) (hsound : w.files.Sound)
    (hupdater : AnswersTidy s.updater) (hexplicit : ∀ r, s.Finds w r → r.Explicit)
    (hdeploy : ∀ x i, (deploy.run x).1 = .ok i → i.Storable ∧ i.Explicit) :
    (∃ events result w',
      (s.reuseOrDeploy (.implementation version) deploy hasCode).run.run w = (result, w') ∧
      Happen deploy hasCode events w.outside w'.outside ∧
      Reconciled s (.implementation version) Implementation.Alike w w' events result) ∧
    ∃ events result w', (s.reuseOrDeploy .admin deployAdmin hasCode).run.run w = (result, w') ∧
      Happen deployAdmin hasCode events w.outside w'.outside ∧
      Reconciled s .admin (· = ·) w w' events result :=
  ⟨reconciled (Slot.lawful_implementation version) hsession hsound hupdater hexplicit hdeploy,
    reconciled Slot.lawful_admin hsession hsound hupdater hexplicit fun _ _ _ => trivial⟩

theorem reuseOrDeploy_reconciled_codeless :
    let deploy : StateM Unit (Except Failure Implementation) := pure (.ok (.bare "0xa"))
    let deployAdmin : StateM Unit (Except Failure Admin) := pure (.ok ⟨"0xb", none⟩)
    let hasCode : String → StateM Unit Bool := fun _ => pure false
    (∃ events result w', (mainStore.reuseOrDeploy (.implementation "0x1") deploy hasCode).run.run
        emptyWorkspace = (result, w') ∧
      Happen deploy hasCode events () w'.outside ∧
      Reconciled mainStore (.implementation "0x1") Implementation.Alike emptyWorkspace w' events
        result) ∧
    ∃ events result w', (mainStore.reuseOrDeploy .admin deployAdmin hasCode).run.run
        emptyWorkspace = (result, w') ∧
      Happen deployAdmin hasCode events () w'.outside ∧
      Reconciled mainStore .admin (· = ·) emptyWorkspace w' events result := by
  refine reuseOrDeploy_reconciled "0x1" rfl Tree.sound_empty answersTidy_none ?_ ?_
  · rintro r ⟨t, stale, hmake, hheld⟩
    obtain ⟨t', hmake', -, hheld'⟩ := ready_mainStore
    cases hmake.symm.trans hmake'
    cases hheld.symm.trans hheld'
    exact nofun
  · intro x i hi
    cases hi
    exact ⟨(Implementation.proper_bare "0xa").storable, Implementation.explicit_bare "0xa"⟩

end Store

end UpgradeSafety.Manifest
