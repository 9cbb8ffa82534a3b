import UpgradeSafety.Proofs.Manifest.Saved

/-!
# Runs that fail

Taking the lock, reading and writing touch nothing outside, and fail for reasons of their own
(`Internal`). So what a failed run did outside its body did, and it failed as its body did, or
before its body began, or when what the body left was to be written (`Store.withRecords_failed`).

This is needed where a failure is told apart by what it says: that an address has no code is said
by the body of a run alone, and never by a file that cannot be read, a lock that is taken, or
records that cannot be written (`Unrelated`). For the tree of files this is a list of the faults
that reading, writing, removing and making folders may end with; for the rest of a run it is kept
by returning, binding and recovering, so that the functions of a store follow one after the other.
What is shown is about every failure, in whatever state the files are, and needs nothing of the
records.
-/

namespace UpgradeSafety

open Stateful

/-! ## Failures of the files -/

namespace Files.Tree

variable {t : Tree} {p q : Path} {e : Failure}

theorem fault_of_read (h : t.read p = .error e) : ∃ f, e = .fault f := by
  unfold read at h
  split at h
  · cases h
    exact ⟨_, rfl⟩
  · split at h
    · cases h
    · split at h
      · cases h
        exact ⟨_, rfl⟩
      · split at h <;> cases h <;> exact ⟨_, rfl⟩

theorem fault_of_write {content : List UInt8} (h : t.write p content = .error e) :
    ∃ f, e = .fault f := by
  unfold write at h
  split at h
  · cases h
    exact ⟨_, rfl⟩
  · split at h
    · cases h
      exact ⟨_, rfl⟩
    · split at h
      · cases h
      · cases h
        exact ⟨_, rfl⟩

theorem fault_of_remove (h : t.remove p = .error e) : ∃ f, e = .fault f := by
  unfold remove at h
  cases hread : t.read p with
  | error e' =>
    rw [hread] at h
    cases h
    exact fault_of_read hread
  | ok content =>
    rw [hread] at h
    dsimp only [bind, Except.bind] at h
    split at h <;> cases h

theorem fault_of_rename (h : t.rename p q = .error e) : ∃ f, e = .fault f := by
  unfold rename at h
  cases hread : t.read p with
  | error e' =>
    rw [hread] at h
    cases h
    exact fault_of_read hread
  | ok content =>
    rw [hread, ok_bind] at h
    cases hremove : t.remove p with
    | error e' =>
      rw [hremove] at h
      cases h
      exact fault_of_remove hremove
    | ok t' =>
      rw [hremove, ok_bind] at h
      exact fault_of_write h

theorem fault_of_addFolder {place : Place} {last : Bool} (h : t.addFolder place last = .error e) :
    ∃ f, e = .fault f := by
  unfold addFolder at h
  split at h
  · cases h
  · split at h
    · cases h
      exact ⟨_, rfl⟩
    · cases h

theorem fault_of_makeFoldersFrom {parts : List String} {place : Place}
    (h : t.makeFoldersFrom place parts = .error e) : ∃ f, e = .fault f := by
  induction parts generalizing t place with
  | nil => cases h
  | cons part rest ih =>
    rw [makeFoldersFrom] at h
    split at h
    · exact ih h
    · cases hadd : t.addFolder (place ++ [part]) rest.isEmpty with
      | error e' =>
        rw [hadd] at h
        cases h
        exact fault_of_addFolder hadd
      | ok t' =>
        rw [hadd, ok_bind] at h
        exact ih h

end Files.Tree

namespace Manifest

variable {σ α β : Type} {s : Store} {w w' : Workspace σ} {t : Files.Tree} {e : Failure}

/-! ## Failures of a store -/

/-- A failure that has nothing to do with the code at an address. -/
def Unrelated (e : Failure) : Prop := ∀ address, e ≠ .refused (.noCode address)

theorem unrelated_of_fault (h : ∃ f, e = .fault f) : Unrelated e := by
  obtain ⟨f, rfl⟩ := h
  exact nofun

theorem unrelated_of_written {isWritable : Bool} {v : Json} (h : written isWritable v = .error e) :
    Unrelated e := by
  unfold written at h
  split at h
  · cases h
  · cases h
    exact nofun

namespace Store

theorem unrelated_of_fileText {r : Records} (h : fileText r = .error e) : Unrelated e := by
  unfold fileText Json.writable at h
  split at h
  · cases h
  · cases h
    exact nofun

theorem unrelated_of_readJson {p : Files.Path} (h : t.readJson p = .error e) : Unrelated e := by
  unfold Files.Tree.readJson at h
  cases hread : t.read p with
  | error e' =>
    rw [hread] at h
    cases h
    exact unrelated_of_fault (Files.Tree.fault_of_read hread)
  | ok content =>
    rw [hread, ok_bind] at h
    split at h
    · cases h
    · dsimp only at h
      split at h
      · split at h
        · cases h
          exact nofun
        · cases h
      · cases h

theorem unrelated_of_currentFile? (h : s.currentFile? t = .error e) : Unrelated e := by
  have hsite {site : Site} (h : site.currentFile? t = .error e) : Unrelated e := by
    unfold Site.currentFile? at h
    split at h
    · split at h
      · cases h
        exact nofun
      · cases h
    · cases h
  unfold currentFile? at h
  split at h
  · exact hsite h
  · split at h
    · cases h
    · split at h
      · exact hsite h
      · cases h

theorem unrelated_of_held (h : s.held t = .error e) : Unrelated e := by
  unfold held at h
  split at h
  · rename_i hcurrent
    cases h
    exact unrelated_of_currentFile? hcurrent
  · cases h
  · split at h
    · rename_i hread
      cases h
      exact unrelated_of_readJson hread
    · cases h
      exact nofun
    · rename_i file _ raw _
      unfold interpreted at h
      split at h
      · split at h
        · cases h
          exact nofun
        · split at h
          · cases h
          · cases h
            exact nofun
      · cases h
        exact nofun

end Store

/-! ## Operations inside -/

/-- What touches nothing outside, and fails for other reasons than missing code. -/
def Internal (x : Act σ α) : Prop :=
  ∀ ⦃w : Workspace σ⦄ ⦃result w'⦄, x.run.run w = (result, w') →
    w'.outside = w.outside ∧ ∀ e, result = .error e → Unrelated e

namespace Internal

theorem pure (a : α) : Internal (Pure.pure a : Act σ α) := by
  rintro w result w' ⟨⟩
  exact ⟨rfl, nofun⟩

theorem fail (h : Unrelated e) : Internal (throw e : Act σ α) := by
  rintro w result w' ⟨⟩
  refine ⟨rfl, fun e' he => ?_⟩
  cases he
  exact h

theorem refuse {r : Refusal} (h : ∀ address, r ≠ .noCode address) :
    Internal (Act.refuse r : Act σ α) :=
  fail fun address hr => h address (Failure.refused.inj hr)

theorem ofResult {x : Except Failure α} (h : ∀ e, x = .error e → Unrelated e) :
    Internal (Act.ofResult x : Act σ α) := by
  intro w result w' hrun
  rw [Act.run_ofResult] at hrun
  cases hrun
  exact ⟨rfl, h⟩

theorem get : Internal (MonadState.get : Act σ (Workspace σ)) := by
  rintro w result w' ⟨⟩
  exact ⟨rfl, nofun⟩

theorem tell (records : List Log.Record) : Internal (Act.tell records : Act σ Unit) := by
  rintro w result w' ⟨⟩
  exact ⟨rfl, nofun⟩

theorem bind {x : Act σ α} {f : α → Act σ β} (hx : Internal x) (hf : ∀ a, Internal (f a)) :
    Internal (x >>= f) := by
  intro w result w' hrun
  rcases hfirst : x.run.run w with ⟨r, w₁⟩
  obtain ⟨houtside, herror⟩ := hx hfirst
  rw [run_bind, hfirst] at hrun
  cases r with
  | error e =>
    cases hrun
    refine ⟨houtside, fun e' he => ?_⟩
    cases he
    exact herror e rfl
  | ok a =>
    obtain ⟨houtside', herror'⟩ := hf a hrun
    exact ⟨houtside'.trans houtside, herror'⟩

theorem recover {x : Act σ α} {handle : Failure → Act σ α} (hx : Internal x)
    (hhandle : ∀ e, Unrelated e → Internal (handle e)) : Internal (tryCatch x handle) := by
  intro w result w' hrun
  rcases hfirst : x.run.run w with ⟨r, w₁⟩
  obtain ⟨houtside, herror⟩ := hx hfirst
  rw [run_tryCatch, hfirst] at hrun
  cases r with
  | error e =>
    obtain ⟨houtside', herror'⟩ := hhandle e (herror e rfl) hrun
    exact ⟨houtside'.trans houtside, herror'⟩
  | ok a =>
    cases hrun
    exact ⟨houtside, nofun⟩

theorem onFiles {f : Files.Tree → Except Failure Files.Tree}
    (h : ∀ t e, f t = .error e → ∃ fault, e = .fault fault) :
    Internal (Act.onFiles f : Act σ Unit) := by
  intro w result w' hrun
  rw [Act.run_onFiles] at hrun
  cases hf : f w.files with
  | ok t =>
    rw [hf] at hrun
    cases hrun
    exact ⟨rfl, nofun⟩
  | error e =>
    rw [hf] at hrun
    cases hrun
    refine ⟨rfl, fun e' he => ?_⟩
    cases he
    exact unrelated_of_fault (h _ _ hf)

theorem replaceFile (p : Files.Path) (content : List UInt8) :
    Internal (Act.replaceFile p content : Act σ Unit) :=
  bind get fun _ => bind (onFiles fun _ _ => Files.Tree.fault_of_write) fun _ =>
    recover (onFiles fun _ _ => Files.Tree.fault_of_rename) fun _ he =>
      bind (onFiles fun _ _ => Files.Tree.fault_of_remove) fun _ => fail he

theorem acquire (s : Store) : Internal (s.acquire : Act σ Unit) := by
  intro w result w' hrun
  unfold Store.acquire at hrun
  rw [run_bind, Act.run_onFiles] at hrun
  cases hmake : w.files.makeFolder s.lockFile.parent with
  | error e =>
    rw [hmake] at hrun
    cases hrun
    refine ⟨rfl, fun e' he => ?_⟩
    cases he
    exact unrelated_of_fault (Files.Tree.fault_of_makeFoldersFrom hmake)
  | ok t =>
    rw [hmake] at hrun
    dsimp only at hrun
    rw [run_bind_of_ok run_get] at hrun
    split at hrun
    · have htimeout := bind (tell _) (fun _ => refuse fun _ => Refusal.noConfusion) hrun
      exact htimeout
    · split at hrun
      · have hfault := fail (unrelated_of_fault ⟨_, rfl⟩) hrun
        exact hfault
      · cases hrun
        exact ⟨rfl, nofun⟩

theorem current (s : Store) : Internal (s.current : Act σ Records) := by
  refine bind (bind (bind get fun _ => pure _) fun _ => pure _) fun h? => ?_
  cases h? with
  | none => exact pure _
  | some h => exact bind (bind get fun _ => pure _) fun _ => pure _

theorem save (s : Store) (r : Records) : Internal (s.save r : Act σ Unit) := by
  refine bind (onFiles fun _ _ => Files.Tree.fault_of_makeFoldersFrom) fun _ =>
    bind (ofResult fun _ => Store.unrelated_of_fileText) fun _ => bind (replaceFile _ _) fun _ =>
      bind get fun _ => ?_
  split
  · exact bind (onFiles fun _ _ => Files.Tree.fault_of_remove) fun _ => tell _
  · exact pure _

end Internal

/-! ## Runs -/

namespace Store

/-- A run that fails: it failed before its body was run, or as its body did, or the body succeeded and
what it left was not written. -/
theorem withRecords_failed {body : Handle → Act σ α} (hsession : w.drafts.lookup s.session = none)
    (h : (s.withRecords body).run.run w = (.error e, w')) :
    (Unrelated e ∧ w'.outside = w.outside) ∨
    ∃ t r stale notes result w₂, w.files.makeFolder s.lockFile.parent = .ok t ∧
      s.held t = .ok (r, stale) ∧
      (body ⟨s.session, 0⟩).run.run (s.opened t r notes w) = (result, w₂) ∧
      w'.outside = w₂.outside ∧ (result = .error e ∨ (∃ a, result = .ok a) ∧ Unrelated e) := by
  unfold withRecords at h
  rw [run_bind_of_ok run_currentHandle?, hsession] at h
  dsimp only [Option.map_none] at h
  rcases acquire_cases s w with ⟨e', w₁, hacquire, -⟩ | ⟨t, hmake, -, hacquire⟩
  · obtain ⟨houtside, herror⟩ := Internal.acquire s hacquire
    rw [run_bind_of_error hacquire] at h
    cases h
    exact Or.inl ⟨herror e rfl, houtside⟩
  rw [run_bind_of_ok hacquire, Act.run_andThenAlways] at h
  obtain ⟨hrun, rfl⟩ := Prod.mk.inj h
  obtain ⟨w₅, hrun⟩ : ∃ w₅, (s.runOnFile body).run.run
      { w with files := t, locks := s.lockFile :: w.locks } = (.error e, w₅) :=
    ⟨_, Prod.ext hrun rfl⟩
  rw [hrun]
  unfold runOnFile at hrun
  obtain ⟨notes, hload⟩ := run_load s { w with files := t, locks := s.lockFile :: w.locks }
  rw [run_bind, hload] at hrun
  cases hheld : s.held t with
  | error e' =>
    rw [hheld] at hrun
    cases hrun
    exact Or.inl ⟨unrelated_of_held hheld, rfl⟩
  | ok found =>
    obtain ⟨r, stale⟩ := found
    rw [hheld] at hrun
    dsimp only at hrun
    rcases run_bind_eq_error_iff.mp hrun with hencode | ⟨before, w₁, hencode, hrun⟩
    · obtain ⟨houtside, herror⟩ := Internal.ofResult (fun _ => unrelated_of_written) hencode
      exact Or.inl ⟨herror e rfl, houtside⟩
    obtain ⟨hbefore, rfl⟩ := Prod.mk.inj ((Act.run_ofResult _).symm.trans hencode)
    obtain ⟨-, rfl⟩ := written_eq_ok hbefore
    rw [run_bind_of_ok (run_modify _)] at hrun
    rcases hbodyrun : (body ⟨s.session, 0⟩).run.run (s.opened t r notes w) with ⟨result, w₂⟩
    refine Or.inr ⟨t, r, stale, notes, result, w₂, hmake, hheld, hbodyrun, ?_⟩
    cases result with
    | error e' =>
      cases (run_bind_of_error hbodyrun).symm.trans hrun
      exact ⟨rfl, Or.inl rfl⟩
    | ok a =>
      have hrun := (run_bind_of_ok hbodyrun).symm.trans hrun
      have hconclude : Internal (do
          let final ← s.current
          let after ← Act.ofResult final.encode
          if stale || !after.same r.toJson then s.save final
          return a : Act σ α) := by
        refine .bind (.current s) fun final => .bind (.ofResult fun _ => unrelated_of_written)
          fun after => ?_
        split
        · exact .bind (.save s final) fun _ => .pure a
        · exact .pure a
      obtain ⟨houtside, herror⟩ := hconclude hrun
      exact ⟨houtside, Or.inr ⟨⟨a, rfl⟩, herror e rfl⟩⟩

end Store

end Manifest

end UpgradeSafety
