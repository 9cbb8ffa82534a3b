import UpgradeSafety.Proofs.Manifest.ByAddress

/-!
# Lookups that nothing stands in the way of

A lookup answers from what a store holds when nothing is in the way of its run (`Store.Readable`,
`Store.Readable.run_find`). By address it answers with the record of a version if that is or was at
the address and no version that is listed before it is or was (`Records.deploymentAt?_of_first`).

The condition is less than being at rest: the folder of the file need not be writable, and the
records need not have been read back. It speaks of one workspace, in which the record may have been
written long before, by another store or in another program; so the runs between recording and
looking up are not followed, and it is enough to say what is found in the file later.

A lookup is a run like any other. It takes the lock, makes the folder of the lock if that is
missing, reads, and writes nothing since nothing has changed. What is left of it is a longer log,
and the file holds the same records afterwards.
-/

namespace UpgradeSafety.Manifest

open Stateful

variable {σ α : Type} {s : Store} {w : Workspace σ} {r : Records} {version address : String}

/-! ## Readable stores -/

/-- A store can be read: it has no run in progress, nobody holds its lock, which can be taken, and its
file holds records that are up to date and can be written. -/
structure Store.Readable (s : Store) (w : Workspace σ) (r : Records) : Prop where
  session : w.drafts.lookup s.session = none
  free : s.lockFile ∉ w.locks
  files : ∃ t, w.files.makeFolder s.lockFile.parent = .ok t ∧ t.isFolder s.lockFile = false ∧
    s.held t = .ok (r, false)
  writable : r.isWritable = true
  updater : AnswersTidy s.updater

namespace Store

theorem AtRest.readable (h : s.AtRest w r) (hupdater : AnswersTidy s.updater) :
    s.Readable w r := by
  obtain ⟨t, hmake, hholds⟩ := h.files
  exact ⟨h.session, h.free, ⟨t, hmake, hholds.ready.lock, hholds.held s (.refl s)⟩,
    hholds.proper.isWritable, hupdater⟩

namespace Readable

theorem storable (h : s.Readable w r) : r.Storable := by
  obtain ⟨_, -, -, hheld⟩ := h.files
  exact (held_sound h.updater hheld).storable

theorem withLog (h : s.Readable w r) (log : List Log.Record) :
    s.Readable { w with log } r := ⟨h.session, h.free, h.files, h.writable, h.updater⟩

/-- A run whose body leaves the records in hand as they are. The folder of the lock is made; apart from
that the files stay as they are. -/
theorem run_withRecords {body : Handle → Act σ α} {result : Except Failure α} (h : s.Readable w r)
    (hbody : ∀ t log, (body ⟨s.session, 0⟩).run.run (s.underway t r log w.outside w) =
      (result, s.underway t r log w.outside w)) :
    ∃ w', (s.withRecords body).run.run w = (result, w') ∧ s.Readable w' r := by
  obtain ⟨t, hmake, hlock, hheld⟩ := h.files
  obtain ⟨notes, hrun⟩ := run_withRecords_opened body h.session hmake h.free hlock hheld h.writable
  have hreadable : s.Readable { w with files := t, log := w.log ++ notes } r :=
    ⟨h.session, h.free, ⟨t, Files.Tree.makeFoldersFrom_eq_self hmake (.refl t), hlock, hheld⟩,
      h.writable, h.updater⟩
  refine ⟨_, ?_, hreadable⟩
  rw [hrun, opened_eq_underway]
  unfold conclude
  cases result with
  | error e =>
    rw [run_bind_of_error (hbody t _), closed_underway h.session]
  | ok a =>
    have hencode : r.encode = .ok r.toJson := by rw [Records.encode, written, if_pos h.writable]
    have hsame := (Records.isReflexive_toJson h.storable).2
    rw [run_bind_of_ok (hbody t _), run_bind_of_ok run_current_underway, run_bind,
      Act.run_ofResult, hencode]
    dsimp only
    rw [if_neg (by simp [hsame]), run_pure, closed_underway h.session]

/-- A lookup in the records of a store that can be read. -/
theorem run_find (h : s.Readable w r) (lookup : Records → Option α) (missing : Refusal) :
    ∃ w', (s.find lookup missing).run.run w = (Operation.lookedUp missing (lookup r), w') ∧
      s.Readable w' r :=
  h.run_withRecords fun _ _ => run_lookup_underway lookup missing

end Readable

end Store

/-! ## Lookups by address -/

/-- What is found first when nothing before the key satisfies a condition. -/
theorem find?_of_lookup {α : Type} {p : α → Bool} {key : String} {a : α}
    {entries : List (String × α)} (h : entries.lookup key = some a) (ha : p a = true)
    (hbefore : (entries.takeWhile (·.1 != key)).find? (fun e => p e.2) = none) :
    entries.find? (fun e => p e.2) = some (key, a) := by
  induction entries with
  | nil => cases h
  | cons e entries ih =>
    obtain ⟨k, b⟩ := e
    by_cases hk : k = key
    · subst hk
      rw [List.lookup_cons_self] at h
      cases h
      exact List.find?_cons_of_pos (p := fun e : String × α => p e.2) ha
    · rw [lookup_cons_other (Ne.symm hk)] at h
      rw [List.takeWhile_cons_of_pos (by simpa using hk), List.find?_cons] at hbefore
      rw [List.find?_cons]
      cases hb : p b with
      | true => simp [hb] at hbefore
      | false =>
        rw [hb] at hbefore
        exact ih h hbefore

/-- A lookup by address finds the record of a version unless a version that is listed before it is or was
at the address. -/
theorem Records.deploymentAt?_of_first {i : Implementation} (h : r.deployment? version = some i)
    (hi : i.hasAddress address = true) (hfirst : firstVersionAt r version address = version) :
    r.deploymentAt? address = some i := by
  have hbefore : (r.impls.takeWhile (·.1 != version)).find? (fun e => e.2.hasAddress address) =
      none := by
    cases hfound : (r.impls.takeWhile (·.1 != version)).find? (fun e => e.2.hasAddress address) with
    | none => rfl
    | some e =>
      rw [firstVersionAt, hfound] at hfirst
      have hother := List.mem_takeWhile_imp (List.mem_of_find?_eq_some hfound)
      simp [show e.1 = version from hfirst] at hother
  rw [Records.deploymentAt?, List.find?_map]
  exact congrArg (Option.map (·.2)) (find?_of_lookup (p := (·.hasAddress address)) h hi hbefore)

end UpgradeSafety.Manifest
