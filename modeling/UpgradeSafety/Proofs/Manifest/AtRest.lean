import UpgradeSafety.Proofs.Manifest.Lasting
import UpgradeSafety.Proofs.Manifest.Transactions

/-!
# Stores at rest

Between its runs a store is at rest (`Store.AtRest`): it has no run in progress, nobody holds its
lock, and it holds records that were read back, which every store of the same place reads. A run of
a store at rest leaves it at rest and writes its file at most once (`Store.AtRest.run`), even when
the records that its body left cannot be written.

This is the invariant of everything that is said of sequences of runs. It names the records, so a
run is a step from records to records: what its body does to them in memory, or nothing if the run
fails (`kept`). It is about a place and not about a store (`Shares`), since several stores may take
turns on one file. And it asks that the records were read back, which makes them the same for all
who read them.

A body may leave records without a written form, and then the run fails; or records whose written
form has a number that is too long, and then it fails unless nothing has changed. Either way the
store holds what it held.
-/

namespace UpgradeSafety.Manifest

open Files Stateful Json

/-! ## Records that cannot be written -/

theorem isWritable_of_fieldIf {α : Type} {name : String} {f : α → Json} {o : Option α}
    (h : ∀ g ∈ fieldIf name f o, g.2.isWritable = true) : ∀ a ∈ o, (f a).isWritable = true :=
  forall_mem_fieldIf.mp h

theorem isWritable_of_tableJson {α : Type} {f : α → Json} {entries : List (String × α)}
    (h : (tableJson f entries).isWritable = true) : ∀ e ∈ entries, (f e.2).isWritable = true := by
  rw [tableJson, isWritable_obj, List.forall_mem_map] at h
  exact h

/-- Records that can be written and read again are those whose written form exists and can be
written. -/
theorem Records.proper_of_isWritable {r : Records} (h : r.Sound) (hr : r.isWritable = true)
    (hjson : r.toJson.isWritable = true) : r.Proper := by
  rw [toJson_eq, isWritable_obj] at hjson
  simp only [fields, List.forall_mem_append, List.forall_mem_cons] at hjson
  obtain ⟨-, -, himpls, hbeacons, -⟩ := hjson
  have habi : ∀ e ∈ r.impls, ∀ abi ∈ e.2.abi, (abiJson abi).isWritable = true := by
    intro e he
    have hfields := isWritable_of_tableJson himpls e he
    rw [Implementation.toJson_eq, isWritable_obj] at hfields
    simp only [Implementation.fields, List.forall_mem_append] at hfields
    exact isWritable_of_fieldIf hfields.1.1.2
  have hbeacon : ∀ e ∈ r.beacons, ∀ abi ∈ e.2.abi, (abiJson abi).isWritable = true := by
    intro e he
    have hfields := isWritable_of_tableJson hbeacons e he
    rw [Beacon.toJson, isWritable_obj] at hfields
    simp only [List.forall_mem_append] at hfields
    exact isWritable_of_fieldIf hfields.2
  refine ⟨h.version, fun e he => ⟨h.storable.impls e he, ?_, habi e he⟩, fun e he abi hmem =>
    ⟨h.storable.beacons e he abi hmem, hbeacon e he abi hmem⟩, h.storable.impls_nodup,
    h.storable.beacons_nodup⟩
  rw [isWritable, List.all_eq_true] at hr
  exact hr e he

namespace Store

variable {σ α : Type} {s s' : Store} {w w' : Workspace σ} {t t' : Tree} {r r' : Records}

/-! ## Stores of the same place -/

/-- Two stores keep their records in the same place. -/
structure Shares (s' s : Store) : Prop where
  site : s'.site = s.site
  development : s'.development = s.development

namespace Shares

theorem refl (s : Store) : Shares s s := ⟨rfl, rfl⟩

theorem symm (h : Shares s' s) : Shares s s' := ⟨h.site.symm, h.development.symm⟩

theorem trans {s'' : Store} (h : Shares s'' s') (h' : Shares s' s) : Shares s'' s :=
  ⟨h.site.trans h'.site, h.development.trans h'.development⟩

theorem file (h : Shares s' s) : s'.file = s.file := by
  unfold Store.file developmentFile? instanceName
  rw [h.site, h.development]

theorem lockFile (h : Shares s' s) : s'.lockFile = s.lockFile := by
  unfold Store.lockFile instanceName
  rw [h.site, h.development]

theorem ready (h : Shares s' s) (ht : Ready s t) : Ready s' t := by
  refine ⟨ht.sound, ?_, ?_, ?_, ?_, ?_⟩
  · rw [h.lockFile]
    exact ht.lockFolder
  · rw [h.file, h.lockFile]
    exact ht.file
  · rw [h.lockFile]
    exact ht.lock
  · rw [h.file]
    exact ht.name
  · rw [h.development, h.site]
    exact ht.numbered

theorem transacted (h : Shares s' s) {succeeded : Bool} (ht : Transacted s t r r' succeeded t') :
    Transacted s' t r r' succeeded t' := by
  unfold Transacted Rewritten at *
  rwa [h.file]

end Shares

/-! ## What a store holds -/

/-- A store holds records: its folders are made, and every store of its place reads the records, which
were read back before. -/
structure Holds (s : Store) (t : Tree) (r : Records) : Prop where
  ready : Ready s t
  folder : t.makeFolder s.file.parent = .ok t
  held : ∀ s', Shares s' s → s'.held t = .ok (r, false)
  proper : r.Proper
  stored : r.stored = r

theorem Holds.of_shares (h : s.Holds t r) (hshares : Shares s' s) : s'.Holds t r where
  ready := hshares.ready h.ready
  folder := by
    rw [hshares.file]
    exact h.folder
  held := fun _ hother => h.held _ (hother.trans hshares)
  proper := h.proper
  stored := h.stored

/-- What a store holds after a run that left the records `r'`: what it held before, if the run failed
or what it left means the same, and otherwise `r'` as it is read back. -/
def kept (r r' : Records) (succeeded : Bool) : Records :=
  if succeeded = true ∧ r'.toJson.same r.toJson = false then r'.stored else r

theorem Holds.transacted {succeeded : Bool} (h : s.Holds t r) (hr' : r'.Proper)
    (htransacted : Transacted s t r r' succeeded t') : s.Holds t' (kept r r' succeeded) := by
  have hheld : ∀ s', Shares s' s → s'.held t' = .ok (kept r r' succeeded, false) := by
    intro s' hshares
    obtain ⟨-, r'', hheld, -, hr''⟩ := (hshares.transacted htransacted).held
      (hshares.ready h.ready) (h.held s' hshares) h.proper hr'
    unfold kept
    split at hr'' <;> rename_i hcond
    · rw [if_pos hcond, hheld, hr'']
    · rw [if_neg hcond, hheld, hr'']
  have hfolder : t'.makeFolder s.file.parent = .ok t' := by
    unfold Transacted at htransacted
    split at htransacted
    · obtain ⟨text, -, t₁, hmake, hwrite⟩ := htransacted
      cases h.folder.symm.trans hmake
      exact Tree.makeFoldersFrom_eq_self h.folder
        (Tree.foldersIn_of_eq (Tree.write_eq_ok hwrite).1.symm)
    · exact htransacted ▸ h.folder
  refine ⟨(htransacted.held h.ready (h.held s (.refl s)) h.proper hr').1, hfolder, hheld, ?_, ?_⟩
  · unfold kept
    split
    · exact hr'.stored
    · exact h.proper
  · unfold kept
    split
    · exact r'.stored_stored
    · exact h.stored

/-! ## Between runs -/

/-- A store without a run in progress, whose lock is free, holds records. -/
structure AtRest (s : Store) (w : Workspace σ) (r : Records) : Prop where
  session : w.drafts.lookup s.session = none
  free : s.lockFile ∉ w.locks
  files : ∃ t, w.files.makeFolder s.lockFile.parent = .ok t ∧ s.Holds t r

theorem AtRest.proper (h : s.AtRest w r) : r.Proper := by
  obtain ⟨t, -, hholds⟩ := h.files
  exact hholds.proper

theorem AtRest.stored (h : s.AtRest w r) : r.stored = r := by
  obtain ⟨t, -, hholds⟩ := h.files
  exact hholds.stored

/-- A store of the same place without a run in progress is at rest, too. -/
theorem AtRest.of_shares (h : s.AtRest w r) (hshares : Shares s' s)
    (hsession : w.drafts.lookup s'.session = none) : s'.AtRest w r := by
  obtain ⟨t, hmake, hholds⟩ := h.files
  refine ⟨hsession, ?_, t, ?_, hholds.of_shares hshares⟩
  · rw [hshares.lockFile]
    exact h.free
  · rw [hshares.lockFile]
    exact hmake

theorem Holds.atRest (h : s.Holds t r) (hsession : w.drafts.lookup s.session = none)
    (hfree : s.lockFile ∉ w.locks) (log : List Log.Record) (outside : σ) :
    s.AtRest { w with files := t, log := log, outside := outside } r :=
  ⟨hsession, hfree, t, h.ready.lockFolder, h⟩

/-- A workspace between runs whose log and outside are others. -/
theorem AtRest.of_files (h : s.AtRest w r) (hfiles : w'.files = w.files) (hlocks : w'.locks = w.locks)
    (hdrafts : w'.drafts = w.drafts) : s.AtRest w' r := by
  refine ⟨?_, ?_, ?_⟩
  · rw [hdrafts]
    exact h.session
  · rw [hlocks]
    exact h.free
  · rw [hfiles]
    exact h.files

/-- What the body of a run does: it has the records `r` in hand first and `r'` last, and returns or
raises `result`. -/
def Works (s : Store) (w : Workspace σ) (body : Handle → Act σ α) (r r' : Records)
    (result : Except Failure α) (outside : σ) : Prop :=
  ∀ t notes, ∃ log, (body ⟨s.session, 0⟩).run.run (s.opened t r notes w) =
    (result, s.underway t r' log outside w)

/-- What a run does to the workspace, by the records that it has in hand first and last: once the folder
of the lock is made, the file of the store is written at most once, and the store is at rest again. -/
structure Ran (s : Store) (w w' : Workspace σ) (r r' : Records) (succeeded : Bool) : Prop where
  files : ∃ t, w.files.makeFolder s.lockFile.parent = .ok t ∧
    Transacted s t r r' succeeded w'.files
  rest : s.AtRest w' (kept r r' succeeded)
  locks : w'.locks = w.locks
  drafts : w'.drafts = w.drafts

theorem Ran.of_files {w'' : Workspace σ} {succeeded : Bool} (h : s.Ran w w' r r' succeeded)
    (hfiles : w''.files = w'.files) (hlocks : w''.locks = w'.locks)
    (hdrafts : w''.drafts = w'.drafts) : s.Ran w w'' r r' succeeded where
  files := by
    rw [hfiles]
    exact h.files
  rest := h.rest.of_files hfiles hlocks hdrafts
  locks := hlocks.trans h.locks
  drafts := hdrafts.trans h.drafts

/-- A run that leaves the files as they are, apart from the folder of the lock. -/
theorem AtRest.ran_unchanged {succeeded : Bool} {log : List Log.Record} {outside : σ}
    (h : s.AtRest w r) (hmake : w.files.makeFolder s.lockFile.parent = .ok t) (hholds : s.Holds t r)
    (hunchanged : ¬ (succeeded = true ∧ r'.toJson.same r.toJson = false)) :
    s.Ran w { w with files := t, log := log, outside := outside } r r' succeeded where
  files := ⟨t, hmake, by rw [Transacted, if_neg hunchanged]⟩
  rest := by
    rw [kept, if_neg hunchanged]
    exact hholds.atRest h.session h.free log outside
  locks := rfl
  drafts := rfl

/-- A run whose body leaves records that can be written. -/
theorem AtRest.run_proper {body : Handle → Act σ α} {result : Except Failure α} {outside : σ}
    (h : s.AtRest w r) (hbody : s.Works w body r r' result outside) (hr' : r'.Proper) :
    ∃ w', (s.withRecords body).run.run w = (result, w') ∧ w'.outside = outside ∧
      s.Ran w w' r r' result.isOk := by
  obtain ⟨t, hmake, hholds⟩ := h.files
  obtain ⟨log, t', hrun, htransacted⟩ := run_withRecords h.session hmake h.free hholds.ready
    (hholds.held s (.refl s)) hholds.proper.isWritable hr'.isWritable hr'.exists_fileText
    (hbody t)
  exact ⟨_, hrun, rfl, ⟨t, hmake, htransacted⟩,
    (hholds.transacted hr' htransacted).atRest h.session h.free log outside, rfl, rfl⟩

/-- A run ended because the records that it left cannot be written: a number of a layout or of an
interface has too many digits. -/
def Unwritten (result : Except Failure α) : Prop :=
  result = .error (.fault .unserialisable) ∨ result = .error (.badValue .digitsToWrite)

theorem Unwritten.map {β : Type} {result : Except Failure α} (h : Unwritten result) (f : α → β) :
    Unwritten (result.map f) := by
  rcases h with rfl | rfl
  · exact Or.inl rfl
  · exact Or.inr rfl

theorem run_save_unwritable (hfolder : w.files.makeFolder s.file.parent = .ok w.files)
    (hjson : r.toJson.isWritable = false) :
    (s.save r : Act σ Unit).run.run w = (.error (.badValue .digitsToWrite), w) := by
  have htext : fileText r = .error (.badValue .digitsToWrite) := by
    unfold fileText writable
    rw [if_neg (by simp [hjson])]
    rfl
  unfold save
  rw [run_bind, Act.run_onFiles, hfolder]
  dsimp only
  rw [run_bind, Act.run_ofResult, htext]

theorem run_current_underway {log : List Log.Record} {outside : σ} :
    (s.current : Act σ Records).run.run (s.underway t r log outside w) =
      (.ok r, s.underway t r log outside w) := by
  rw [run_current (d := ⟨[r], 0⟩) List.lookup_cons_self]
  rfl

/-- A run of a store at rest: what its body does, before what it left is written. -/
theorem AtRest.exists_run {body : Handle → Act σ α} {result : Except Failure α} {outside : σ}
    (h : s.AtRest w r) (hbody : s.Works w body r r' result outside) : ∃ t notes log,
    w.files.makeFolder s.lockFile.parent = .ok t ∧ s.Holds t r ∧
      (s.withRecords body).run.run w =
        (((s.conclude false r.toJson body).run.run (s.opened t r notes w)).1,
          s.closed ((s.conclude false r.toJson body).run.run (s.opened t r notes w)).2) ∧
      (body ⟨s.session, 0⟩).run.run (s.opened t r notes w) =
        (result, s.underway t r' log outside w) := by
  obtain ⟨t, hmake, hholds⟩ := h.files
  obtain ⟨notes, hrun⟩ := run_withRecords_opened body h.session hmake h.free hholds.ready.lock
    (hholds.held s (.refl s)) hholds.proper.isWritable
  obtain ⟨log, hlog⟩ := hbody t notes
  exact ⟨t, notes, log, hmake, hholds, hrun, hlog⟩

/-- A run whose body leaves records without a written form fails. -/
theorem AtRest.run_unserialisable {body : Handle → Act σ α} {a : α} {outside : σ}
    (h : s.AtRest w r) (hbody : s.Works w body r r' (.ok a) outside)
    (hunwritable : r'.isWritable = false) :
    ∃ w', (s.withRecords body).run.run w = (.error (.fault .unserialisable), w') ∧
      w'.outside = outside ∧ s.Ran w w' r r' false := by
  obtain ⟨t, notes, log, hmake, hholds, hrun, hlog⟩ := h.exists_run hbody
  rw [hrun]
  unfold conclude
  rw [run_bind_of_ok hlog, run_bind_of_ok run_current_underway, run_bind, Act.run_ofResult,
    Records.encode, written, if_neg (by simp [hunwritable])]
  dsimp only
  rw [closed_underway h.session]
  exact ⟨_, rfl, rfl, h.ran_unchanged hmake hholds (by simp)⟩

/-- A run whose body leaves records that cannot be written: it fails, unless they mean what the store
held before. -/
theorem AtRest.run_improper {body : Handle → Act σ α} {a : α} {outside : σ} (h : s.AtRest w r)
    (hbody : s.Works w body r r' (.ok a) outside) (hr' : r'.Sound) (himproper : ¬ r'.Proper) :
    ∃ w' result, (s.withRecords body).run.run w = (result, w') ∧ w'.outside = outside ∧
      (result = .ok a ∨ Unwritten result) ∧ s.Ran w w' r r' result.isOk := by
  by_cases hwritable : r'.isWritable = true
  · obtain ⟨t, notes, log, hmake, hholds, hrun, hlog⟩ := h.exists_run hbody
    rw [hrun]
    unfold conclude
    rw [run_bind_of_ok hlog, run_bind_of_ok run_current_underway, run_bind, Act.run_ofResult,
      Records.encode, written, if_pos hwritable]
    dsimp only
    by_cases hsame : r'.toJson.same r.toJson = true
    · rw [if_neg (by simp [hsame]), run_pure, closed_underway h.session]
      exact ⟨_, _, rfl, rfl, Or.inl rfl, h.ran_unchanged hmake hholds (by simp [hsame])⟩
    · have hjson : r'.toJson.isWritable = false := by
        by_contra hjson
        rw [Bool.not_eq_false] at hjson
        exact himproper (Records.proper_of_isWritable hr' hwritable hjson)
      have hsave := run_save_unwritable (w := s.underway t r' log outside w) hholds.folder hjson
      rw [if_pos (by simp [hsame]), run_bind_of_error hsave, closed_underway h.session]
      exact ⟨_, _, rfl, rfl, Or.inr (Or.inr rfl),
        h.ran_unchanged hmake hholds (by simp [Except.isOk, Except.toBool])⟩
  · obtain ⟨w', hrun, houtside, hran⟩ :=
      h.run_unserialisable hbody (Bool.eq_false_of_not_eq_true hwritable)
    exact ⟨w', _, hrun, houtside, Or.inr (Or.inl rfl), hran⟩

/-- A run whose body fails. -/
theorem AtRest.run_error {body : Handle → Act σ α} {e : Failure} {outside : σ} (h : s.AtRest w r)
    (hbody : s.Works w body r r' (.error e) outside) :
    ∃ w', (s.withRecords body).run.run w = (.error e, w') ∧ w'.outside = outside ∧
      s.Ran w w' r r' false := by
  obtain ⟨t, notes, log, hmake, hholds, hrun, hlog⟩ := h.exists_run hbody
  rw [hrun]
  unfold conclude
  rw [run_bind_of_error hlog, closed_underway h.session]
  exact ⟨_, rfl, rfl, h.ran_unchanged hmake hholds (by simp)⟩

/-- A run ends as its body does, unless it left records that cannot be written. -/
theorem AtRest.run {body : Handle → Act σ α} {result : Except Failure α} {outside : σ}
    (h : s.AtRest w r) (hbody : s.Works w body r r' result outside) (hr' : r'.Sound) :
    ∃ w' result', (s.withRecords body).run.run w = (result', w') ∧ w'.outside = outside ∧
      (result' = result ∨ (¬ r'.Proper ∧ Unwritten result')) ∧
      s.Ran w w' r r' result'.isOk := by
  by_cases hproper : r'.Proper
  · obtain ⟨w', hrun, houtside, hran⟩ := h.run_proper hbody hproper
    exact ⟨w', result, hrun, houtside, Or.inl rfl, hran⟩
  · cases result with
    | error e =>
      obtain ⟨w', hrun, houtside, hran⟩ := h.run_error hbody
      exact ⟨w', .error e, hrun, houtside, Or.inl rfl, hran⟩
    | ok a =>
      obtain ⟨w', result, hrun, houtside, hresult, hran⟩ := h.run_improper hbody hr' hproper
      exact ⟨w', result, hrun, houtside, hresult.imp_right fun he => ⟨hproper, he⟩, hran⟩

/-- A store of a network is at rest in a workspace without files. -/
theorem atRest_of_empty {w : Workspace σ} (hdev : s.development = none)
    (hdown : ".." ∉ s.site.folder.parts) (hfiles : w.files = {})
    (hsession : w.drafts.lookup s.session = none) (hfree : s.lockFile ∉ w.locks) :
    s.AtRest w {} := by
  obtain ⟨t, hmake, hready, -⟩ := ready_of_empty hdev hdown
  refine ⟨hsession, hfree, t, by rw [hfiles, hmake], hready, ?_, ?_, Records.proper_empty, rfl⟩
  · rw [parent_file hdev]
    exact hready.lockFolder
  · intro s' hshares
    have hdown' : ".." ∉ s'.site.folder.parts := by
      rw [hshares.site]
      exact hdown
    obtain ⟨t', hmake', -, hheld⟩ := ready_of_empty (hshares.development.trans hdev) hdown'
    rw [hshares.lockFile] at hmake'
    cases hmake.symm.trans hmake'
    exact hheld

end Store

end UpgradeSafety.Manifest
