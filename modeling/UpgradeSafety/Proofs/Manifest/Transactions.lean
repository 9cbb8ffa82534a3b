import UpgradeSafety.Proofs.Manifest.Proper

/-!
# Runs on a store that is ready

When nothing is in the way of the lock and of the file of a store (`Store.Ready`), a run succeeds
whenever its body does and the records that it leaves can be written. It then leaves the files as
they are, or writes the file of the store once, when the body is done (`Store.run_withRecords`).

Unlike what is known of a run from its success, this predicts it, so that nothing has to be
evaluated to have a run that succeeds. The condition speaks of the folders and of what stands in
them: whoever has the folder can write every content, and having written one leaves the store as
ready as before (`Ready.rewritten`). A workspace without files is ready once the folder is made
(`ready_of_empty`).

A body is described by the workspace in which it starts and the one in which it ends, which differ
in the records in hand, the log and what lies outside (`underway`). What the store holds after the
run then follows from the records, and the store is ready again (`Transacted.held`).
-/

namespace UpgradeSafety.Manifest

open Files Stateful Json

namespace Store

variable {σ α : Type} {s : Store} {w w₂ : Workspace σ} {t t' : Tree}

/-! ## Stores that are ready -/

/-- Nothing is in the way of a store: the folder of its lock is there, its lock is no folder, its
file can be written, and no file has the numbered name. -/
structure Ready (s : Store) (t : Tree) : Prop where
  sound : t.Sound
  lockFolder : t.makeFolder s.lockFile.parent = .ok t
  file : ∃ t₁, t.makeFolder s.file.parent = .ok t₁ ∧ t₁.isFolder s.lockFile = false ∧
    ∀ content, ∃ t₂, t₁.write s.file content = .ok t₂
  lock : t.isFolder s.lockFile = false
  name : ∃ name, s.file = s.file.parent.child name ∧ name ≠ ".."
  numbered : s.development = none → s.site.numberedFile ≠ s.site.file →
    t.has s.site.numberedFile = false

/-- In a workspace without files and folders, a store of a network is ready as soon as its folder is
made, and holds nothing. -/
theorem ready_of_empty (hdev : s.development = none) (hdown : ".." ∉ s.site.folder.parts) :
    ∃ t, ({} : Tree).makeFolder s.lockFile.parent = .ok t ∧ Ready s t ∧
      s.held t = .ok ({}, false) := by
  have hlockFile : s.lockFile = s.site.folder.child ("chain-" ++ toString s.site.chainId ++ ".lock") := by
    rw [lockFile, hdev]
  have hparent := parent_lockFile hdev
  have hfileParent : s.file.parent = s.site.folder := by rw [parent_file hdev, hparent]
  obtain ⟨t, hmake, hfiles, hchild⟩ := Tree.makeFolder_empty hdown
  have hself : t.makeFolder s.site.folder = .ok t := Tree.makeFoldersFrom_eq_self hmake (.refl t)
  have hfolderless : ∀ name : String, 2 < name.length →
      t.isFolder (s.site.folder.child name) = false := by
    intro name hname
    obtain ⟨q, hq, hnone, -⟩ := hchild name hname
    rw [Tree.isFolder, hq, Option.any_some, hnone]
  have hjson : ∀ name : String, 2 < (name ++ ".json").length := by
    intro name
    rw [String.length_append]
    exact Nat.lt_of_lt_of_le (by decide) (Nat.le_add_left ".json".length _)
  have hlock : t.isFolder s.lockFile = false := by
    rw [hlockFile]
    refine hfolderless _ ?_
    rw [String.length_append]
    exact Nat.lt_of_lt_of_le (by decide) (Nat.le_add_left ".lock".length _)
  have hhas : ∀ name : String, t.has (s.site.folder.child (name ++ ".json")) = false := fun name =>
    Tree.has_of_files_nil hfiles (hfolderless _ (hjson name))
  refine ⟨t, by rw [hparent, hmake], ⟨Tree.sound_empty.makeFoldersFrom hmake, by rw [hparent, hself],
    ?_, hlock, ⟨networkName s.site.chainId ++ ".json", ?_, ending_ne_up _⟩, fun _ _ => hhas _⟩, ?_⟩
  · refine ⟨t, by rw [hfileParent, hself], hlock, fun content => ?_⟩
    obtain ⟨q, hq, hnone, hup⟩ := hchild _ (hjson (networkName s.site.chainId))
    refine ⟨t.put q content, Tree.write_eq_ok_iff.mpr ⟨q, ?_, hnone, hup, rfl⟩⟩
    rw [file_of_development_none hdev, Site.file, hq]
  · rw [hfileParent, file_of_development_none hdev, Site.file]
  · have hcurrent : s.currentFile? t = .ok none := by
      unfold currentFile? developmentFile?
      rw [hdev]
      simp only [Option.map_none, Site.currentFile?, Site.numberedFile, Site.file, hhas,
        Bool.and_false, Bool.false_eq_true, if_false]
    rw [held, hcurrent]

/-- The files of a store that is ready after a text was written into its file. -/
def Rewritten (s : Store) (t : Tree) (text : String) (t' : Tree) : Prop :=
  ∃ t₁, t.makeFolder s.file.parent = .ok t₁ ∧ t₁.write s.file (Text.utf8Bytes text) = .ok t'

theorem Ready.rewrite (h : Ready s t) (text : String) : ∃ t', Rewritten s t text t' := by
  obtain ⟨t₁, hmake, -, hwrite⟩ := h.file
  obtain ⟨t', ht'⟩ := hwrite (Text.utf8Bytes text)
  exact ⟨t', t₁, hmake, ht'⟩

/-- No file has the numbered name after the file of a store was written. -/
theorem Rewritten.numbered {text : String} (h : Rewritten s t text t') (hready : Ready s t)
    (hdev : s.development = none) (hne : s.site.numberedFile ≠ s.site.file) :
    t'.has s.site.numberedFile = false := by
  obtain ⟨t₁, hmake, hwrite⟩ := h
  rw [parent_file hdev] at hmake
  obtain rfl : t = t₁ := Except.ok.inj (hready.lockFolder.symm.trans hmake)
  rw [file_of_development_none hdev] at hwrite
  obtain ⟨hfolders, hcontent⟩ := Tree.write_child_other (ending_ne_up _) (ending_ne_up _)
    (site_names_ne hne) hwrite
  exact (Tree.has_congr hfolders.symm hcontent).symm.trans (hready.numbered hdev hne)

theorem Ready.rewritten {text : String} (h : Ready s t) (hwritten : Rewritten s t text t') :
    Ready s t' := by
  obtain ⟨t₁, hmake, hwrite⟩ := hwritten
  have hnumbered := Rewritten.numbered ⟨t₁, hmake, hwrite⟩ h
  obtain ⟨t₂, hmake₂, hlock, hwritable⟩ := h.file
  cases hmake.symm.trans hmake₂
  obtain ⟨q, hq, hfolder, hparent, rfl⟩ := Tree.write_eq_ok_iff.mp hwrite
  have hfolders := Tree.put_folders t₁ q (Text.utf8Bytes text)
  have hin := Tree.foldersIn_of_eq hfolders.symm
  have hlock' : (t₁.put q (Text.utf8Bytes text)).isFolder s.lockFile = false := by
    rw [Tree.isFolder_congr hfolders, hlock]
  refine ⟨(h.sound.makeFoldersFrom hmake).write hwrite, ?_, ⟨_, ?_, hlock', fun content => ?_⟩,
    hlock', h.name, hnumbered⟩
  · exact Tree.makeFoldersFrom_eq_self h.lockFolder ((Tree.makeFoldersFrom_eq_ok hmake).2.trans hin)
  · exact Tree.makeFoldersFrom_eq_self hmake hin
  · refine ⟨_, Tree.write_eq_ok_iff.mpr ⟨q, ?_, ?_, ?_, rfl⟩⟩
    · rw [Tree.place?_congr hfolders, hq]
    · rw [Tree.isFolderAt_congr hfolders, hfolder]
    · rw [Tree.isFolderAt_congr hfolders, hparent]

/-- Records that can be written are saved. -/
theorem run_save {records : Records} {text : String} (h : Ready s w.files)
    (htext : fileText records = .ok text) :
    ∃ t', Rewritten s w.files text t' ∧
      (s.save records : Act σ Unit).run.run w = (.ok (), { w with files := t' }) := by
  obtain ⟨t', t₁, hmake, hwrite⟩ := h.rewrite text
  obtain ⟨name, hname, hup⟩ := h.name
  have hnumbered : (s.development.isNone && s.site.numberedFile != s.site.file &&
      t'.has s.site.numberedFile) = false := by
    by_contra hcond
    simp only [Bool.not_eq_false, Bool.and_eq_true, Option.isNone_iff_eq_none, bne_iff_ne] at hcond
    obtain ⟨⟨hdev, hne⟩, hhas⟩ := hcond
    rw [Rewritten.numbered ⟨t₁, hmake, hwrite⟩ h hdev hne] at hhas
    cases hhas
  refine ⟨t', ⟨t₁, hmake, hwrite⟩, ?_⟩
  unfold save
  rw [run_bind, Act.run_onFiles, hmake]
  dsimp only
  rw [run_bind, Act.run_ofResult, htext]
  dsimp only
  rw [run_bind, Act.run_replaceFile hname hup hwrite]
  dsimp only
  rw [run_bind_of_ok run_get, if_neg (by simp only [hnumbered]; decide)]
  rfl

/-- What was written is what the store then holds. -/
theorem held_of_rewritten {records : Records} {text : String} (h : Ready s t)
    (htext : fileText records = .ok text) (hwritten : Rewritten s t text t')
    (hrecords : records.Sound) (hwritable : records.isWritable = true) :
    s.held t' = .ok (records.stored, false) := by
  obtain ⟨t₁, hmake, hwrite⟩ := hwritten
  refine held_of_saved ⟨text, t₁, t', htext, hmake, hwrite, ?_⟩ h.sound hrecords hwritable
  rw [if_neg]
  simp only [Bool.and_eq_true, Option.isNone_iff_eq_none, bne_iff_ne, not_and, and_imp]
  intro hdev hne hhas
  rw [Rewritten.numbered ⟨t₁, hmake, hwrite⟩ h hdev hne] at hhas
  cases hhas

/-! ## Runs -/

/-- A workspace in which a run of a store has ended: the draft is given up, and the lock. -/
def closed (s : Store) (w : Workspace σ) : Workspace σ :=
  { w with
    drafts := w.drafts.filter fun (k, _) => k != s.session
    locks := w.locks.erase s.lockFile }

theorem run_acquire (hmake : w.files.makeFolder s.lockFile.parent = .ok t)
    (hfree : s.lockFile ∉ w.locks) (hlock : t.isFolder s.lockFile = false) :
    (s.acquire : Act σ Unit).run.run w =
      (.ok (), { w with files := t, locks := s.lockFile :: w.locks }) := by
  unfold acquire
  rw [run_bind, Act.run_onFiles, hmake]
  dsimp only
  rw [run_bind_of_ok run_get, if_neg (by simpa using hfree), if_neg (by simp [hlock]), run_set]

/-- What a run does once it has the records in hand. -/
def conclude (s : Store) (stale : Bool) (before : Json) (body : Handle → Act σ α) : Act σ α := do
  let result ← body ⟨s.session, 0⟩
  let final ← s.current
  let after ← Act.ofResult final.encode
  if stale || !after.same before then s.save final
  return result

/-- A run of a store that holds records that can be written. -/
theorem run_withRecords_opened (body : Handle → Act σ α) {r : Records} {stale : Bool}
    (hsession : w.drafts.lookup s.session = none)
    (hmake : w.files.makeFolder s.lockFile.parent = .ok t) (hfree : s.lockFile ∉ w.locks)
    (hlock : t.isFolder s.lockFile = false) (hheld : s.held t = .ok (r, stale))
    (hwritable : r.isWritable = true) : ∃ notes, (s.withRecords body).run.run w =
      (((s.conclude stale r.toJson body).run.run (s.opened t r notes w)).1,
        s.closed ((s.conclude stale r.toJson body).run.run (s.opened t r notes w)).2) := by
  obtain ⟨notes, hload⟩ := run_load s { w with files := t, locks := s.lockFile :: w.locks }
  refine ⟨notes, ?_⟩
  have hencode : r.encode = .ok r.toJson := by rw [Records.encode, written, if_pos hwritable]
  have hrun : (s.runOnFile body).run.run { w with files := t, locks := s.lockFile :: w.locks } =
      (s.conclude stale r.toJson body).run.run (s.opened t r notes w) := by
    unfold runOnFile
    rw [run_bind, hload, hheld]
    dsimp only
    rw [run_bind, Act.run_ofResult, hencode]
    dsimp only
    rw [run_bind_of_ok (run_modify _)]
    rfl
  unfold withRecords
  rw [run_bind_of_ok run_currentHandle?, hsession]
  dsimp only [Option.map_none]
  rw [run_bind_of_ok (run_acquire hmake hfree hlock), Act.run_andThenAlways, hrun]
  rfl

/-- A workspace during a run of a store that leaves the records `r` in hand. -/
def underway (s : Store) (t : Tree) (r : Records) (log : List Log.Record) (outside : σ)
    (w : Workspace σ) : Workspace σ where
  files := t
  locks := s.lockFile :: w.locks
  drafts := (s.session, ⟨[r], 0⟩) :: w.drafts
  log := log
  outside := outside

/-- What a run does to the files: nothing if it fails or changes nothing, and otherwise one writing of
the file of the store. -/
def Transacted (s : Store) (t : Tree) (r r' : Records) (succeeded : Bool) (t' : Tree) : Prop :=
  if succeeded = true ∧ r'.toJson.same r.toJson = false then
    ∃ text, fileText r' = .ok text ∧ Rewritten s t text t'
  else t' = t

theorem closed_underway {r : Records} {log : List Log.Record} {outside : σ}
    (hsession : w.drafts.lookup s.session = none) :
    s.closed (s.underway t r log outside w) =
      { w with files := t, log := log, outside := outside } := by
  unfold closed underway
  rw [filter_drafts_cons hsession, List.erase_cons_head]

/-- A run of a store that is ready and whose file is up to date, by what its body does to the records
in hand. -/
theorem run_withRecords {body : Handle → Act σ α} {r r' : Records} {result : Except Failure α}
    {outside : σ} (hsession : w.drafts.lookup s.session = none)
    (hmake : w.files.makeFolder s.lockFile.parent = .ok t) (hfree : s.lockFile ∉ w.locks)
    (hready : Ready s t) (hheld : s.held t = .ok (r, false)) (hr : r.isWritable = true)
    (hr' : r'.isWritable = true) (htext : ∃ text, fileText r' = .ok text)
    (hbody : ∀ notes, ∃ log, (body ⟨s.session, 0⟩).run.run (s.opened t r notes w) =
      (result, s.underway t r' log outside w)) :
    ∃ log t', (s.withRecords body).run.run w =
        (result, { w with files := t', log := log, outside := outside }) ∧
      Transacted s t r r' result.isOk t' := by
  obtain ⟨notes, hrun⟩ := run_withRecords_opened body hsession hmake hfree hready.lock hheld hr
  obtain ⟨log, hlog⟩ := hbody notes
  rw [hrun]
  unfold conclude Transacted
  cases result with
  | error e =>
    refine ⟨log, t, ?_, ?_⟩
    · rw [run_bind_of_error hlog, closed_underway hsession]
    · rw [if_neg (by simp [Except.isOk, Except.toBool])]
  | ok a =>
    have hcurrent : (s.current : Act σ Records).run.run (s.underway t r' log outside w) =
        (.ok r', s.underway t r' log outside w) := by
      rw [run_current (d := ⟨[r'], 0⟩) (List.lookup_cons_self)]
      rfl
    have hencode : r'.encode = .ok r'.toJson := by rw [Records.encode, written, if_pos hr']
    rw [run_bind_of_ok hlog, run_bind_of_ok hcurrent, run_bind, Act.run_ofResult, hencode]
    dsimp only
    by_cases hsame : r'.toJson.same r.toJson = true
    · refine ⟨log, t, ?_, ?_⟩
      · rw [if_neg (by simp [hsame]), run_pure, closed_underway hsession]
      · rw [if_neg (by simp [hsame])]
    · obtain ⟨text, htext⟩ := htext
      obtain ⟨t', hwritten, hsave⟩ := run_save (w := s.underway t r' log outside w) hready htext
      refine ⟨log, t', ?_, ?_⟩
      · rw [if_pos (by simp [hsame]), run_bind_of_ok hsave, run_pure]
        exact Prod.ext rfl (closed_underway hsession)
      · rw [if_pos ⟨rfl, by simpa using hsame⟩]
        exact ⟨text, htext, hwritten⟩

/-- After a run a store is as ready as before it, and holds what the run left: what it held before if
that means the same, and otherwise the records as they are read back. -/
theorem Transacted.held {r r' : Records} {succeeded : Bool}
    (h : Transacted s t r r' succeeded t') (hready : Ready s t) (hheld : s.held t = .ok (r, false))
    (hr : r.Proper) (hr' : r'.Proper) :
    Ready s t' ∧ ∃ r'', s.held t' = .ok (r'', false) ∧ r''.Proper ∧
      if succeeded = true ∧ r'.toJson.same r.toJson = false then r'' = r'.stored else r'' = r := by
  unfold Transacted at h
  split at h
  · rename_i hcond
    obtain ⟨text, htext, hwritten⟩ := h
    refine ⟨hready.rewritten hwritten, r'.stored,
      held_of_rewritten hready htext hwritten hr'.sound hr'.isWritable, hr'.stored, ?_⟩
    rw [if_pos hcond]
  · rename_i hcond
    subst h
    exact ⟨hready, r, hheld, hr, by rw [if_neg hcond]⟩

theorem opened_eq_underway (r : Records) (notes : List Log.Record) :
    s.opened t r notes w = s.underway t r (w.log ++ notes) w.outside w := rfl

/-- A change of the records in hand. -/
theorem run_change_underway {r : Records} {log : List Log.Record} {outside : σ}
    (hsession : w.drafts.lookup s.session = none) (f : Records → Records) :
    (change ⟨s.session, 0⟩ f).run.run (s.underway t r log outside w) =
      (.ok (), s.underway t (f r) log outside w) := by
  have hothers : (w.drafts.map fun e => (e.1,
      if e.1 = s.session then (⟨e.2.sets.modify 0 f, e.2.current⟩ : Draft) else e.2)) = w.drafts :=
    map_drafts_of_lookup_eq_none (fun d => ⟨d.sets.modify 0 f, d.current⟩) hsession
  rw [change, run_onDraft]
  simp only [underway, List.map_cons, if_true]
  rw [hothers]
  rfl

/-- A change of the records of a store that is ready. -/
theorem run_update {f : Records → Records} {r : Records}
    (hsession : w.drafts.lookup s.session = none)
    (hmake : w.files.makeFolder s.lockFile.parent = .ok t) (hfree : s.lockFile ∉ w.locks)
    (hready : Ready s t) (hheld : s.held t = .ok (r, false)) (hr : r.Proper) (hf : (f r).Proper) :
    ∃ log t', (s.update f : Act σ Unit).run.run w = (.ok (), { w with files := t', log := log }) ∧
      Transacted s t r (f r) true t' :=
  run_withRecords hsession hmake hfree hready hheld hr.isWritable hf.isWritable hf.exists_fileText
    fun _ => ⟨_, run_change_underway hsession f⟩

/-- A change of the records of a store that is ready, told afterwards. -/
theorem run_told {f : Records → Records} {r : Records}
    (hsession : w.drafts.lookup s.session = none)
    (hmake : w.files.makeFolder s.lockFile.parent = .ok t) (hfree : s.lockFile ∉ w.locks)
    (hready : Ready s t) (hheld : s.held t = .ok (r, false)) (hr : r.Proper) (hf : (f r).Proper)
    (notes : List Log.Record) :
    ∃ log t', (do s.update f; Act.tell notes : Act σ Unit).run.run w =
        (.ok (), { w with files := t', log := log }) ∧ Transacted s t r (f r) true t' := by
  obtain ⟨log, t', hupdate, htransacted⟩ := run_update hsession hmake hfree hready hheld hr hf
  exact ⟨log ++ notes, t', run_bind_of_ok hupdate, htransacted⟩

end Store

end UpgradeSafety.Manifest
