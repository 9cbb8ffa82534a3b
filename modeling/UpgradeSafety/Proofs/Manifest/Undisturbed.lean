import UpgradeSafety.Proofs.Manifest.Clients

/-!
# Stores that do not disturb each other

Two stores of different networks or development instances have no file and no lock in common. Two
workspaces agree for a store (`Store.Agree`) if it sees the same in both; what it does then ends
the same and leaves workspaces that agree (`Store.Uses.steady`). What another store does leaves a
workspace that agrees with the one before (`Store.Agree.of_spared`). So a store never notices what
the other one does, unless it has no file yet and forks the network of the other one
(`Store.undisturbed`).

A store sees its own files, and those of the network that it forks as long as it needs them. The
agreement is that of a view of the files, with the lock and the draft of the store beside it; logs
may differ, and what lies outside is the same. It is shown of every basic operation that it ends
alike and keeps the agreement, whether it succeeds or fails, and binding, recovering and a run with
its lock are put together from these. The last two results stand in the module on networks side by
side.
-/

namespace UpgradeSafety.Manifest

open Files Stateful

variable {σ α β : Type} {s x y : Store} {files : List Path} {w w' u u' : Workspace σ} {q : Place}

namespace Store

/-! ## What a store sees -/

/-- The files that a store writes, removes or locks. -/
def ownFiles (s : Store) : List Path :=
  s.file :: s.lockFile :: if s.development.isNone then [s.site.numberedFile] else []

/-- The files of the network that a store forks. -/
def parentFiles (s : Store) : List Path :=
  s.parent?.toList.flatMap fun site => [site.file, site.numberedFile]

/-- The folders of a store: that of the networks, and that of the development chains if it is one. -/
def folders (s : Store) : List Path := [s.site.folder, s.folder]

/-- A store sees files: its own ones are among them, and none is on the way to its folders. -/
structure Watches (s : Store) (files : List Path) : Prop where
  own : ∀ p ∈ s.ownFiles, p ∈ files
  clear : View.Clear ⟨s.folders, files⟩

/-- Two workspaces agree for a store that sees some files: those look alike, and so do the lock of the
store and its draft. Without the files of the network that it forks it needs a file of its own. -/
structure Agree (s : Store) (files : List Path) (w u : Workspace σ) : Prop where
  trees : View.Alike ⟨s.folders, files⟩ w.files u.files
  fork : ∀ site ∈ s.parent?,
    (site.file ∈ files ∧ site.numberedFile ∈ files) ∨ w.files.has s.file = true
  outside : w.outside = u.outside
  locks : w.locks.count s.lockFile = u.locks.count s.lockFile
  draft : w.drafts.lookup s.session = u.drafts.lookup s.session

namespace Watches

variable (hs : s.Watches files)

include hs

theorem file : s.file ∈ files := hs.own _ List.mem_cons_self

theorem lockFile : s.lockFile ∈ files := hs.own _ (List.mem_cons_of_mem _ List.mem_cons_self)

theorem numberedFile (hdev : s.development = none) : s.site.numberedFile ∈ files := by
  refine hs.own _ (List.mem_cons_of_mem _ (List.mem_cons_of_mem _ ?_))
  rw [hdev]
  exact List.mem_cons_self

end Watches

theorem folder_mem_folders (s : Store) : s.folder ∈ s.folders := List.mem_cons_of_mem _ List.mem_cons_self

/-! ## Reading -/

/-- Two trees that look alike have the same file of a network. -/
theorem site_currentFile?_eq {v : View} {t t' : Tree} {site : Site} (h : v.Alike t t') (hv : v.Clear)
    (hfile : site.file ∈ v.files) (hnumbered : site.numberedFile ∈ v.files) :
    site.currentFile? t = site.currentFile? t' ∧ ∀ p, site.currentFile? t = .ok (some p) → p ∈ v.files := by
  unfold Site.currentFile?
  rw [h.has_eq hv hfile, h.has_eq hv hnumbered]
  refine ⟨rfl, fun p hp => ?_⟩
  split at hp
  · split at hp
    · cases hp
    · cases hp
      exact hnumbered
  · split at hp
    · cases hp
      exact hfile
    · cases hp

theorem Agree.currentFile?_eq (h : s.Agree files w u) (hs : s.Watches files) :
    s.currentFile? w.files = s.currentFile? u.files ∧
      ∀ p, s.currentFile? w.files = .ok (some p) → p ∈ files := by
  have hhas := h.trees.has_eq hs.clear hs.file
  cases hdev : s.development with
  | none =>
    have hnone : s.developmentFile? = none := by rw [developmentFile?, hdev]; rfl
    have hfile : s.site.file ∈ files := by
      rw [← file_of_development_none hdev]
      exact hs.file
    unfold currentFile?
    rw [hnone]
    exact site_currentFile?_eq h.trees hs.clear hfile (hs.numberedFile hdev)
  | some i =>
    obtain ⟨file, hsome⟩ : ∃ file, s.developmentFile? = some file := by
      rw [developmentFile?, hdev]
      exact ⟨_, rfl⟩
    have hfile : s.file = file := by rw [Store.file, hsome, Option.getD_some]
    have hmem := hs.file
    rw [hfile] at hhas hmem
    unfold currentFile?
    rw [hsome]
    dsimp only
    rw [← hhas]
    split
    · refine ⟨rfl, fun p hp => ?_⟩
      cases hp
      exact hmem
    · rename_i hnone
      cases hparent : s.parent? with
      | none => exact ⟨rfl, fun p hp => by cases hp⟩
      | some site =>
        rcases h.fork site hparent with ⟨hsite, hnumbered⟩ | hhas
        · exact site_currentFile?_eq h.trees hs.clear hsite hnumbered
        · rw [hfile] at hhas
          exact absurd hhas hnone

theorem Agree.held_eq (h : s.Agree files w u) (hs : s.Watches files) :
    s.held w.files = s.held u.files := by
  obtain ⟨hcurrent, hmem⟩ := h.currentFile?_eq hs
  unfold held
  rw [← hcurrent]
  cases hfile : s.currentFile? w.files with
  | error e => rfl
  | ok file? =>
    cases file? with
    | none => rfl
    | some file =>
      have hread := h.trees.read_eq hs.clear (hmem file hfile)
      dsimp only
      unfold Tree.readJson
      rw [hread]

/-! ## Doing the same in both workspaces -/

/-- A program ends the same in two workspaces and leaves workspaces that agree. -/
def EndsAlike (s : Store) (files : List Path) (x : Act σ α) (w u : Workspace σ) : Prop :=
  (x.run.run w).1 = (x.run.run u).1 ∧ s.Agree files (x.run.run w).2 (x.run.run u).2

/-- A program ends alike in all workspaces that agree. -/
def Steady (s : Store) (files : List Path) (x : Act σ α) : Prop :=
  ∀ w u, s.Agree files w u → s.EndsAlike files x w u

theorem EndsAlike.bind {x : Act σ α} {f : α → Act σ β} (hx : s.EndsAlike files x w u)
    (hf : ∀ a w₁ u₁, x.run.run w = (.ok a, w₁) → x.run.run u = (.ok a, u₁) → s.Agree files w₁ u₁ →
      s.EndsAlike files (f a) w₁ u₁) : s.EndsAlike files (x >>= f) w u := by
  obtain ⟨hresult, hagree⟩ := hx
  unfold EndsAlike
  rw [run_bind, run_bind]
  rcases hw : x.run.run w with ⟨r, w₁⟩
  rcases hu : x.run.run u with ⟨r', u₁⟩
  rw [hw, hu] at hresult hagree
  obtain rfl : r = r' := hresult
  cases r with
  | error e => exact ⟨rfl, hagree⟩
  | ok a => exact hf a w₁ u₁ hw hu hagree

namespace Steady

theorem bind {x : Act σ α} {f : α → Act σ β} (hx : s.Steady files x)
    (hf : ∀ a, s.Steady files (f a)) : s.Steady files (x >>= f) :=
  fun w u h => (hx w u h).bind fun a w₁ u₁ _ _ => hf a w₁ u₁

theorem recover {x : Act σ α} {handle : Failure → Act σ α} (hx : s.Steady files x)
    (hhandle : ∀ e, s.Steady files (handle e)) : s.Steady files (tryCatch x handle) := by
  intro w u h
  obtain ⟨hresult, hagree⟩ := hx w u h
  unfold EndsAlike
  rw [run_tryCatch, run_tryCatch]
  rcases hw : x.run.run w with ⟨r, w₁⟩
  rcases hu : x.run.run u with ⟨r', u₁⟩
  rw [hw, hu] at hresult hagree
  obtain rfl : r = r' := hresult
  cases r with
  | error e => exact hhandle e w₁ u₁ hagree
  | ok a => exact ⟨rfl, hagree⟩

theorem pure (a : α) : s.Steady files (Pure.pure a : Act σ α) := fun _ _ h => ⟨rfl, h⟩

theorem fail (e : Failure) : s.Steady files (throw e : Act σ α) := fun _ _ h => ⟨rfl, h⟩

theorem ofResult (x : Except Failure α) : s.Steady files (Act.ofResult x : Act σ α) := by
  intro w u h
  unfold EndsAlike
  rw [Act.run_ofResult, Act.run_ofResult]
  exact ⟨rfl, h⟩

theorem tell (records : List Log.Record) : s.Steady files (Act.tell records : Act σ Unit) :=
  fun _ _ h => ⟨rfl, h.trees, h.fork, h.outside, h.locks, h.draft⟩

theorem outside (x : StateM σ α) : s.Steady files (Act.outside x) := by
  intro w u h
  unfold EndsAlike
  rw [Act.run_outside, Act.run_outside, h.outside]
  exact ⟨rfl, h.trees, h.fork, rfl, h.locks, h.draft⟩

theorem handed {k : Handle} (hk : k.session = s.session) :
    s.Steady files (Store.handed k : Act σ Records) := by
  intro w u h
  unfold EndsAlike
  rw [run_handed, run_handed, hk, h.draft]
  exact ⟨rfl, h⟩

theorem current : s.Steady files (s.current : Act σ Records) := by
  intro w u h
  unfold EndsAlike Store.current
  rw [run_bind_of_ok run_currentHandle?, run_bind_of_ok run_currentHandle?, ← h.draft]
  cases w.drafts.lookup s.session with
  | none => exact ⟨rfl, h⟩
  | some d => exact handed rfl w u h

theorem load (hs : s.Watches files) : s.Steady files (s.load : Act σ (Records × Bool)) := by
  intro w u h
  obtain ⟨notes, hload⟩ := run_load s w
  obtain ⟨notes', hload'⟩ := run_load s u
  unfold EndsAlike
  rw [hload, hload']
  exact ⟨h.held_eq hs, h.trees, h.fork, h.outside, h.locks, h.draft⟩

theorem read (hs : s.Watches files) : s.Steady files (s.read : Act σ Records) := by
  intro w u h
  unfold EndsAlike Store.read
  rw [run_bind_of_ok run_currentHandle?, run_bind_of_ok run_currentHandle?, ← h.draft]
  cases w.drafts.lookup s.session with
  | none => exact bind (load hs) (fun r => pure r.1) w u h
  | some d => exact handed rfl w u h

theorem onDraft (f : Draft → Draft) :
    s.Steady files (Store.onDraft s.session f : Act σ Unit) := by
  intro w u h
  refine ⟨rfl, h.trees, h.fork, h.outside, h.locks, ?_⟩
  rw [run_onDraft, run_onDraft]
  dsimp only
  rw [lookup_onDraft_self, lookup_onDraft_self, h.draft]

end Steady

/-- Trees that look alike take the place of trees that do. -/
theorem Agree.of_trees {t t' : Tree} (h : s.Agree files w u)
    (htrees : View.Alike ⟨s.folders, files⟩ t t')
    (hhas : s.parent?.isSome = true → w.files.has s.file = true → t.has s.file = true) :
    s.Agree files { w with files := t } { u with files := t' } where
  trees := htrees
  fork site hsite := (h.fork site hsite).imp_right (hhas (Option.isSome_of_mem hsite))
  outside := h.outside
  locks := h.locks
  draft := h.draft

namespace Steady

/-- Something that is done to both trees. -/
theorem run_onFiles {f : Tree → Except Failure Tree} (h : s.Agree files w u)
    (hsame : View.SameEnd ⟨s.folders, files⟩ (f w.files) (f u.files))
    (hhas : ∀ t, f w.files = .ok t → s.parent?.isSome = true → w.files.has s.file = true →
      t.has s.file = true) : s.EndsAlike files (Act.onFiles f : Act σ Unit) w u := by
  unfold EndsAlike
  rw [Act.run_onFiles, Act.run_onFiles]
  generalize f w.files = a at hsame hhas ⊢
  generalize f u.files = b at hsame ⊢
  cases hsame with
  | error e => exact ⟨rfl, h⟩
  | ok halike => exact ⟨rfl, h.of_trees halike (hhas _ rfl)⟩

theorem makeFolder : s.Steady files (Act.onFiles (·.makeFolder s.folder) : Act σ Unit) := by
  intro w u h
  refine run_onFiles h (h.trees.makeFolder s.folder_mem_folders) fun t ht _ hhas => ?_
  obtain ⟨hfiles, hin⟩ := Tree.makeFoldersFrom_eq_ok ht
  refine Tree.has_mono hin (fun q hq => ?_) hhas
  rwa [Tree.contentAt?, hfiles]

/-- A file is removed under the numbered name if it is there. -/
theorem removeNumbered (hs : s.Watches files) :
    s.Steady files (do
      if s.development.isNone && s.site.numberedFile != s.site.file &&
          (← get).files.has s.site.numberedFile then
        Act.onFiles (·.remove s.site.numberedFile)
        Act.tell [s.note .manifestRenamed
          ("Renamed " ++ s.site.numberedFile.text ++ " to " ++ s.site.file.text)] : Act σ Unit) := by
  intro w u h
  unfold EndsAlike
  rw [run_bind_of_ok run_get, run_bind_of_ok run_get]
  by_cases hdev : s.development = none
  · have hnumbered := hs.numberedFile hdev
    rw [h.trees.has_eq hs.clear hnumbered]
    split
    · refine bind (fun w u h => ?_) (fun _ => tell _) w u h
      refine run_onFiles h (h.trees.remove hs.clear hnumbered) fun t _ hparent _ => ?_
      rw [parent?, hdev] at hparent
      cases hparent
    · exact pure () w u h
  · have hsome : s.development.isNone = false := by
      rw [Option.isNone_eq_false_iff]
      exact Option.isSome_iff_ne_none.mpr hdev
    rw [hsome, Bool.false_and, Bool.false_and]
    exact pure () w u h

/-- The file of a store is written once its folder is there. -/
theorem replaceFile (hs : s.Watches files) (hplain : s.Plain) (h : s.Agree files w u)
    (hfolder : w.files.isFolderAt s.folder.location = true)
    (hfolder' : u.files.isFolderAt s.folder.location = true) (content : List UInt8) :
    s.EndsAlike files (Act.replaceFile s.file content : Act σ Unit) w u := by
  obtain ⟨name, hname, hfile⟩ := hplain.file
  have hup := ne_up_of_mem_fileNames hname
  have hplace : w.files.place? s.file.parent = some s.folder.location := by
    rw [hplain.parent_file]
    exact h.trees.left_reached _ s.folder_mem_folders
  have hplace' : u.files.place? s.file.parent = some s.folder.location := by
    rw [hplain.parent_file]
    exact h.trees.right_reached _ s.folder_mem_folders
  obtain ⟨t, ht⟩ := Tree.write_pathBeside_of_folder hplace hfolder content
  obtain ⟨t', ht'⟩ := Tree.write_pathBeside_of_folder hplace' hfolder' content
  unfold EndsAlike
  rw [Act.run_replaceFile_of_beside ht, Act.run_replaceFile_of_beside ht']
  refine run_onFiles h (h.trees.write hs.clear hs.file hfile hup hfolder hfolder' content) ?_
  intro t ht _ _
  obtain ⟨q, hq, hcontent⟩ := Tree.read_eq_ok_iff.mp (Tree.write_eq_ok ht).2
  exact Tree.has_of_content hq hcontent

theorem save (hs : s.Watches files) (hplain : s.Plain) (records : Records) :
    s.Steady files (s.save records : Act σ Unit) := by
  intro w u h
  unfold Store.save
  rw [hplain.parent_file]
  refine (makeFolder w u h).bind fun _ w₁ u₁ hw hu hagree => ?_
  obtain ⟨t, hmake, rfl⟩ := Act.run_onFiles_eq_ok_iff.mp hw
  obtain ⟨t', hmake', rfl⟩ := Act.run_onFiles_eq_ok_iff.mp hu
  refine (ofResult (fileText records) _ _ hagree).bind fun text w₂ u₂ hw hu hagree => ?_
  obtain ⟨-, rfl⟩ := Prod.mk.inj ((Act.run_ofResult _).symm.trans hw)
  obtain ⟨-, rfl⟩ := Prod.mk.inj ((Act.run_ofResult _).symm.trans hu)
  refine (replaceFile hs hplain hagree (Tree.place?_of_makeFolder hmake).2
    (Tree.place?_of_makeFolder hmake').2 (Text.utf8Bytes text)).bind fun _ w₃ u₃ _ _ hagree => ?_
  exact removeNumbered hs w₃ u₃ hagree

theorem contains_eq {locks locks' : List Path} {p : Path} (h : locks.count p = locks'.count p) :
    locks.contains p = locks'.contains p := by
  rw [Bool.eq_iff_iff, List.contains_iff_mem, List.contains_iff_mem, ← List.count_pos_iff,
    ← List.count_pos_iff, h]

theorem acquire (hs : s.Watches files) (hplain : s.Plain) :
    s.Steady files (s.acquire : Act σ Unit) := by
  unfold Store.acquire
  rw [hplain.parent_lockFile]
  refine bind makeFolder fun _ w u h => ?_
  unfold EndsAlike
  rw [run_bind_of_ok run_get, run_bind_of_ok run_get, contains_eq h.locks,
    h.trees.isFolder_eq hs.clear hs.lockFile]
  split
  · exact bind (tell _) (fun _ => fail _) w u h
  · split
    · exact ⟨rfl, h⟩
    · refine ⟨rfl, h.trees, h.fork, h.outside, ?_, h.draft⟩
      rw [run_set, run_set]
      dsimp only
      rw [List.count_cons_self, List.count_cons_self, h.locks]

theorem runOnFile (hs : s.Watches files) (hplain : s.Plain) {body : Handle → Act σ α}
    (hbody : s.Steady files (body ⟨s.session, 0⟩)) : s.Steady files (s.runOnFile body) := by
  unfold Store.runOnFile
  refine bind (load hs) fun r => bind (ofResult _) fun before => bind (fun w u h => ?_) fun _ =>
    bind hbody fun a => bind current fun final => bind (ofResult _) fun after => ?_
  · refine ⟨rfl, h.trees, h.fork, h.outside, h.locks, ?_⟩
    rw [run_modify, run_modify]
    dsimp only
    rw [List.lookup_cons_self, List.lookup_cons_self]
  · split
    · exact bind (save hs hplain _) fun _ => pure a
    · exact pure a

theorem withRecords (hs : s.Watches files) (hplain : s.Plain) {body : Handle → Act σ α}
    (hbody : ∀ h, h.session = s.session → s.Steady files (body h)) :
    s.Steady files (s.withRecords body) := by
  intro w u h
  unfold EndsAlike Store.withRecords
  rw [run_bind_of_ok run_currentHandle?, run_bind_of_ok run_currentHandle?, ← h.draft]
  cases w.drafts.lookup s.session with
  | some d => exact hbody _ rfl w u h
  | none =>
    refine bind (acquire hs hplain) (fun _ w u h => ?_) w u h
    obtain ⟨hresult, hagree⟩ := runOnFile hs hplain (hbody _ rfl) w u h
    unfold EndsAlike
    rw [Act.run_andThenAlways, Act.run_andThenAlways]
    refine ⟨hresult, hagree.trees, hagree.fork, hagree.outside, ?_, ?_⟩
    · dsimp only
      rw [List.count_erase_self, List.count_erase_self, hagree.locks]
    · dsimp only
      rw [lookup_filter_self, lookup_filter_self]

end Steady

/-- A program that uses one store ends alike in all workspaces that agree for it. -/
theorem Uses.steady (hs : s.Watches files) (hplain : s.Plain) {x : Act σ α} (hx : s.Uses x) :
    s.Steady files x := by
  induction hx with
  | pure a => exact .pure a
  | bind _ _ ihx ihf => exact .bind ihx ihf
  | fail e => exact .fail e
  | recover _ _ ihx ihhandle => exact .recover ihx ihhandle
  | tell records => exact .tell records
  | outside x => exact .outside x
  | handed hk => exact .handed hk
  | change f hk =>
    rw [Store.change, hk]
    exact .onDraft _
  | replaceCurrent records => exact .onDraft _
  | withRecords _ ih => exact .withRecords hs hplain ih
  | read => exact .read hs

end Store

end UpgradeSafety.Manifest
