import UpgradeSafety.Manifest.Reuse
import UpgradeSafety.Proofs.Files.Views
import UpgradeSafety.Proofs.Manifest.Names
import UpgradeSafety.Proofs.Manifest.Programs

/-!
# Programs that use one store

What a program may do that has one store and no other (`Store.Uses`): its operations, in runs and
outside, logging, and whatever happens outside. Whatever such a program does and however it ends,
it changes no file but those of its store, makes folders only on the way to the folder of its store
and only where nothing stands, and leaves all other locks and the drafts of all other sessions
(`Store.Uses.spares`).

The relation between the workspaces before and after (`Spared`) is reflexive and transitive, so it
is enough to show it of each basic operation; binding and recovering pass it on. A file that is
written or removed stands in the folder of the store under one of its names (`Plain.exists_name`),
which is where the instance of a development chain has to be a name and no path.

The operations of a store, with the lookup or deployment of an implementation and of the admin, are
programs of this kind by their definitions.
-/

namespace UpgradeSafety.Manifest

open Files Stateful

variable {σ α β : Type} {s : Store} {w w' : Workspace σ} {q : Place}

namespace Store

/-! ## Where the files of a store are -/

/-- The chain of a store and, if it is a development chain, its instance. -/
def owner (s : Store) : Int × Option String := (s.site.chainId, s.development.map (·.id))

/-- The folder in which a store has its file and its lock. -/
def folder (s : Store) : Path := (s.development.map (·.folder)).getD s.site.folder

/-- The instance of a store is no path. -/
def Plain (s : Store) : Prop := ∀ i ∈ s.development, '/' ∉ i.id.toList

/-- A place is that of a file which a store writes or removes. -/
def Owns (s : Store) (q : Place) : Prop :=
  q = s.file.location ∨ (s.development = none ∧ q = s.site.numberedFile.location)

theorem Plain.ids (h : s.Plain) : ∀ id ∈ s.owner.2, '/' ∉ id.toList := by
  intro id hid
  obtain ⟨i, hi, rfl⟩ := Option.map_eq_some_iff.mp hid
  exact h i hi

theorem Plain.file (h : s.Plain) : ∃ name ∈ fileNames s.owner, s.file = s.folder.child name := by
  have hids := h.ids
  unfold owner at hids ⊢
  unfold Store.file developmentFile? folder
  cases hdev : s.development with
  | none => exact ⟨_, List.mem_cons_self, rfl⟩
  | some i =>
    rw [hdev] at hids
    exact ⟨_, List.mem_cons_self, join_scope hids i.folder "dev-" ".json" (by decide)
      (by decide) (by decide)⟩

theorem Plain.lockFile (h : s.Plain) : s.lockFile = s.folder.child (lockName s.owner) := by
  have hids := h.ids
  unfold owner at hids ⊢
  unfold Store.lockFile folder
  cases hdev : s.development with
  | none => rfl
  | some i =>
    rw [hdev] at hids
    exact join_scope hids i.folder "chain-" ".lock" (by decide) (by decide) (by decide)

theorem parent_child (p : Path) (name : String) : (p.child name).parent = p := by
  simp [Path.child, Path.parent]

theorem Plain.parent_file (h : s.Plain) : s.file.parent = s.folder := by
  obtain ⟨name, -, hfile⟩ := h.file
  rw [hfile, parent_child]

theorem Plain.parent_lockFile (h : s.Plain) : s.lockFile.parent = s.folder := by
  rw [h.lockFile, parent_child]

theorem ne_up_of_mem_fileNames {o : Int × Option String} {name : String} (h : name ∈ fileNames o) :
    name ≠ ".." := by
  obtain ⟨chainId, id⟩ := o
  cases id with
  | none => rcases List.mem_pair.mp h with rfl | rfl <;> exact ending_ne_up _
  | some id => exact List.mem_singleton.mp h ▸ ending_ne_up _

theorem folder_of_development_none (h : s.development = none) : s.folder = s.site.folder := by
  rw [folder, h]
  rfl

theorem owner_of_development_none (h : s.development = none) : s.owner = (s.site.chainId, none) := by
  rw [owner, h]
  rfl

/-- The files that a store writes or removes have its names and stand in its folder. -/
theorem Plain.exists_name (hs : s.Plain) (h : s.Owns q) :
    ∃ name ∈ fileNames s.owner, q = s.folder.location ++ [name] := by
  rcases h with rfl | ⟨hdev, rfl⟩
  · obtain ⟨name, hname, hfile⟩ := hs.file
    exact ⟨name, hname, by rw [hfile, Path.location_child (ne_up_of_mem_fileNames hname)]⟩
  · refine ⟨numberedName s.site.chainId ++ ".json", ?_, ?_⟩
    · rw [owner_of_development_none hdev]
      exact List.mem_cons_of_mem _ List.mem_cons_self
    · rw [folder_of_development_none hdev, Site.numberedFile, Path.location_child (ending_ne_up _)]

/-! ## Programs -/

/-- What a program does that has one store and no other. -/
inductive Uses (s : Store) : {α : Type} → Act σ α → Prop
  | pure {α : Type} (a : α) : Uses s (Pure.pure a)
  | bind {α β : Type} {x : Act σ α} {f : α → Act σ β} :
      Uses s x → (∀ a, Uses s (f a)) → Uses s (x >>= f)
  | fail {α : Type} (e : Failure) : Uses s (throw e : Act σ α)
  | recover {α : Type} {x : Act σ α} {handle : Failure → Act σ α} :
      Uses s x → (∀ e, Uses s (handle e)) → Uses s (tryCatch x handle)
  | tell (records : List Log.Record) : Uses s (Act.tell records)
  | outside {α : Type} (x : StateM σ α) : Uses s (Act.outside x)
  | handed {h : Handle} : h.session = s.session → Uses s (Store.handed h)
  | change {h : Handle} (f : Records → Records) : h.session = s.session → Uses s (Store.change h f)
  | replaceCurrent (records : Records) : Uses s (s.replaceCurrent records)
  | withRecords {α : Type} {body : Handle → Act σ α} :
      (∀ h, h.session = s.session → Uses s (body h)) → Uses s (s.withRecords body)
  | read : Uses s s.read

namespace Uses

theorem ofResult (x : Except Failure α) : Uses s (Act.ofResult x : Act σ α) := by
  cases x with
  | ok a => exact .pure a
  | error e => exact .fail e

theorem map (f : α → β) {x : Act σ α} (h : Uses s x) : Uses s (f <$> x) := by
  rw [map_eq_pure_bind]
  exact .bind h fun a => .pure (f a)

theorem update (f : Records → Records) : Uses s (s.update f : Act σ Unit) :=
  .withRecords fun _ h => .change f h

theorem write (records : Records) : Uses s (s.write records : Act σ Unit) :=
  .withRecords fun _ _ => .replaceCurrent records

theorem find (lookup : Records → Option α) (missing : Refusal) :
    Uses s (s.find lookup missing : Act σ α) := by
  refine .withRecords fun h hh => .bind (.handed hh) fun r => ?_
  cases lookup r with
  | some a => exact .pure a
  | none => exact .fail _

theorem told (f : Records → Records) (notes : List Log.Record) :
    Uses s (do s.update f; Act.tell notes : Act σ Unit) :=
  .bind (update f) fun _ => .tell notes

theorem perform (o : Operation) : Uses s (o.perform s : Act σ Answer) := by
  cases o with
  | addProxy _ | addDeployment _ _ | addBeacon _ => exact (told _ _).map _
  | removeProxy _ | setAdmin _ => exact (update _).map _
  | proxyAt _ | deployment _ | deploymentAt _ | admin | beaconAt _ => exact (find _ _).map _

theorem reuse {δ : Type} (slot : Slot δ) (deploy : StateM σ (Except Failure δ))
    (hasCode : String → StateM σ Bool) {h : Handle} (hh : h.session = s.session) :
    Uses s (s.reuse slot deploy hasCode h) := by
  have hanew : Uses s (do
      let d ← Act.ofResult (← Act.outside deploy)
      Store.change h fun r => slot.set r (some d)
      Act.tell [s.note .deployed ("Deployed " ++ slot.description ++ " at " ++ slot.address d)]
      return d : Act σ δ) :=
    .bind (.outside _) fun _ => .bind (ofResult _) fun _ => .bind (.change _ hh) fun _ =>
      .bind (.tell _) fun _ => .pure _
  refine .bind (.handed hh) fun r => ?_
  cases slot.get r with
  | none => exact hanew
  | some known =>
    refine .bind (.outside _) fun code => ?_
    cases code with
    | true => exact .pure known
    | false => exact .bind (.tell _) fun _ => hanew

theorem reuseOrDeploy {δ : Type} (slot : Slot δ) (deploy : StateM σ (Except Failure δ))
    (hasCode : String → StateM σ Bool) : Uses s (s.reuseOrDeploy slot deploy hasCode) := by
  refine .bind (.withRecords fun h hh => reuse slot deploy hasCode hh) fun d =>
    .bind (.outside _) fun code => ?_
  cases code with
  | true => exact .pure d
  | false => exact .bind (update _) fun _ => .fail _

end Uses

/-! ## Drafts of other sessions -/

theorem lookup_onDraft_self (drafts : List (Nat × Draft)) (k : Nat) (f : Draft → Draft) :
    (drafts.map fun (l, d) => (l, if l = k then f d else d)).lookup k = (drafts.lookup k).map f := by
  induction drafts with
  | nil => rfl
  | cons e drafts ih =>
    obtain ⟨l, d⟩ := e
    rw [List.map_cons, List.lookup_cons, List.lookup_cons, ih]
    by_cases hl : k = l
    · subst hl
      simp
    · rw [beq_false_of_ne hl]

theorem lookup_onDraft_other {drafts : List (Nat × Draft)} {k l : Nat} (f : Draft → Draft) (h : k ≠ l) :
    (drafts.map fun (m, d) => (m, if m = l then f d else d)).lookup k = drafts.lookup k := by
  induction drafts with
  | nil => rfl
  | cons e drafts ih =>
    obtain ⟨m, d⟩ := e
    rw [List.map_cons, List.lookup_cons, List.lookup_cons, ih]
    by_cases hm : k = m
    · subst hm
      rw [if_neg h]
    · rw [beq_false_of_ne hm]

theorem lookup_filter_other {drafts : List (Nat × Draft)} {k l : Nat} (h : k ≠ l) :
    (drafts.filter fun (m, _) => m != l).lookup k = drafts.lookup k := by
  induction drafts with
  | nil => rfl
  | cons e drafts ih =>
    obtain ⟨m, d⟩ := e
    by_cases hm : m = l
    · rw [List.filter_cons_of_neg (by simpa using hm), ih, List.lookup_cons,
        beq_false_of_ne fun heq => h (heq.trans hm)]
    · rw [List.filter_cons_of_pos (by simpa using hm), List.lookup_cons, List.lookup_cons, ih]

theorem lookup_filter_self (drafts : List (Nat × Draft)) (k : Nat) :
    (drafts.filter fun (m, _) => m != k).lookup k = none := by
  induction drafts with
  | nil => rfl
  | cons e drafts ih =>
    obtain ⟨m, d⟩ := e
    by_cases hm : m = k
    · rw [List.filter_cons_of_neg (by simpa using hm), ih]
    · rw [List.filter_cons_of_pos (by simpa using hm), List.lookup_cons,
        beq_false_of_ne (Ne.symm hm), ih]

/-! ## What a program leaves -/

/-- What a program leaves to others: the contents of all files but those of its store, the locks and the
drafts. Folders are made on the way to the folder of the store, where nothing stands. -/
structure Spared (s : Store) (w w' : Workspace σ) : Prop where
  content : ∀ q, ¬ s.Owns q → w'.files.contentAt? q = w.files.contentAt? q
  folders : w.files.FoldersIn w'.files
  made : ∀ q, w'.files.isFolderAt q = true → w.files.isFolderAt q = true ∨
    (s.folder.OnWay q ∧ (¬ s.Owns q → w.files.contentAt? q = none))
  locks : ∀ lock ≠ s.lockFile, w'.locks.count lock = w.locks.count lock
  drafts : ∀ k ≠ s.session, w'.drafts.lookup k = w.drafts.lookup k

theorem spared_of_files (hfiles : w'.files = w.files) (hlocks : w'.locks = w.locks)
    (hdrafts : w'.drafts = w.drafts) : s.Spared w w' := by
  refine ⟨fun q _ => ?_, ?_, fun q hq => Or.inl ?_, fun lock _ => ?_, fun k _ => ?_⟩
  · rw [hfiles]
  · rw [hfiles]
    exact .refl _
  · rwa [hfiles] at hq
  · rw [hlocks]
  · rw [hdrafts]

theorem Spared.refl (s : Store) (w : Workspace σ) : s.Spared w w := spared_of_files rfl rfl rfl

theorem Spared.trans {w'' : Workspace σ} (h : s.Spared w w') (h' : s.Spared w' w'') :
    s.Spared w w'' where
  content q hq := (h'.content q hq).trans (h.content q hq)
  folders := h.folders.trans h'.folders
  made q hq := by
    rcases h'.made q hq with hfolder | ⟨hway, hnone⟩
    · exact h.made q hfolder
    · exact Or.inr ⟨hway, fun hq => (h.content q hq).symm.trans (hnone hq)⟩
  locks lock hlock := (h'.locks lock hlock).trans (h.locks lock hlock)
  drafts k hk := (h'.drafts k hk).trans (h.drafts k hk)

/-- A program spares others, wherever it starts and however it ends. -/
def Spares (s : Store) (x : Act σ α) : Prop := ∀ w, s.Spared w (x.run.run w).2

namespace Spares

theorem bind {x : Act σ α} {f : α → Act σ β} (hx : s.Spares x) (hf : ∀ a, s.Spares (f a)) :
    s.Spares (x >>= f) := by
  intro w
  have hx := hx w
  rw [run_bind]
  rcases hrun : x.run.run w with ⟨r, w₁⟩
  rw [hrun] at hx
  cases r with
  | error e => exact hx
  | ok a => exact hx.trans (hf a w₁)

theorem recover {x : Act σ α} {handle : Failure → Act σ α} (hx : s.Spares x)
    (hhandle : ∀ e, s.Spares (handle e)) : s.Spares (tryCatch x handle) := by
  intro w
  have hx := hx w
  rw [run_tryCatch]
  rcases hrun : x.run.run w with ⟨r, w₁⟩
  rw [hrun] at hx
  cases r with
  | error e => exact hx.trans (hhandle e w₁)
  | ok a => exact hx

theorem pure (a : α) : s.Spares (Pure.pure a : Act σ α) := fun w => .refl s w

theorem fail (e : Failure) : s.Spares (throw e : Act σ α) := fun w => .refl s w

theorem tell (records : List Log.Record) : s.Spares (Act.tell records : Act σ Unit) :=
  fun _ => spared_of_files rfl rfl rfl

theorem outside (x : StateM σ α) : s.Spares (Act.outside x) := fun _ => spared_of_files rfl rfl rfl

theorem ofResult (x : Except Failure α) : s.Spares (Act.ofResult x : Act σ α) := by
  intro w
  rw [Act.run_ofResult]
  exact .refl s w

theorem handed (h : Handle) : s.Spares (Store.handed h : Act σ Records) := fun w => .refl s w

theorem current : s.Spares (s.current : Act σ Records) := by
  intro w
  unfold Store.current
  rw [run_bind_of_ok run_currentHandle?]
  cases w.drafts.lookup s.session <;> exact .refl s w

theorem load : s.Spares (s.load : Act σ (Records × Bool)) := by
  intro w
  obtain ⟨notes, hload⟩ := run_load s w
  rw [hload]
  exact spared_of_files rfl rfl rfl

theorem read : s.Spares (s.read : Act σ Records) := by
  intro w
  unfold Store.read
  rw [run_bind_of_ok run_currentHandle?]
  cases w.drafts.lookup s.session with
  | some d => exact .refl s w
  | none => exact Spares.bind load (fun _ => Spares.pure _) w

/-- A draft of one's own concerns nobody else. -/
theorem onDraft (f : Draft → Draft) : s.Spares (Store.onDraft s.session f : Act σ Unit) := by
  intro w
  refine ⟨fun q _ => rfl, .refl _, fun q hq => Or.inl hq, fun lock _ => rfl, fun k hk => ?_⟩
  rw [run_onDraft]
  exact lookup_onDraft_other f hk

theorem makeFolder : s.Spares (Act.onFiles (·.makeFolder s.folder) : Act σ Unit) := by
  intro w
  rw [Act.run_onFiles]
  cases hmake : w.files.makeFolder s.folder with
  | error e => exact .refl s w
  | ok t =>
    obtain ⟨hfiles, hin⟩ := Tree.makeFoldersFrom_eq_ok hmake
    refine ⟨fun q _ => ?_, hin, fun q hq => ?_, fun lock _ => rfl, fun k _ => rfl⟩
    · exact congrArg (List.lookup q) hfiles
    · exact (Tree.isFolderAt_of_makeFoldersFrom hmake hq).imp_right fun h => ⟨h.1, fun _ => h.2⟩

/-- What is done to one's own files concerns nobody else. -/
theorem onFiles {f : Tree → Except Failure Tree} (h : ∀ t t', f t = .ok t' →
    t'.folders = t.folders ∧ ∀ q, ¬ s.Owns q → t'.contentAt? q = t.contentAt? q) :
    s.Spares (Act.onFiles f : Act σ Unit) := by
  intro w
  rw [Act.run_onFiles]
  cases hf : f w.files with
  | error e => exact .refl s w
  | ok t =>
    obtain ⟨hfolders, hcontent⟩ := h _ _ hf
    refine ⟨hcontent, Tree.foldersIn_of_eq hfolders.symm, fun q hq => Or.inl ?_, fun lock _ => rfl,
      fun k _ => rfl⟩
    rwa [Tree.isFolderAt_congr hfolders] at hq

theorem replaceFile (content : List UInt8) : s.Spares (Act.replaceFile s.file content : Act σ Unit) := by
  intro w
  rcases Act.run_replaceFile_cases (w := w) s.file content with ⟨e, he⟩ | heq
  · rw [he]
    exact .refl s w
  · rw [heq]
    refine onFiles (fun t t' h => ?_) w
    obtain ⟨q, hq, -, -, rfl⟩ := Tree.write_eq_ok_iff.mp h
    obtain rfl := Tree.eq_location hq
    refine ⟨Tree.put_folders _ _ _, fun r hr => Tree.contentAt?_put_other ?_⟩
    rintro rfl
    exact hr (Or.inl rfl)

theorem removeNumbered (hdev : s.development = none) :
    s.Spares (Act.onFiles (·.remove s.site.numberedFile) : Act σ Unit) := by
  refine onFiles fun t t' h => ?_
  obtain ⟨hfolders, q, hq, -, -, hothers⟩ := Tree.remove_eq_ok h
  obtain rfl := Tree.eq_location hq
  refine ⟨hfolders, fun r hr => hothers r ?_⟩
  rintro rfl
  exact hr (Or.inr ⟨hdev, rfl⟩)

theorem get : s.Spares (MonadState.get : Act σ (Workspace σ)) := fun w => .refl s w

theorem save (hs : s.Plain) (records : Records) : s.Spares (s.save records : Act σ Unit) := by
  unfold Store.save
  rw [hs.parent_file]
  refine bind makeFolder fun _ => bind (ofResult _) fun text => bind (replaceFile _) fun _ =>
    bind get fun w => ?_
  split
  · rename_i hcond
    simp only [Bool.and_eq_true, Option.isNone_iff_eq_none] at hcond
    exact bind (removeNumbered hcond.1.1) fun _ => tell _
  · exact pure ()

theorem acquire (hs : s.Plain) : s.Spares (s.acquire : Act σ Unit) := by
  intro w
  unfold Store.acquire
  rw [hs.parent_lockFile]
  refine bind makeFolder (fun _ w => ?_) w
  rw [run_bind_of_ok run_get]
  split
  · exact bind (tell _) (fun _ => fail _) w
  · split
    · exact .refl s w
    · refine ⟨fun q _ => rfl, .refl _, fun q hq => Or.inl hq, fun lock hlock => ?_, fun k _ => rfl⟩
      exact List.count_cons_of_ne (Ne.symm hlock)

theorem runOnFile (hs : s.Plain) {body : Handle → Act σ α} (hbody : s.Spares (body ⟨s.session, 0⟩)) :
    s.Spares (s.runOnFile body) := by
  unfold Store.runOnFile
  refine bind load fun r => bind (ofResult _) fun before => bind (fun w => ?_) fun _ =>
    bind hbody fun a => bind current fun final => bind (ofResult _) fun after => ?_
  · refine ⟨fun q _ => rfl, .refl _, fun q hq => Or.inl hq, fun lock _ => rfl, fun k hk => ?_⟩
    rw [run_modify]
    dsimp only
    rw [List.lookup_cons, beq_false_of_ne hk]
  · split
    · exact bind (save hs _) fun _ => pure a
    · exact pure a

theorem withRecords (hs : s.Plain) {body : Handle → Act σ α}
    (hbody : ∀ h, h.session = s.session → s.Spares (body h)) : s.Spares (s.withRecords body) := by
  intro w
  unfold Store.withRecords
  rw [run_bind_of_ok run_currentHandle?]
  cases w.drafts.lookup s.session with
  | some d => exact hbody _ rfl w
  | none =>
    refine bind (acquire hs) (fun _ w => ?_) w
    rw [Act.run_andThenAlways]
    refine (runOnFile hs (hbody _ rfl) w).trans ⟨fun q _ => rfl, .refl _, fun q hq => Or.inl hq,
      fun lock hlock => List.count_erase_of_ne hlock, fun k hk => lookup_filter_other hk⟩

end Spares

/-- A program that uses one store spares all others. -/
theorem Uses.spares (hs : s.Plain) {x : Act σ α} (hx : s.Uses x) : s.Spares x := by
  induction hx with
  | pure a => exact .pure a
  | bind _ _ ihx ihf => exact .bind ihx ihf
  | fail e => exact .fail e
  | recover _ _ ihx ihhandle => exact .recover ihx ihhandle
  | tell records => exact .tell records
  | outside x => exact .outside x
  | handed _ => exact .handed _
  | change f hh =>
    rw [Store.change, hh]
    exact .onDraft _
  | replaceCurrent records => exact .onDraft _
  | withRecords _ ih => exact .withRecords hs ih
  | read => exact .read

end Store

end UpgradeSafety.Manifest
