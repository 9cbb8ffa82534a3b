import UpgradeSafety.Manifest.Store
import UpgradeSafety.Proofs.Workspace

/-!
# Runs on the records of a store

What runs do to the workspace, for bodies made of the operations of the store, of logging, and of
whatever happens outside (`Store.Body`). A body changes no file and no lock, and no draft but that
of its store (`Store.Body.run`). So a run that fails leaves every file as it was, holds no lock and
has no records in hand (`Store.withRecords_error`).

The failure may come at any point: when the lock is taken, the file is read, a manifest is
migrated, in the body, or when the new text is written. Until the text takes the place of the file
nothing is changed but the folder of the lock, and the file is replaced in one step, by one that
was written beside it; if that fails the one beside it is removed. What can fail behind the
replacement is the removal of a numbered file, and once a store was read and its file written that
cannot fail (`remove_numbered`).

Runs inside a run are part of a body and work on its draft.
-/

namespace UpgradeSafety.Manifest

open Files Stateful

variable {σ α β : Type} {s : Store} {w w' : Workspace σ}

/-! ## Drafts -/

theorem map_drafts_of_lookup_eq_none {drafts : List (Nat × Draft)} {k : Nat} (f : Draft → Draft)
    (h : drafts.lookup k = none) :
    (drafts.map fun (l, d) => (l, if l = k then f d else d)) = drafts := by
  induction drafts with
  | nil => rfl
  | cons e drafts ih =>
    obtain ⟨l, d⟩ := e
    by_cases hl : l = k
    · simp [hl] at h
    · rw [List.lookup_cons, beq_false_of_ne (Ne.symm hl)] at h
      simp [hl, ih h]

theorem filter_drafts_of_lookup_eq_none {drafts : List (Nat × Draft)} {k : Nat}
    (h : drafts.lookup k = none) : (drafts.filter fun (l, _) => l != k) = drafts := by
  induction drafts with
  | nil => rfl
  | cons e drafts ih =>
    obtain ⟨l, d⟩ := e
    by_cases hl : l = k
    · simp [hl] at h
    · rw [List.lookup_cons, beq_false_of_ne (Ne.symm hl)] at h
      rw [List.filter_cons_of_pos (by simpa using hl), ih h]

theorem filter_drafts_cons {drafts : List (Nat × Draft)} {k : Nat} {d : Draft}
    (h : drafts.lookup k = none) : (((k, d) :: drafts).filter fun (l, _) => l != k) = drafts := by
  rw [List.filter_cons_of_neg (by simp), filter_drafts_of_lookup_eq_none h]

namespace Store

/-- A run of a store is in progress: it has a draft beside those of others, and the lock of the
store, whose folder is there. -/
structure Underway (s : Store) (others : List (Nat × Draft)) (w : Workspace σ) : Prop where
  draft : ∃ d, w.drafts = (s.session, d) :: others
  lock : s.lockFile ∈ w.locks
  folder : w.files.makeFolder s.lockFile.parent = .ok w.files

/-- What is done during a run of a store: anything with its operations, with logging and with what
lies outside. Other stores under the same lock, whose sessions are `idle`, may be tried as well. -/
inductive Body (s : Store) (idle : Nat → Prop) : {α : Type} → Act σ α → Prop
  | pure {α : Type} (a : α) : Body s idle (Pure.pure a)
  | bind {α β : Type} {x : Act σ α} {f : α → Act σ β} :
      Body s idle x → (∀ a, Body s idle (f a)) → Body s idle (x >>= f)
  | fail {α : Type} (e : Failure) : Body s idle (throw e : Act σ α)
  | recover {α : Type} {x : Act σ α} {handle : Failure → Act σ α} :
      Body s idle x → (∀ e, Body s idle (handle e)) → Body s idle (tryCatch x handle)
  | tell (records : List Log.Record) : Body s idle (Act.tell records)
  | outside {α : Type} (x : StateM σ α) : Body s idle (Act.outside x)
  | handed (h : Handle) : Body s idle (Store.handed h)
  | change {h : Handle} (f : Records → Records) : h.session = s.session →
      Body s idle (Store.change h f)
  | replaceCurrent (records : Records) : Body s idle (s.replaceCurrent records)
  | withRecords {α : Type} {body : Handle → Act σ α} :
      (∀ h, h.session = s.session → Body s idle (body h)) → Body s idle (s.withRecords body)
  | read (other : Store) : Body s idle other.read
  | lockedOut {α : Type} {other : Store} (body : Handle → Act σ α) : idle other.session →
      other.lockFile = s.lockFile → Body s idle (other.withRecords body)

/-! ## Operations on drafts -/

@[simp] theorem run_currentHandle? :
    (s.currentHandle? : Act σ (Option Handle)).run.run w =
      (.ok ((w.drafts.lookup s.session).map fun d => ⟨s.session, d.current⟩), w) := rfl

@[simp] theorem run_onDraft (k : Nat) (f : Draft → Draft) :
    (onDraft k f : Act σ Unit).run.run w =
      (.ok (), { w with drafts := w.drafts.map fun (l, d) => (l, if l = k then f d else d) }) := rfl

@[simp] theorem run_handed (h : Handle) :
    (handed h : Act σ Records).run.run w =
      (.ok (((w.drafts.lookup h.session).bind fun d => d.sets[h.index]?).getD {}), w) := rfl

/-! ## Reading -/

/-- What a store takes from a raw manifest. -/
def interpreted (s : Store) (file : Path) (raw : Json) : Except Failure (Records × Bool) :=
  match raw with
  | .obj data =>
    match (migration s.updater data).1 with
    | .error e => .error (.refused (.manifestCorrupted file.text e.text))
    | .ok m =>
      match Records.ofJson (.obj m.data) with
      | .valid records => .ok (records, m.changed)
      | .invalid problems => .error (.refused (.manifestMalformed file.text problems))
  | _ => .error (.refused (.manifestCorrupted file.text "Top-level value is not an object"))

/-- What a store holds in a tree of files, and whether it has to be written. -/
def held (s : Store) (t : Tree) : Except Failure (Records × Bool) :=
  match s.currentFile? t with
  | .error e => .error e
  | .ok none => .ok ({}, false)
  | .ok (some file) =>
    match t.readJson file with
    | .error e => .error e
    | .ok (.error e) =>
      .error (.refused (.manifestCorrupted file.text ("Invalid JSON: " ++ e.complaint)))
    | .ok (.ok raw) => (s.interpreted file raw).map fun (records, migrated) =>
        (records, migrated || file != s.file)

theorem run_interpret (file : Path) (raw : Json) : ∃ notes,
    (s.interpret file raw : Act σ (Records × Bool)).run.run w =
      (s.interpreted file raw, { w with log := w.log ++ notes }) := by
  unfold interpret interpreted
  cases raw with
  | obj data =>
    refine ⟨(migration s.updater data).2.2, ?_⟩
    dsimp only
    rw [run_bind_of_ok (Act.run_tell _)]
    cases (migration s.updater data).1 with
    | error e => rfl
    | ok m =>
      dsimp only
      cases Records.ofJson (.obj m.data) <;> rfl
  | _ => exact ⟨[], by simp⟩

/-- Reading changes nothing but the log. -/
theorem run_load (s : Store) (w : Workspace σ) : ∃ notes,
    (s.load : Act σ (Records × Bool)).run.run w =
      (s.held w.files, { w with log := w.log ++ notes }) := by
  have hsame : { w with log := w.log ++ [] } = w := by simp
  unfold load held
  rw [run_bind_of_ok run_get, run_bind, Act.run_ofResult]
  cases s.currentFile? w.files with
  | error e => exact ⟨[], by rw [hsame]⟩
  | ok file? =>
    cases file? with
    | none => exact ⟨[], by rw [hsame]; rfl⟩
    | some file =>
      dsimp only
      rw [run_bind, Act.run_ofResult]
      cases w.files.readJson file with
      | error e => exact ⟨[], by rw [hsame]⟩
      | ok read =>
        cases read with
        | error e => exact ⟨[], by rw [hsame]; rfl⟩
        | ok raw =>
          obtain ⟨notes, hnotes⟩ := run_interpret (s := s) (w := w) file raw
          refine ⟨notes, ?_⟩
          dsimp only
          rw [run_bind, hnotes]
          cases s.interpreted file raw <;> rfl

/-! ## Bodies -/

/-- What a body leaves: the files, the locks, and the drafts of other sessions. -/
structure Kept (s : Store) (others : List (Nat × Draft)) (w w' : Workspace σ) : Prop where
  files : w'.files = w.files
  locks : w'.locks = w.locks
  draft : ∃ d, w'.drafts = (s.session, d) :: others

theorem Kept.underway {others : List (Nat × Draft)} (h : Kept s others w w')
    (hw : Underway s others w) : Underway s others w' where
  draft := h.draft
  lock := h.locks ▸ hw.lock
  folder := by rw [h.files, hw.folder]

theorem Kept.trans {others : List (Nat × Draft)} {w'' : Workspace σ} (h : Kept s others w w')
    (h' : Kept s others w' w'') : Kept s others w w'' :=
  ⟨h'.files.trans h.files, h'.locks.trans h.locks, h'.draft⟩

theorem Underway.kept_self {others : List (Nat × Draft)} (h : Underway s others w) :
    Kept s others w w := ⟨rfl, rfl, h.draft⟩

theorem Underway.lookup_draft {others : List (Nat × Draft)} (h : Underway s others w) :
    ∃ d, w.drafts.lookup s.session = some d := by
  obtain ⟨d, hd⟩ := h.draft
  exact ⟨d, by rw [hd, List.lookup_cons_self]⟩

theorem Underway.lookup_other {others : List (Nat × Draft)} (h : Underway s others w) {k : Nat}
    (hk : k ≠ s.session) : w.drafts.lookup k = others.lookup k := by
  obtain ⟨d, hd⟩ := h.draft
  rw [hd, List.lookup_cons, beq_false_of_ne hk]

theorem kept_onDraft {others : List (Nat × Draft)} (hothers : others.lookup s.session = none)
    (h : Underway s others w) (f : Draft → Draft) :
    Kept s others w ((onDraft s.session f : Act σ Unit).run.run w).2 := by
  obtain ⟨d, hd⟩ := h.draft
  refine ⟨rfl, rfl, f d, ?_⟩
  rw [run_onDraft, hd, List.map_cons, map_drafts_of_lookup_eq_none f hothers]
  simp

/-- A store whose lock is taken does nothing but write into the log. -/
theorem kept_withRecords_lockedOut {others : List (Nat × Draft)} (h : Underway s others w)
    {other : Store} (hidle : w.drafts.lookup other.session = none)
    (hlock : other.lockFile = s.lockFile) (body : Handle → Act σ α) :
    Kept s others w ((other.withRecords body).run.run w).2 := by
  have hacquire : ∃ e notes, (other.acquire : Act σ Unit).run.run w =
      (.error e, { w with log := w.log ++ notes }) := by
    refine ⟨.refused (.lockTimeout other.lockFile.text other.lockTimeout),
      [other.note .lockTimedOut "Manifest lock timed out"], ?_⟩
    unfold acquire
    rw [run_bind, Act.run_onFiles, hlock, h.folder]
    dsimp only
    rw [run_bind_of_ok run_get, if_pos (List.contains_iff_mem.mpr h.lock),
      run_bind_of_ok (Act.run_tell _), Act.run_refuse]
  obtain ⟨e, notes, he⟩ := hacquire
  unfold withRecords
  rw [run_bind_of_ok run_currentHandle?, hidle]
  dsimp only [Option.map_none]
  rw [run_bind_of_error he]
  exact ⟨rfl, rfl, h.draft⟩

theorem kept_read {others : List (Nat × Draft)} (h : Underway s others w) (other : Store) :
    Kept s others w ((other.read : Act σ Records).run.run w).2 := by
  unfold read
  rw [run_bind_of_ok run_currentHandle?]
  cases w.drafts.lookup other.session with
  | some d => exact h.kept_self
  | none =>
    obtain ⟨notes, hload⟩ := run_load other w
    dsimp only [Option.map_none]
    rw [run_bind, hload]
    cases other.held w.files <;> exact ⟨rfl, rfl, h.draft⟩

/-- A run inside a run is given the records in hand. -/
theorem run_withRecords_nested {d : Draft} (h : w.drafts.lookup s.session = some d)
    (body : Handle → Act σ α) :
    (s.withRecords body).run.run w = (body ⟨s.session, d.current⟩).run.run w := by
  unfold withRecords
  rw [run_bind_of_ok run_currentHandle?, h]
  rfl

/-- A body changes neither files nor locks, and no draft but that of its store. -/
theorem Body.run {idle : Nat → Prop} {others : List (Nat × Draft)} {x : Act σ α}
    (hothers : others.lookup s.session = none)
    (hidle : ∀ k, idle k → k ≠ s.session ∧ others.lookup k = none) (hx : Body s idle x)
    (h : Underway s others w) : Kept s others w (x.run.run w).2 := by
  induction hx generalizing w with
  | pure a => exact h.kept_self
  | fail e => exact h.kept_self
  | tell records => exact ⟨rfl, rfl, h.draft⟩
  | outside x => exact ⟨rfl, rfl, h.draft⟩
  | handed k => exact h.kept_self
  | read other => exact kept_read h other
  | change f hk =>
    rw [Store.change, hk]
    exact kept_onDraft hothers h _
  | replaceCurrent records => exact kept_onDraft hothers h _
  | lockedOut body hother hlock =>
    obtain ⟨hne, hnone⟩ := hidle _ hother
    exact kept_withRecords_lockedOut h ((h.lookup_other hne).trans hnone) hlock body
  | withRecords _ ih =>
    obtain ⟨d, hd⟩ := h.lookup_draft
    rw [run_withRecords_nested hd]
    exact ih _ rfl h
  | @bind α β x f _ _ ihx ihf =>
    have hx := ihx h
    rw [run_bind]
    rcases hrun : x.run.run w with ⟨r, w₁⟩
    rw [hrun] at hx
    cases r with
    | error e => exact hx
    | ok a => exact hx.trans (ihf a (hx.underway h))
  | @recover α x handle _ _ ihx ihf =>
    have hx := ihx h
    rw [run_tryCatch]
    rcases hrun : x.run.run w with ⟨r, w₁⟩
    rw [hrun] at hx
    cases r with
    | error e => exact hx.trans (ihf e (hx.underway h))
    | ok a => exact hx

/-! ## Record operations -/

theorem Body.update {idle : Nat → Prop} (f : Records → Records) :
    Body s idle (s.update f : Act σ Unit) :=
  .withRecords fun _ h => .change f h

theorem Body.find {idle : Nat → Prop} (lookup : Records → Option α) (missing : Refusal) :
    Body s idle (s.find lookup missing : Act σ α) := by
  refine .withRecords fun h _ => .bind (.handed h) fun r => ?_
  cases lookup r with
  | some a => exact .pure a
  | none => exact .fail _

theorem Body.write {idle : Nat → Prop} (records : Records) :
    Body s idle (s.write records : Act σ Unit) :=
  .withRecords fun _ _ => .replaceCurrent records

theorem Body.addProxy {idle : Nat → Prop} (proxy : Proxy) :
    Body s idle (s.addProxy proxy : Act σ Unit) :=
  .bind (.update _) fun _ => .tell _

/-! ## Taking the lock -/

/-- What a workspace that only gained folders and log entries still has. -/
structure Untouched (w w' : Workspace σ) : Prop where
  files : w'.files.files = w.files.files
  folders : w.files.FoldersIn w'.files
  locks : w'.locks = w.locks
  drafts : w'.drafts = w.drafts

theorem Untouched.refl (w : Workspace σ) : Untouched w w := ⟨rfl, .refl _, rfl, rfl⟩

/-- A lock is taken, or nothing but folders is made. -/
theorem acquire_cases (s : Store) (w : Workspace σ) :
    (∃ e w', (s.acquire : Act σ Unit).run.run w = (.error e, w') ∧ Untouched w w') ∨
    ∃ t, w.files.makeFolder s.lockFile.parent = .ok t ∧ s.lockFile ∉ w.locks ∧
      (s.acquire : Act σ Unit).run.run w =
        (.ok (), { w with files := t, locks := s.lockFile :: w.locks }) := by
  unfold acquire
  rw [run_bind, Act.run_onFiles]
  cases hmake : w.files.makeFolder s.lockFile.parent with
  | error e => exact Or.inl ⟨e, w, rfl, .refl w⟩
  | ok t =>
    obtain ⟨hfiles, hfolders⟩ := Tree.makeFoldersFrom_eq_ok hmake
    dsimp only
    rw [run_bind_of_ok run_get]
    by_cases hlock : w.locks.contains s.lockFile = true
    · rw [if_pos hlock, run_bind_of_ok (Act.run_tell _), Act.run_refuse]
      exact Or.inl ⟨_, _, rfl, hfiles, hfolders, rfl, rfl⟩
    · rw [if_neg hlock]
      by_cases hfolder : t.isFolder s.lockFile = true
      · rw [if_pos hfolder, run_throw]
        exact Or.inl ⟨_, _, rfl, hfiles, hfolders, rfl, rfl⟩
      · rw [if_neg hfolder, run_set]
        refine Or.inr ⟨t, rfl, fun h => hlock (List.contains_iff_mem.mpr h), rfl⟩

/-! ## Writing -/

theorem ending_ne_up (name : String) : name ++ ".json" ≠ ".." := by
  intro h
  have hlength : (name ++ ".json").length = "..".length := congrArg String.length h
  have hending : ".json".length = 5 := rfl
  have hup : "..".length = 2 := rfl
  rw [String.length_append] at hlength
  omega

theorem file_of_development_none (h : s.development = none) : s.file = s.site.file := by
  unfold file developmentFile?
  rw [h]
  rfl

theorem parent_lockFile (h : s.development = none) : s.lockFile.parent = s.site.folder := by
  unfold lockFile
  rw [h]
  simp [Path.child, Path.parent]

theorem parent_file (h : s.development = none) : s.file.parent = s.lockFile.parent := by
  unfold file developmentFile? lockFile
  rw [h]
  simp [Site.file, Path.child, Path.parent]

theorem site_names_ne {site : Site} (h : site.numberedFile ≠ site.file) :
    networkName site.chainId ++ ".json" ≠ numberedName site.chainId ++ ".json" :=
  fun heq => h (by rw [Site.numberedFile, Site.file, heq])

/-- A file under the numbered name that is there when a store was read can be read. -/
theorem read_numbered_of_held {t : Tree} {r : Records × Bool} (hheld : s.held t = .ok r)
    (hdev : s.development = none) (hne : s.site.numberedFile ≠ s.site.file)
    (hhas : t.has s.site.numberedFile = true) :
    ∃ content, t.read s.site.numberedFile = .ok content := by
  have hcurrent : s.currentFile? t = s.site.currentFile? t := by
    unfold currentFile? developmentFile?
    rw [hdev]
    rfl
  have hnumbered : (s.site.numberedFile != s.site.file && t.has s.site.numberedFile) = true := by
    simp [hne, hhas]
  unfold held at hheld
  rw [hcurrent, Site.currentFile?, if_pos hnumbered] at hheld
  by_cases hfile : t.has s.site.file = true
  · rw [if_pos hfile] at hheld
    cases hheld
  · rw [if_neg hfile] at hheld
    dsimp only at hheld
    cases hread : t.read s.site.numberedFile with
    | ok content => exact ⟨content, rfl⟩
    | error e =>
      have hjson : t.readJson s.site.numberedFile = .error e := by
        unfold Tree.readJson
        rw [hread]
        rfl
      rw [hjson] at hheld
      cases hheld

theorem untouched_of_makeFolder {p : Path} {t : Tree} (h : w.files.makeFolder p = .ok t) :
    Untouched w { w with files := t } := by
  obtain ⟨hfiles, hfolders⟩ := Tree.makeFoldersFrom_eq_ok h
  exact ⟨hfiles, hfolders, rfl, rfl⟩

/-- Once a file was written in the folder of a network, its numbered file can be removed. -/
theorem remove_numbered {t t' : Tree} {content : List UInt8}
    (hne : s.site.numberedFile ≠ s.site.file)
    (hread : t.has s.site.numberedFile = true → ∃ c, t.read s.site.numberedFile = .ok c)
    (hwrite : t.write s.site.file content = .ok t')
    (hhas : t'.has s.site.numberedFile = true) :
    ∃ t'', t'.remove s.site.numberedFile = .ok t'' := by
  obtain ⟨hfolders, hcontent⟩ := Tree.write_child_other (ending_ne_up _) (ending_ne_up _)
    (site_names_ne hne) hwrite
  obtain ⟨c, hc⟩ := hread ((Tree.has_congr hfolders.symm hcontent).trans hhas)
  exact Tree.remove_of_read (Tree.read_congr hfolders.symm hcontent hc)

/-- Records that cannot be written leave the files as they are. -/
theorem save_error {records : Records} {e : Failure}
    (hfolder : s.development = none → w.files.makeFolder s.file.parent = .ok w.files)
    (hread : s.development = none → s.site.numberedFile ≠ s.site.file →
      w.files.has s.site.numberedFile = true → ∃ c, w.files.read s.site.numberedFile = .ok c)
    (h : (s.save records).run.run w = (.error e, w')) : Untouched w w' := by
  unfold save at h
  rcases run_bind_eq_error_iff.mp h with h | ⟨_, w₁, hrun, h⟩
  · rw [Act.run_onFiles_eq_error h]
    exact .refl w
  obtain ⟨t, hmake, rfl⟩ := Act.run_onFiles_eq_ok_iff.mp hrun
  have hmade := untouched_of_makeFolder hmake
  rcases run_bind_eq_error_iff.mp h with h | ⟨text, w₂, hrun, h⟩
  · obtain ⟨-, rfl⟩ := Prod.mk.inj ((Act.run_ofResult _).symm.trans h)
    exact hmade
  obtain ⟨htext, rfl⟩ := Prod.mk.inj ((Act.run_ofResult _).symm.trans hrun)
  rcases run_bind_eq_error_iff.mp h with h | ⟨_, w₃, hrun, h⟩
  · rw [Act.run_replaceFile_eq_error h]
    exact hmade
  obtain ⟨t', hwrite, rfl⟩ := Act.run_replaceFile_eq_ok hrun
  rw [run_bind_of_ok run_get] at h
  split at h
  · rename_i hcond
    simp only [Bool.and_eq_true, Option.isNone_iff_eq_none, bne_iff_ne] at hcond
    obtain ⟨⟨hdev, hne⟩, hhas⟩ := hcond
    obtain rfl : w.files = t := Except.ok.inj ((hfolder hdev).symm.trans hmake)
    obtain ⟨t'', hremove⟩ := remove_numbered hne (hread hdev hne)
      (file_of_development_none hdev ▸ hwrite) hhas
    rw [run_bind, Act.run_onFiles, hremove] at h
    cases h
  · cases h

/-! ## Failed runs -/

/-- A workspace after a run of a store that failed: only its draft is to be given up. -/
structure Failed (s : Store) (w w' : Workspace σ) : Prop where
  files : w'.files.files = w.files.files
  folders : w.files.FoldersIn w'.files
  locks : w'.locks = w.locks
  drafts : (w'.drafts.filter fun (k, _) => k != s.session) = w.drafts

theorem failed_of_untouched (hidle : w.drafts.lookup s.session = none) (h : Untouched w w') :
    Failed s w w' where
  files := h.files
  folders := h.folders
  locks := h.locks
  drafts := by rw [h.drafts, filter_drafts_of_lookup_eq_none hidle]

theorem Kept.failed {w₁ w₂ : Workspace σ} (h : Kept s w.drafts w₁ w₂)
    (hsession : w.drafts.lookup s.session = none) (hfiles : w₁.files = w.files)
    (hlocks : w₁.locks = w.locks) (h' : Untouched w₂ w') : Failed s w w' := by
  obtain ⟨d, hd⟩ := h.draft
  have hsame : w₂.files = w.files := h.files.trans hfiles
  refine ⟨hsame ▸ h'.files, hsame ▸ h'.folders, h'.locks.trans (h.locks.trans hlocks), ?_⟩
  rw [h'.drafts, hd, filter_drafts_cons hsession]

/-- The records in hand of the current draft. -/
theorem run_current {d : Draft} (h : w.drafts.lookup s.session = some d) :
    (s.current : Act σ Records).run.run w = (.ok (d.sets[d.current]?.getD {}), w) := by
  unfold current
  rw [run_bind_of_ok run_currentHandle?, h]
  dsimp only [Option.map_some]
  rw [run_handed, h]
  rfl

/-- The other sessions without a run in progress. -/
def Idle (s : Store) (w : Workspace σ) (k : Nat) : Prop :=
  k ≠ s.session ∧ w.drafts.lookup k = none

/-- A run under the lock that fails, at whatever point, leaves the files as they are. -/
theorem runOnFile_error {body : Handle → Act σ α} {e : Failure}
    (hsession : w.drafts.lookup s.session = none)
    (hlock : s.lockFile ∈ w.locks) (hfolder : w.files.makeFolder s.lockFile.parent = .ok w.files)
    (hbody : ∀ h, h.session = s.session → Body s (s.Idle w) (body h))
    (h : (s.runOnFile body).run.run w = (.error e, w')) : Failed s w w' := by
  obtain ⟨notes, hload⟩ := run_load s w
  unfold runOnFile at h
  rw [run_bind, hload] at h
  cases hheld : s.held w.files with
  | error e' =>
    rw [hheld] at h
    cases h
    exact failed_of_untouched hsession ⟨rfl, .refl _, rfl, rfl⟩
  | ok r =>
    rw [hheld] at h
    dsimp only at h
    rcases run_bind_eq_error_iff.mp h with h | ⟨before, w₁, hrun, h⟩
    · obtain ⟨-, rfl⟩ := Prod.mk.inj ((Act.run_ofResult _).symm.trans h)
      exact failed_of_untouched hsession ⟨rfl, .refl _, rfl, rfl⟩
    obtain ⟨-, rfl⟩ := Prod.mk.inj ((Act.run_ofResult _).symm.trans hrun)
    rw [run_bind_of_ok (run_modify _)] at h
    have hunder : Underway s w.drafts { w with
        log := w.log ++ notes, drafts := (s.session, ⟨[r.1], 0⟩) :: w.drafts } :=
      ⟨⟨_, rfl⟩, hlock, hfolder⟩
    have hkept := (hbody ⟨s.session, 0⟩ rfl).run hsession (fun _ h => h) hunder
    rcases run_bind_eq_error_iff.mp h with h | ⟨result, w₂, hrun, h⟩
    · rw [h] at hkept
      exact hkept.failed hsession rfl rfl (.refl w')
    rw [hrun] at hkept
    obtain ⟨d, hd⟩ := (hkept.underway hunder).lookup_draft
    rw [run_bind_of_ok (run_current hd)] at h
    rcases run_bind_eq_error_iff.mp h with h | ⟨after, w₃, hrun, h⟩
    · obtain ⟨-, rfl⟩ := Prod.mk.inj ((Act.run_ofResult _).symm.trans h)
      exact hkept.failed hsession rfl rfl (.refl _)
    obtain ⟨-, rfl⟩ := Prod.mk.inj ((Act.run_ofResult _).symm.trans hrun)
    split at h
    · rcases run_bind_eq_error_iff.mp h with h | ⟨_, w₄, -, h⟩
      · refine hkept.failed hsession rfl rfl (save_error (fun hdev => ?_) (fun hdev hne => ?_) h)
        · rw [hkept.files, parent_file hdev]
          exact hfolder
        · rw [hkept.files]
          exact read_numbered_of_held hheld hdev hne
      · cases h
    · cases h

/-- A failed run leaves no trace: every file has the bytes it had, no other file is there, the lock
is given back, and the session has no records in hand. -/
theorem withRecords_error {body : Handle → Act σ α} {e : Failure}
    (hsession : w.drafts.lookup s.session = none)
    (hbody : ∀ h, h.session = s.session → Body s (s.Idle w) (body h))
    (h : (s.withRecords body).run.run w = (.error e, w')) :
    Untouched w w' ∧ w'.drafts.lookup s.session = none := by
  have huntouched : Untouched w w' := by
    unfold withRecords at h
    rw [run_bind_of_ok run_currentHandle?, hsession] at h
    dsimp only [Option.map_none] at h
    rcases acquire_cases s w with ⟨e', w₁, hacquire, hw₁⟩ | ⟨t, hmake, -, hacquire⟩
    · rw [run_bind_of_error hacquire] at h
      cases h
      exact hw₁
    · obtain ⟨hfiles, hfolders⟩ := Tree.makeFoldersFrom_eq_ok hmake
      rw [run_bind_of_ok hacquire, Act.run_andThenAlways] at h
      obtain ⟨herror, rfl⟩ := Prod.mk.inj h
      have hfailed := runOnFile_error (w := { w with files := t, locks := s.lockFile :: w.locks })
        hsession List.mem_cons_self (Tree.makeFoldersFrom_eq_self hmake (.refl t)) hbody
        (Prod.ext herror rfl)
      refine ⟨hfailed.files.trans hfiles, hfolders.trans hfailed.folders, ?_, hfailed.drafts⟩
      rw [hfailed.locks, List.erase_cons_head]
  exact ⟨huntouched, huntouched.drafts ▸ hsession⟩

theorem withRecords_error_unknownProxy :
    let s : Store := { site := ⟨1, ⟨"", [".proxyguard"]⟩⟩, lockTimeout := 10.0 }
    let run := (s.withRecords fun _ => do
      s.addProxy ⟨"0xa", none, .uups⟩
      s.proxyAt "0xb").run.run ({ outside := () } : Workspace Unit)
    run.1 = .error (.refused (.unknownProxy "0xb")) ∧
      Untouched ({ outside := () } : Workspace Unit) run.2 ∧
        run.2.drafts.lookup s.session = none := by
  intro s run
  have herror : run.1 = .error (.refused (.unknownProxy "0xb")) := by rfl
  exact ⟨herror, withRecords_error rfl (fun _ _ => .bind (.addProxy _) fun _ => .find _ _)
    (Prod.ext herror rfl)⟩

end Store

end UpgradeSafety.Manifest
