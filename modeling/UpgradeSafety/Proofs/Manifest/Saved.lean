import UpgradeSafety.Proofs.Manifest.Migration
import UpgradeSafety.Proofs.Manifest.Runs
import UpgradeSafety.Proofs.Manifest.Stored
import UpgradeSafety.Proofs.Text.Ascii

/-!
# Records that were saved

What a store holds can be written and read again (`Store.held_sound`), and what was saved is what
the store then holds (`Store.held_of_saved`). A run that succeeds either leaves the files as they
are or saves the records that its body left (`Store.withRecords_ok`).

The way from records to a file and back is put together here from its parts: the text of a value is
ASCII, its bytes are decoded to the text and the text is read as the value, a manifest in the
current format is not migrated, and the reader of records gives back what was written, up to what
is not written. Whether the file counts that was written depends on the numbered file, which is
removed by saving (`Saved.files`).

A run that succeeds is taken apart into what it found, what its body did and what it wrote
(`Committed`). When the written form is the same as before nothing is written, so the store holds
what it held, and that is not always what the body left.
-/

namespace UpgradeSafety.Manifest

open Files Stateful Json

/-- Records that a store holds: they can be written and read again, and have the current format. -/
structure Records.Sound (r : Records) : Prop where
  storable : r.Storable
  version : Version.ofText r.manifestVersion = .ok .current

namespace Store

variable {σ α : Type} {s : Store} {w w' : Workspace σ} {t t' : Tree}

/-! ## What is held -/

theorem isTidy_of_readJson {p : Path} {v : Json} (h : t.readJson p = .ok (.ok v)) : v.IsTidy := by
  unfold Tree.readJson at h
  obtain ⟨content, -, h⟩ := bind_eq_ok_iff.mp h
  split at h
  · cases h
  · dsimp only at h
    split at h
    · split at h <;> cases h
    · rename_i v' hparse
      cases h
      exact (parse_isSound hparse).1

theorem version_of_ofJson {fields : Fields} {r : Records} {text : String}
    (h : Records.ofJson (.obj fields) = .valid r)
    (htext : fields.lookup "manifestVersion" = some (.str text)) : r.manifestVersion = text := by
  obtain ⟨_, hfields, hread⟩ := exists_fields_of_record h
  cases hfields
  simp only [Schema.Checked.seq_eq_valid_iff, Schema.Checked.map_eq_valid_iff] at hread
  obtain ⟨_, _, ⟨_, _, ⟨_, _, ⟨_, _, ⟨version, hversion, rfl⟩, -, rfl⟩, -, rfl⟩, -, rfl⟩, -, rfl⟩ := hread
  rcases Schema.defaulted_eq_valid_iff.mp hversion with ⟨v, hvalue, hcheck⟩ | ⟨hnone, -⟩
  · rw [Schema.Name.value?_mk, htext] at hvalue
    cases hvalue
    cases hcheck
    rfl
  · rw [Schema.Name.value?_mk, htext] at hnone
    cases hnone

theorem sound_of_interpreted {file : Path} {raw : Json} {r : Records} {migrated : Bool}
    (hupdater : AnswersTidy s.updater) (hraw : raw.IsTidy)
    (h : s.interpreted file raw = .ok (r, migrated)) : r.Sound := by
  unfold interpreted at h
  split at h
  · rename_i data
    split at h
    · cases h
    · rename_i m hm
      obtain ⟨htidy, text, htext, hversion⟩ := migration_eq_ok hupdater hraw hm
      split at h
      · rename_i records hrecords
        cases h
        exact ⟨Records.storable_ofJson hrecords htidy, version_of_ofJson hrecords htext ▸ hversion⟩
      · cases h
  · cases h

theorem held_sound {r : Records × Bool} (hupdater : AnswersTidy s.updater)
    (h : s.held t = .ok r) : r.1.Sound := by
  unfold held at h
  split at h
  · cases h
  · cases h
    exact ⟨Records.storable_empty, ofText_currentVersion⟩
  · split at h
    · cases h
    · cases h
    · rename_i hread
      obtain ⟨⟨records, migrated⟩, hr', rfl⟩ := map_eq_ok_iff.mp h
      exact sound_of_interpreted hupdater (isTidy_of_readJson hread) hr'

/-! ## Saving -/

/-- The files after records were saved: the file of the store is written, and a file under the
numbered name is removed. -/
def Saved (s : Store) (t : Tree) (records : Records) (t' : Tree) : Prop :=
  ∃ text t₁ t₂, fileText records = .ok text ∧ t.makeFolder s.file.parent = .ok t₁ ∧
    t₁.write s.file (Text.utf8Bytes text) = .ok t₂ ∧
    if s.development.isNone && s.site.numberedFile != s.site.file && t₂.has s.site.numberedFile then
      t₂.remove s.site.numberedFile = .ok t'
    else t' = t₂

theorem save_ok {records : Records} (h : (s.save records).run.run w = (.ok (), w')) :
    Saved s w.files records w'.files ∧ w'.locks = w.locks ∧ w'.drafts = w.drafts ∧
      w'.outside = w.outside := by
  unfold save at h
  obtain ⟨_, w₁, hrun, h⟩ := run_bind_eq_ok_iff.mp h
  obtain ⟨t₁, hmake, rfl⟩ := Act.run_onFiles_eq_ok_iff.mp hrun
  obtain ⟨text, w₂, hrun, h⟩ := run_bind_eq_ok_iff.mp h
  obtain ⟨htext, rfl⟩ := Prod.mk.inj ((Act.run_ofResult _).symm.trans hrun)
  obtain ⟨_, w₃, hrun, h⟩ := run_bind_eq_ok_iff.mp h
  obtain ⟨t₂, hwrite, rfl⟩ := Act.run_replaceFile_eq_ok hrun
  rw [run_bind_of_ok run_get] at h
  split at h
  · rename_i hcond
    obtain ⟨_, w₄, hrun, h⟩ := run_bind_eq_ok_iff.mp h
    obtain ⟨t₃, hremove, rfl⟩ := Act.run_onFiles_eq_ok_iff.mp hrun
    cases h
    exact ⟨⟨text, t₁, t₂, htext, hmake, hwrite, by rw [if_pos hcond]; exact hremove⟩, rfl, rfl, rfl⟩
  · rename_i hcond
    cases h
    exact ⟨⟨text, t₁, t₂, htext, hmake, hwrite, by rw [if_neg hcond]⟩, rfl, rfl, rfl⟩

/-- The file of a store that is there is the one that counts, unless the numbered one is there. -/
theorem currentFile?_eq_file (hfile : t.has s.file = true)
    (hnumbered : s.development = none → s.site.numberedFile ≠ s.site.file →
      t.has s.site.numberedFile = false) : s.currentFile? t = .ok (some s.file) := by
  unfold currentFile? file at *
  cases hdev : s.developmentFile? with
  | some dev =>
    rw [hdev, Option.getD_some] at hfile
    dsimp only
    rw [if_pos hfile, Option.getD_some]
  | none =>
    have hnone : s.development = none := by
      simpa [developmentFile?] using hdev
    rw [hdev] at hfile
    have hother : ¬ (s.site.numberedFile != s.site.file && t.has s.site.numberedFile) = true := by
      by_cases hne : s.site.numberedFile = s.site.file
      · simp [hne]
      · simp [hnumbered hnone hne]
    dsimp only
    rw [Site.currentFile?, if_neg hother, Option.getD_none]
    rw [Option.getD_none] at hfile
    rw [if_pos hfile]

theorem readJson_of_written {p : Path} {v : Json} (htidy : v.IsTidy) (hwritable : v.isWritable = true)
    (h : t.read p = .ok (Text.utf8Bytes (v.writeIndented 0 ++ "\n"))) :
    t.readJson p = .ok (.ok v.reread) := by
  have hplain := isPlain_written v
  unfold Tree.readJson
  rw [h, ok_bind, Text.decodeUtf8_utf8Bytes fun c hc => (hplain c hc).1]
  dsimp only
  rw [Text.unifyBreaks_eq_self fun hmem => (hplain _ hmem).2 rfl, String.ofList_toList,
    parse_writeIndented htidy hwritable]
  rfl

theorem isCurrent_fields {records : Records} (h : Version.ofText records.manifestVersion = .ok .current) :
    IsCurrent (rereadFields records.fields) := by
  refine ⟨records.manifestVersion, ?_, h⟩
  rw [rereadFields_eq_map, lookup_map_values]
  simp [Records.fields, reread]

/-- The records of a file that holds a written set of records. -/
theorem interpreted_toJson {records : Records} (hrecords : records.Sound)
    (hwritable : records.isWritable = true) (file : Path) :
    s.interpreted file records.toJson.reread = .ok (records.stored, false) := by
  have hread := Records.ofJson_toJson hrecords.storable hwritable
  rw [Records.toJson_eq, reread] at hread ⊢
  unfold interpreted
  dsimp only
  rw [migration_of_isCurrent (isCurrent_fields hrecords.version)]
  dsimp only
  rw [hread]
  rfl

theorem fileText_eq_ok {records : Records} {text : String} (h : fileText records = .ok text) :
    records.toJson.isWritable = true ∧ text = records.toJson.writeIndented 0 ++ "\n" := by
  obtain ⟨v, hv, htext⟩ := bind_eq_ok_iff.mp h
  cases htext
  unfold writable at hv
  split at hv
  · rename_i hwritable
    cases hv
    exact ⟨hwritable, rfl⟩
  · cases hv

/-- The tree after saving holds the written text in the file of the store, and no numbered file. -/
theorem Saved.files {records : Records} (h : Saved s t records t') (ht : t.Sound) :
    t'.Sound ∧ records.toJson.isWritable = true ∧
      t'.read s.file = .ok (Text.utf8Bytes (records.toJson.writeIndented 0 ++ "\n")) ∧
        (s.development = none → s.site.numberedFile ≠ s.site.file →
          t'.has s.site.numberedFile = false) := by
  obtain ⟨text, t₁, t₂, htext, hmake, hwrite, hnumbered⟩ := h
  obtain ⟨hwritable, rfl⟩ := fileText_eq_ok htext
  have ht₂ : t₂.Sound := (ht.makeFoldersFrom hmake).write hwrite
  have hread := (Tree.write_eq_ok hwrite).2
  split at hnumbered
  · rename_i hcond
    simp only [Bool.and_eq_true, Option.isNone_iff_eq_none, bne_iff_ne] at hcond
    obtain ⟨⟨hdev, hne⟩, -⟩ := hcond
    refine ⟨ht₂.remove hnumbered, hwritable, ?_, fun _ _ => ht₂.has_of_remove hnumbered⟩
    obtain ⟨hfolders, q, hq, -, -, hothers⟩ := Tree.remove_eq_ok hnumbered
    refine Tree.read_congr hfolders.symm (fun r hr => (hothers r ?_).symm) hread
    rintro rfl
    rw [file_of_development_none hdev] at hr
    exact Tree.place?_child_ne (ending_ne_up _) (ending_ne_up _) (site_names_ne hne) hr hq
  · rename_i hcond
    subst hnumbered
    refine ⟨ht₂, hwritable, hread, fun hdev hne => ?_⟩
    by_contra hhas
    exact hcond (by simp [hdev, hne, Bool.eq_true_of_not_eq_false hhas])

/-- What a file holds in which records are written. -/
def content (records : Records) : List UInt8 :=
  Text.utf8Bytes (records.toJson.writeIndented 0 ++ "\n")

/-- A store holds what is written in its current file; it has to be written anew if that is not the
file that the store writes. -/
theorem held_of_written {records : Records} {p : Path} (hcurrent : s.currentFile? t = .ok (some p))
    (hread : t.read p = .ok (content records))
    (hrecords : records.Sound) (hwritable : records.isWritable = true)
    (hjson : records.toJson.isWritable = true) :
    s.held t = .ok (records.stored, p != s.file) := by
  have htidy := (Records.isReflexive_toJson hrecords.storable).1
  unfold held
  rw [hcurrent]
  dsimp only
  rw [readJson_of_written htidy hjson hread]
  dsimp only
  rw [interpreted_toJson hrecords hwritable]
  rfl

/-- What was saved is what the store then holds, with nothing left to be written. -/
theorem held_of_saved {records : Records} (hsaved : Saved s t records t') (ht : t.Sound)
    (hrecords : records.Sound) (hwritable : records.isWritable = true) :
    s.held t' = .ok (records.stored, false) := by
  obtain ⟨-, hjson, hread, hnumbered⟩ := hsaved.files ht
  have hhas : t'.has s.file = true := by
    obtain ⟨q, hq, hcontent⟩ := Tree.read_eq_ok_iff.mp hread
    exact Tree.has_of_content hq hcontent
  rw [held_of_written (currentFile?_eq_file hhas hnumbered) hread hrecords hwritable hjson,
    bne_self_eq_false]

/-! ## Runs that succeed -/

/-- A workspace in which a run of a store has begun: the folder of the lock is made, the lock is
taken, and the records are in hand. -/
def opened (s : Store) (t : Tree) (r : Records) (notes : List Log.Record) (w : Workspace σ) :
    Workspace σ :=
  { w with
    files := t
    locks := s.lockFile :: w.locks
    drafts := (s.session, ⟨[r], 0⟩) :: w.drafts
    log := w.log ++ notes }

theorem underway_opened {r : Records} {notes : List Log.Record}
    (hmake : w.files.makeFolder s.lockFile.parent = .ok t) :
    Underway s w.drafts (s.opened t r notes w) :=
  ⟨⟨_, rfl⟩, List.mem_cons_self, Tree.makeFoldersFrom_eq_self hmake (.refl t)⟩

/-- What a run leaves of the files: nothing is written if nothing changed and the file is up to
date, and otherwise the records are saved. -/
def Committed (s : Store) (t : Tree) (r : Records) (stale : Bool) (final : Records) (t' : Tree) :
    Prop :=
  (stale = false ∧ final.toJson.same r.toJson = true ∧ t' = t) ∨ Saved s t final t'

theorem written_eq_ok {isWritable : Bool} {v v' : Json} (h : written isWritable v = .ok v') :
    isWritable = true ∧ v' = v := by
  unfold written at h
  split at h
  · rename_i hwritable
    cases h
    exact ⟨hwritable, rfl⟩
  · cases h

/-- A run that succeeds: its body succeeded on the records that the store held, and what it left was
committed. -/
theorem withRecords_ok {body : Handle → Act σ α} {a : α}
    (hsession : w.drafts.lookup s.session = none)
    (hbody : ∀ h, h.session = s.session → Body s (s.Idle w) (body h))
    (h : (s.withRecords body).run.run w = (.ok a, w')) :
    ∃ t r stale notes w₂ d, w.files.makeFolder s.lockFile.parent = .ok t ∧
      s.held t = .ok (r, stale) ∧
      (body ⟨s.session, 0⟩).run.run (s.opened t r notes w) = (.ok a, w₂) ∧
      w₂.drafts.lookup s.session = some d ∧
      (d.sets[d.current]?.getD {}).isWritable = true ∧
      Committed s t r stale (d.sets[d.current]?.getD {}) w'.files ∧
      w'.locks = w.locks ∧ w'.drafts = w.drafts ∧ w'.outside = w₂.outside := by
  unfold withRecords at h
  rw [run_bind_of_ok run_currentHandle?, hsession] at h
  dsimp only [Option.map_none] at h
  rcases acquire_cases s w with ⟨e', w₁, hacquire, -⟩ | ⟨t, hmake, -, hacquire⟩
  · rw [run_bind_of_error hacquire] at h
    cases h
  rw [run_bind_of_ok hacquire, Act.run_andThenAlways] at h
  obtain ⟨hrun, rfl⟩ := Prod.mk.inj h
  obtain ⟨w₅, hrun⟩ : ∃ w₅, (s.runOnFile body).run.run
      { w with files := t, locks := s.lockFile :: w.locks } = (.ok a, w₅) := ⟨_, Prod.ext hrun rfl⟩
  rw [hrun]
  unfold runOnFile at hrun
  obtain ⟨⟨r, stale⟩, w₁, hload, hrun⟩ := run_bind_eq_ok_iff.mp hrun
  obtain ⟨notes, hnotes⟩ := run_load s { w with files := t, locks := s.lockFile :: w.locks }
  obtain ⟨hheld, rfl⟩ := Prod.mk.inj (hnotes.symm.trans hload)
  obtain ⟨before, w₁, hencode, hrun⟩ := run_bind_eq_ok_iff.mp hrun
  obtain ⟨hbefore, rfl⟩ := Prod.mk.inj ((Act.run_ofResult _).symm.trans hencode)
  obtain ⟨-, rfl⟩ := written_eq_ok hbefore
  rw [run_bind_of_ok (run_modify _)] at hrun
  have hunder : Underway s w.drafts (s.opened t r notes w) := underway_opened hmake
  obtain ⟨result, w₂, hresult, hrun⟩ := run_bind_eq_ok_iff.mp hrun
  have hkept := (hbody ⟨s.session, 0⟩ rfl).run hsession (fun _ h => h) hunder
  have hresult : (body ⟨s.session, 0⟩).run.run (s.opened t r notes w) = (.ok result, w₂) := hresult
  rw [hresult] at hkept
  obtain ⟨d, hd⟩ := (hkept.underway hunder).lookup_draft
  obtain ⟨d', hd'⟩ := hkept.draft
  rw [run_bind_of_ok (run_current hd)] at hrun
  obtain ⟨after, w₃, hencode, hrun⟩ := run_bind_eq_ok_iff.mp hrun
  obtain ⟨hafter, rfl⟩ := Prod.mk.inj ((Act.run_ofResult _).symm.trans hencode)
  obtain ⟨hwritable, rfl⟩ := written_eq_ok hafter
  have hclosed := filter_drafts_cons (d := d') hsession
  rw [← hd'] at hclosed
  have hfiles : w₂.files = t := hkept.files
  have hlocks : w₂.locks.erase s.lockFile = w.locks := by
    rw [hkept.locks]
    exact List.erase_cons_head s.lockFile w.locks
  split at hrun
  · obtain ⟨_, w₄, hsave, hrun⟩ := run_bind_eq_ok_iff.mp hrun
    cases hrun
    obtain ⟨hsaved, hlocks', hdrafts', houtside⟩ := save_ok hsave
    rw [hfiles] at hsaved
    refine ⟨t, r, stale, notes, w₂, d, hmake, hheld, hresult, hd, hwritable, Or.inr hsaved, ?_, ?_,
      houtside⟩
    · rw [hlocks', hlocks]
    · rw [hdrafts', hclosed]
  · rename_i hsame
    cases hrun
    have hsame : stale = false ∧ (d.sets[d.current]?.getD {}).toJson.same r.toJson = true := by
      simpa using hsame
    exact ⟨t, r, stale, notes, w₂, d, hmake, hheld, hresult, hd, hwritable,
      Or.inl ⟨hsame.1, hsame.2, hfiles⟩, hlocks, hclosed, rfl⟩

theorem Saved.foldersIn {records : Records} (h : Saved s t records t') : t.FoldersIn t' := by
  obtain ⟨text, t₁, t₂, -, hmake, hwrite, hnumbered⟩ := h
  have hfolders : t.FoldersIn t₂ :=
    (Tree.makeFoldersFrom_eq_ok hmake).2.trans (Tree.foldersIn_of_eq (Tree.write_eq_ok hwrite).1.symm)
  split at hnumbered
  · exact hfolders.trans (Tree.foldersIn_of_eq (Tree.remove_eq_ok hnumbered).1.symm)
  · exact hnumbered ▸ hfolders

/-- What a store holds after a run: the records as they are read back, or what it held before if
those mean the same. -/
theorem Committed.held {r final : Records} {stale : Bool} (h : Committed s t r stale final t')
    (ht : t.Sound) (hheld : s.held t = .ok (r, stale)) (hfinal : final.Sound)
    (hwritable : final.isWritable = true) :
    t'.Sound ∧ t.FoldersIn t' ∧ ∃ r', s.held t' = .ok (r', false) ∧
      (r' = final.stored ∨ (r' = r ∧ final.toJson.same r.toJson = true)) := by
  rcases h with ⟨rfl, hsame, rfl⟩ | hsaved
  · exact ⟨ht, .refl _, r, hheld, Or.inr ⟨rfl, hsame⟩⟩
  · exact ⟨(hsaved.files ht).1, hsaved.foldersIn, final.stored,
      held_of_saved hsaved ht hfinal hwritable, Or.inl rfl⟩

/-- A change of the records that was made in a run of its own. -/
theorem update_ok {f : Records → Records} (hsession : w.drafts.lookup s.session = none)
    (h : (s.update f).run.run w = (.ok (), w')) :
    ∃ t r stale, w.files.makeFolder s.lockFile.parent = .ok t ∧ s.held t = .ok (r, stale) ∧
      (f r).isWritable = true ∧ Committed s t r stale (f r) w'.files ∧ w'.locks = w.locks ∧
      w'.drafts = w.drafts ∧ w'.outside = w.outside := by
  obtain ⟨t, r, stale, notes, w₂, d, hmake, hheld, hbody, hd, hwritable, hcommitted, hlocks,
    hdrafts, houtside⟩ := withRecords_ok hsession (fun h hh => .change f hh) h
  have hfinal : d.sets[d.current]?.getD {} = f r := by
    cases hbody
    simp only [opened, List.map_cons, List.lookup_cons_self, Option.some.injEq] at hd
    simp [← hd]
  have hchange : w₂.outside = w.outside := by
    cases hbody
    rfl
  rw [hfinal] at hwritable hcommitted
  exact ⟨t, r, stale, hmake, hheld, hwritable, hcommitted, hlocks, hdrafts, houtside.trans hchange⟩

end Store

end UpgradeSafety.Manifest
