import Mathlib.Logic.Relation
import UpgradeSafety.Proofs.Manifest.Addresses
import UpgradeSafety.Proofs.Manifest.AtRest
import UpgradeSafety.Proofs.Manifest.Names

/-!
# Files with numbered names

A network that is well known may still have its records in a file with its numbered name. Whatever
is done with its stores, there is never a file with either name if there was not at the start. The
first run that succeeds takes over the records of the numbered file, with what the run did to them,
into the file with the name of the network, and removes the numbered file for good
(`Site.numberedFile_retired`).

A run that fails leaves every file as it was. One that succeeds and found a numbered file had to
write, even if its body changed nothing, and writing ends with the removal. So by induction on the
operations there are never two files (`atMostOne_of_operates`), the numbered one stays as it is
until a run succeeds, and once it is gone it does not come back. `TookOver` ties the three texts
together: what the numbered file held, what the body was given and left, and what the other file
holds afterwards.

At the end a proxy is added to a numbered file that holds one already.
-/

namespace UpgradeSafety.Manifest

open Files Stateful

variable {σ α : Type} {site : Site} {s : Store} {w w' : Workspace σ} {t t' : Tree} {r final : Records}

/-! ## Names -/

theorem Site.numberedFile_ne_file (h : (networkName? site.chainId).isSome = true) :
    site.numberedFile ≠ site.file := by
  intro heq
  have hparts := congrArg (fun p : Path => p.parts.getLast?) heq
  simp only [Site.numberedFile, Site.file, Path.child, List.getLast?_append, List.getLast?_singleton,
    Option.some_or, Option.some.injEq] at hparts
  exact networkName_ne_numberedName h ((String.append_left_inj ".json").mp hparts).symm

/-! ## The two files -/

/-- The content of the file with the name of a network. -/
def Site.fileContent? (site : Site) (t : Tree) : Option (List UInt8) :=
  t.contentAt? site.file.location

/-- The content of the file with the numbered name of a network. -/
def Site.numberedContent? (site : Site) (t : Tree) : Option (List UInt8) :=
  t.contentAt? site.numberedFile.location

/-- There are no two files for a network. -/
def Site.AtMostOne (site : Site) (t : Tree) : Prop :=
  site.fileContent? t = none ∨ site.numberedContent? t = none

theorem Site.location_ne (h : (networkName? site.chainId).isSome = true) :
    site.numberedFile.location ≠ site.file.location := by
  have hname := networkName_ne_numberedName h
  rw [Site.numberedFile, Site.file, Path.location_child (Store.ending_ne_up _),
    Path.location_child (Store.ending_ne_up _)]
  intro heq
  have hlast := List.singleton_inj.mp (List.append_cancel_left heq)
  exact hname ((String.append_left_inj ".json").mp hlast).symm

/-! ## Runs -/

namespace Store

theorem place?_file (hmake : t.makeFolder s.site.folder = .ok t') :
    t'.place? s.site.file = some s.site.file.location ∧
      t'.place? s.site.numberedFile = some s.site.numberedFile.location := by
  have hfolder := (Tree.place?_of_makeFolder hmake).1
  rw [Site.file, Site.numberedFile, Tree.place?_child (ending_ne_up _),
    Tree.place?_child (ending_ne_up _), hfolder, Path.location_child (ending_ne_up _),
    Path.location_child (ending_ne_up _)]
  exact ⟨rfl, rfl⟩

/-- What a store holds when there is a numbered file: the records in it, which have to be written. -/
theorem held_numbered (hdev : s.development = none) (hknown : (networkName? s.site.chainId).isSome = true)
    (hhas : t.has s.site.numberedFile = true) {stale : Bool} (hheld : s.held t = .ok (r, stale)) :
    s.currentFile? t = .ok (some s.site.numberedFile) ∧ stale = true := by
  have hne := Site.numberedFile_ne_file hknown
  have hcurrent : s.currentFile? t = s.site.currentFile? t := by
    unfold currentFile? developmentFile?
    rw [hdev]
    rfl
  unfold held at hheld
  rw [hcurrent, Site.currentFile?, if_pos (by simp [hne, hhas])] at hheld ⊢
  by_cases hfile : t.has s.site.file = true
  · rw [if_pos hfile] at hheld
    cases hheld
  · rw [if_neg hfile] at hheld ⊢
    refine ⟨rfl, ?_⟩
    dsimp only at hheld
    split at hheld
    · cases hheld
    · cases hheld
    · obtain ⟨⟨records, migrated⟩, -, heq⟩ := map_eq_ok_iff.mp hheld
      obtain ⟨-, rfl⟩ := Prod.mk.inj heq
      rw [file_of_development_none hdev, bne_iff_ne.mpr hne, Bool.or_true]

/-- After records were saved the file with the name of the network has them, and there is no numbered
file. -/
theorem Saved.contents (hdev : s.development = none)
    (hknown : (networkName? s.site.chainId).isSome = true) (h : Saved s t final t') :
    t'.read s.site.file = .ok (Text.utf8Bytes (final.toJson.writeIndented 0 ++ "\n")) ∧
      s.site.numberedContent? t' = none := by
  obtain ⟨text, t₁, t₂, htext, hmake, hwrite, hnumbered⟩ := h
  obtain ⟨-, rfl⟩ := fileText_eq_ok htext
  rw [parent_file hdev, parent_lockFile hdev] at hmake
  obtain ⟨hfolders, hread⟩ := Tree.write_eq_ok hwrite
  have hplaces := place?_file hmake
  rw [file_of_development_none hdev] at hread
  split at hnumbered
  · obtain ⟨hfolders', q, hq, hnone, -, hothers⟩ := Tree.remove_eq_ok hnumbered
    obtain rfl := Tree.eq_location hq
    refine ⟨Tree.read_congr hfolders'.symm (fun q hq => (hothers q ?_).symm) hread, hnone⟩
    rintro rfl
    exact Site.location_ne hknown (Tree.eq_location hq)
  · rename_i hcond
    subst hnumbered
    refine ⟨hread, ?_⟩
    by_contra hsome
    obtain ⟨content, hcontent⟩ := Option.ne_none_iff_exists'.mp hsome
    refine hcond ?_
    have hhas : t'.has s.site.numberedFile = true := Tree.has_of_content
      ((Tree.place?_congr hfolders _).trans hplaces.2) hcontent
    simp [hdev, Site.numberedFile_ne_file hknown, hhas]

theorem files_read (s : Store) (w : Workspace σ) : (s.read.run.run w).2.files = w.files := by
  unfold read
  rw [run_bind_of_ok run_currentHandle?]
  cases w.drafts.lookup s.session with
  | some d => rfl
  | none =>
    obtain ⟨notes, hload⟩ := run_load s w
    dsimp only [Option.map_none]
    rw [run_bind, hload]
    cases s.held w.files <;> rfl

/-- The records of the numbered file were taken over by a run: its body was given what the store read
from that file, and the file with the name of the network has the records that the body left. -/
def TookOver (s : Store) (w w' : Workspace σ) (content : List UInt8) (body : Handle → Act σ α) (a : α) :
    Prop :=
  ∃ t r notes w₂ d, w.files.makeFolder s.site.folder = .ok t ∧
    s.currentFile? t = .ok (some s.site.numberedFile) ∧ t.read s.site.numberedFile = .ok content ∧
    s.held t = .ok (r, true) ∧
    (body ⟨s.session, 0⟩).run.run (s.opened t r notes w) = (.ok a, w₂) ∧
    w₂.drafts.lookup s.session = some d ∧
    w'.files.read s.site.file = .ok (Text.utf8Bytes
      ((d.sets[d.current]?.getD {}).toJson.writeIndented 0 ++ "\n")) ∧
    (w.files.Sound → (d.sets[d.current]?.getD {}).Sound →
      s.held w'.files = .ok ((d.sets[d.current]?.getD {}).stored, false))

/-- A run that succeeds leaves no numbered file. If there was one, its records were taken over. -/
theorem withRecords_numbered {body : Handle → Act σ α} {a : α} (hdev : s.development = none)
    (hknown : (networkName? s.site.chainId).isSome = true)
    (hsession : w.drafts.lookup s.session = none)
    (hbody : ∀ h, h.session = s.session → Body s (s.Idle w) (body h))
    (h : (s.withRecords body).run.run w = (.ok a, w')) :
    s.site.numberedContent? w'.files = none ∧
      ∀ content, s.site.numberedContent? w.files = some content → s.TookOver w w' content body a := by
  obtain ⟨t, r, stale, notes, w₂, d, hmake, hheld, hresult, hd, hwritable, hcommitted, -, -, -⟩ :=
    withRecords_ok hsession hbody h
  rw [parent_lockFile hdev] at hmake
  have hplace := (place?_file hmake).2
  have hsame : s.site.numberedContent? t = s.site.numberedContent? w.files :=
    congrArg (fun files => List.lookup s.site.numberedFile.location files)
      (Tree.makeFoldersFrom_eq_ok hmake).1
  have hnumbered : ∀ content, s.site.numberedContent? t = some content →
      s.currentFile? t = .ok (some s.site.numberedFile) ∧ stale = true := fun content hcontent =>
    held_numbered hdev hknown (Tree.has_of_content hplace hcontent) hheld
  rcases hcommitted with ⟨rfl, -, hfiles⟩ | hsaved
  · have hnone : s.site.numberedContent? t = none := by
      by_contra hsome
      obtain ⟨content, hcontent⟩ := Option.ne_none_iff_exists'.mp hsome
      cases (hnumbered content hcontent).2
    rw [hfiles, ← hsame, hnone]
    exact ⟨rfl, nofun⟩
  · obtain ⟨hread, hnone⟩ := hsaved.contents hdev hknown
    refine ⟨hnone, fun content hcontent => ?_⟩
    rw [← hsame] at hcontent
    obtain ⟨hcurrent, rfl⟩ := hnumbered content hcontent
    exact ⟨t, r, notes, w₂, d, hmake, hcurrent, Tree.read_of_content hplace hcontent, hheld, hresult,
      hd, hread, fun hsound hfinal =>
        held_of_saved hsaved (hsound.makeFoldersFrom hmake) hfinal hwritable⟩

end Store

/-! ## Sequences of operations -/

/-- An operation that concerns a network, and whether it is a run that succeeded. Beside runs of its
stores and reading outside of runs, it may be anything that leaves its two files as they are. -/
inductive Site.Operates (site : Site) : Workspace σ → Workspace σ → Bool → Prop
  | run {α : Type} {s : Store} {body : Handle → Act σ α} {w w' : Workspace σ}
      {result : Except Failure α} : s.site = site → s.development = none →
      w.drafts.lookup s.session = none →
      (∀ h, h.session = s.session → Store.Body s (s.Idle w) (body h)) →
      (s.withRecords body).run.run w = (result, w') → Operates site w w' result.isOk
  | read {s : Store} {w w' : Workspace σ} {result : Except Failure Records} : s.site = site →
      s.read.run.run w = (result, w') → Operates site w w' false
  | elsewhere {w w' : Workspace σ} : site.fileContent? w'.files = site.fileContent? w.files →
      site.numberedContent? w'.files = site.numberedContent? w.files → Operates site w w' false

namespace Site

/-- After an operation the two files are as before, unless it is a run that succeeded. -/
theorem Operates.contents {ok : Bool} (hknown : (networkName? site.chainId).isSome = true)
    (h : site.Operates w w' ok) :
    (ok = true ∧ site.numberedContent? w'.files = none) ∨
      (site.fileContent? w'.files = site.fileContent? w.files ∧
        site.numberedContent? w'.files = site.numberedContent? w.files) := by
  cases h with
  | @run α s body w w' result hsite hdev hsession hbody hrun =>
    subst hsite
    cases result with
    | ok a => exact Or.inl ⟨rfl, (Store.withRecords_numbered hdev hknown hsession hbody hrun).1⟩
    | error e =>
      have hfiles := (Store.withRecords_error hsession hbody hrun).1.files
      refine Or.inr ⟨?_, ?_⟩ <;> exact congrArg (List.lookup _) hfiles
  | @read s w w' result hsite hrun =>
    have hfiles := Store.files_read s w
    rw [hrun] at hfiles
    rw [show w'.files = w.files from hfiles]
    exact Or.inr ⟨rfl, rfl⟩
  | elsewhere hfile hnumbered => exact Or.inr ⟨hfile, hnumbered⟩

/-- There never are two files for a network if there were not at the start. -/
theorem atMostOne_of_operates (hknown : (networkName? site.chainId).isSome = true)
    (h : Relation.ReflTransGen (fun v v' => ∃ ok, site.Operates v v' ok) w w')
    (hone : site.AtMostOne w.files) : site.AtMostOne w'.files := by
  induction h with
  | refl => exact hone
  | tail _ hstep ih =>
    obtain ⟨ok, hstep⟩ := hstep
    rcases hstep.contents hknown with ⟨-, hnone⟩ | ⟨hfile, hnumbered⟩
    · exact Or.inr hnone
    · unfold AtMostOne at ih ⊢
      rwa [hfile, hnumbered]

/-- A numbered file that is not there never comes back. -/
theorem numberedContent?_of_operates (hknown : (networkName? site.chainId).isSome = true)
    (h : Relation.ReflTransGen (fun v v' => ∃ ok, site.Operates v v' ok) w w')
    (hnone : site.numberedContent? w.files = none) : site.numberedContent? w'.files = none := by
  induction h with
  | refl => exact hnone
  | tail _ hstep ih =>
    obtain ⟨ok, hstep⟩ := hstep
    rcases hstep.contents hknown with ⟨-, hnone⟩ | ⟨-, hnumbered⟩
    · exact hnone
    · rw [hnumbered, ih]

/-- A numbered file stays as it is as long as no run succeeds. -/
theorem numberedContent?_of_unsuccessful (hknown : (networkName? site.chainId).isSome = true)
    (h : Relation.ReflTransGen (fun v v' => site.Operates v v' false) w w') :
    site.numberedContent? w'.files = site.numberedContent? w.files := by
  induction h with
  | refl => rfl
  | tail _ hstep ih =>
    rcases hstep.contents hknown with ⟨hok, -⟩ | ⟨-, hnumbered⟩
    · cases hok
    · rw [hnumbered, ih]

/-- The numbered file of a well-known network is given up without loss: there never are two files, and
the first run that succeeds leaves no numbered file for good and takes over its records. -/
theorem numberedFile_retired (hknown : (networkName? site.chainId).isSome = true)
    (hone : site.AtMostOne w.files) :
    (∀ w', Relation.ReflTransGen (fun v v' => ∃ ok, site.Operates v v' ok) w w' →
      site.AtMostOne w'.files) ∧
    ∀ (w₁ w' : Workspace σ) (s : Store) (body : Handle → Act σ α) (a : α),
      Relation.ReflTransGen (fun v v' => site.Operates v v' false) w w₁ →
      s.site = site → s.development = none → w₁.drafts.lookup s.session = none →
      (∀ h, h.session = s.session → Store.Body s (s.Idle w₁) (body h)) →
      (s.withRecords body).run.run w₁ = (.ok a, w') →
      (∀ w'', Relation.ReflTransGen (fun v v' => ∃ ok, site.Operates v v' ok) w' w'' →
        site.numberedContent? w''.files = none) ∧
      ∀ content, site.numberedContent? w.files = some content →
        s.TookOver w₁ w' content body a := by
  refine ⟨fun w' hsteps => atMostOne_of_operates hknown hsteps hone,
    fun w₁ w' s body a hbefore hsite hdev hsession hbody hrun => ?_⟩
  subst hsite
  obtain ⟨hnone, htook⟩ := Store.withRecords_numbered hdev hknown hsession hbody hrun
  refine ⟨fun w'' hsteps => numberedContent?_of_operates hknown hsteps hnone,
    fun content hcontent => htook content ?_⟩
  rw [numberedContent?_of_unsuccessful hknown hbefore, hcontent]

end Site

/-! ## The main network -/

/-- The folder of the main store with a numbered file. -/
def numberedTree (content : List UInt8) : Tree where
  files := [([".proxyguard", "unknown-1.json"], content)]
  folders := [[".proxyguard"]]

/-- The folder of the main store once the numbered file was taken over. -/
def renamedTree (content : List UInt8) : Tree where
  files := [([".proxyguard", "mainnet.json"], content)]
  folders := [[".proxyguard"]]

theorem currentFile?_numberedTree (content : List UInt8) :
    Store.mainStore.currentFile? (numberedTree content) =
      .ok (some Store.mainStore.site.numberedFile) := rfl

theorem read_numberedTree (content : List UInt8) :
    (numberedTree content).read Store.mainStore.site.numberedFile = .ok content := rfl

theorem held_numberedTree {r : Records} (hr : r.Proper) :
    Store.mainStore.held (numberedTree (Store.content r)) = .ok (r.stored, true) := by
  rw [Store.held_of_written (currentFile?_numberedTree _) (read_numberedTree _) hr.sound
    hr.isWritable hr.isWritable_toJson]
  rfl

/-- Saving writes the file with the name of the network, and removes the numbered one. -/
theorem run_save_numberedTree {w : Workspace σ} {content : List UInt8} {r : Records}
    (h : w.files = numberedTree content) (hr : r.Proper) :
    ∃ log, (Store.mainStore.save r : Act σ Unit).run.run w =
      (.ok (), { w with files := renamedTree (Store.content r), log := log }) := by
  obtain ⟨text, htext⟩ := hr.exists_fileText
  have hbytes : Text.utf8Bytes text = Store.content r :=
    congrArg Text.utf8Bytes (Store.fileText_eq_ok htext).2
  have hmake : w.files.makeFolder Store.mainStore.file.parent = .ok w.files := by
    rw [h]
    rfl
  have hwrite : w.files.write Store.mainStore.file (Store.content r) =
      .ok ⟨(numberedTree content).files ++ (renamedTree (Store.content r)).files,
        [[".proxyguard"]]⟩ := by
    rw [h]
    rfl
  have hremove : Tree.remove ⟨(numberedTree content).files ++ (renamedTree (Store.content r)).files,
      [[".proxyguard"]]⟩ Store.mainStore.site.numberedFile =
        .ok (renamedTree (Store.content r)) := rfl
  have hcond : (Store.mainStore.development.isNone &&
      Store.mainStore.site.numberedFile != Store.mainStore.site.file &&
        Tree.has ⟨(numberedTree content).files ++ (renamedTree (Store.content r)).files,
          [[".proxyguard"]]⟩ Store.mainStore.site.numberedFile) = true := rfl
  unfold Store.save
  rw [run_bind, Act.run_onFiles, hmake]
  dsimp only
  rw [run_bind, Act.run_ofResult, htext]
  dsimp only
  rw [hbytes, run_bind, Act.run_replaceFile rfl (Store.ending_ne_up "mainnet") hwrite]
  dsimp only
  rw [run_bind_of_ok run_get, if_pos hcond, run_bind, Act.run_onFiles, hremove]
  exact ⟨_, rfl⟩

/-- A run of the main store that changes the records of a numbered file takes them over as changed. -/
theorem run_change_numberedTree {w : Workspace σ} {r : Records} {f : Records → Records}
    (h : w.files = numberedTree (Store.content r)) (hdrafts : w.drafts = []) (hlocks : w.locks = [])
    (hr : r.Proper) (hf : (f r.stored).Proper) :
    ∃ w', (Store.mainStore.withRecords (Store.change · f)).run.run w = (.ok (), w') ∧
      w'.files = renamedTree (Store.content (f r.stored)) := by
  have hsession : w.drafts.lookup Store.mainStore.session = none := by rw [hdrafts]; rfl
  have hmake : w.files.makeFolder Store.mainStore.lockFile.parent =
      .ok (numberedTree (Store.content r)) := by
    rw [h]
    rfl
  obtain ⟨notes, hrun⟩ := Store.run_withRecords_opened (Store.change · f) hsession hmake
    (by rw [hlocks]; exact List.not_mem_nil) rfl (held_numberedTree hr) hr.stored.isWritable
  have hchange : (Store.change ⟨Store.mainStore.session, 0⟩ f : Act σ Unit).run.run
      (Store.mainStore.opened (numberedTree (Store.content r)) r.stored notes w) =
        (.ok (), Store.mainStore.opened (numberedTree (Store.content r)) (f r.stored) notes w) := by
    unfold Store.opened
    rw [hdrafts]
    rfl
  have hcurrent : (Store.mainStore.current : Act σ Records).run.run
      (Store.mainStore.opened (numberedTree (Store.content r)) (f r.stored) notes w) =
        (.ok (f r.stored),
          Store.mainStore.opened (numberedTree (Store.content r)) (f r.stored) notes w) :=
    Store.run_current (d := ⟨[f r.stored], 0⟩) rfl
  obtain ⟨log, hsave⟩ := run_save_numberedTree
    (w := Store.mainStore.opened (numberedTree (Store.content r)) (f r.stored) notes w) rfl hf
  rw [hrun]
  unfold Store.conclude
  rw [run_bind_of_ok hchange, run_bind_of_ok hcurrent, run_bind, Act.run_ofResult, Records.encode,
    written, if_pos hf.isWritable]
  dsimp only
  rw [Bool.true_or, if_pos rfl, run_bind_of_ok hsave]
  exact ⟨_, rfl, rfl⟩

/-- The records of a numbered file: a proxy. -/
def numberedRecords : Records := ({} : Records).addProxy ⟨"0xa", none, .uups⟩

/-- A workspace with nothing but a numbered file. -/
def numberedWorkspace : Workspace Unit :=
  { files := numberedTree (Store.content numberedRecords), outside := () }

/-- A run that adds a proxy to the records of a numbered file. -/
def addingProxy (h : Handle) : Act Unit Unit := Store.change h (·.addProxy ⟨"0xb", none, .transparent⟩)

theorem numberedFile_retired_addProxy : ∃ w', (networkName? 1).isSome = true ∧
    Store.mainStore.site.AtMostOne numberedWorkspace.files ∧
    (Store.mainStore.withRecords addingProxy).run.run numberedWorkspace = (.ok (), w') ∧
    Store.mainStore.site.numberedContent? w'.files = none ∧
    Store.mainStore.TookOver numberedWorkspace w' (Store.content numberedRecords) addingProxy () ∧
    Store.mainStore.held w'.files =
      .ok ({ proxies := [⟨"0xa", none, .uups⟩, ⟨"0xb", none, .transparent⟩] }, false) := by
  have hproper : numberedRecords.Proper := Records.proper_empty.addProxy _
  have hadded := hproper.stored.addProxy ⟨"0xb", none, .transparent⟩
  obtain ⟨w', hrun, hfiles⟩ := run_change_numberedTree (w := numberedWorkspace) rfl rfl rfl hproper
    (f := (·.addProxy ⟨"0xb", none, .transparent⟩)) hadded
  have hone : Store.mainStore.site.AtMostOne numberedWorkspace.files := Or.inl rfl
  obtain ⟨-, hretired⟩ := Site.numberedFile_retired rfl hone
  obtain ⟨hnone, htook⟩ := hretired numberedWorkspace w' Store.mainStore addingProxy () .refl rfl rfl
    rfl (fun _ h => .change _ h) hrun
  refine ⟨w', rfl, hone, hrun, hnone w' .refl, htook _ rfl, ?_⟩
  rw [hfiles, Store.held_of_written (p := Store.mainStore.file) rfl rfl hadded.sound hadded.isWritable
    hadded.isWritable_toJson]
  have hrecords : (numberedRecords.stored.addProxy ⟨"0xb", none, .transparent⟩).stored =
      { proxies := [⟨"0xa", none, .uups⟩, ⟨"0xb", none, .transparent⟩] } := rfl
  rw [hrecords, bne_self_eq_false]

end UpgradeSafety.Manifest
