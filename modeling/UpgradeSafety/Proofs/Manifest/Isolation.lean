import UpgradeSafety.Proofs.Manifest.Addresses
import UpgradeSafety.Proofs.Manifest.Undisturbed

/-!
# Networks and development chains side by side

Two stores of different networks or instances, whose files do not stand on the way to their folders
(`Store.Apart`), work side by side as if each were alone: with and without what the other one does
in between, a store ends the same and leaves the same files (`Store.undisturbed`).

The two histories are followed together (`SideBySide`): one workspace has seen what both stores
did, the other one what the second store did alone. They agree for the second store throughout. Its
own programs keep the agreement, and what the first one does changes no file of the second, by the
names of their files, and no folder that the second one needs otherwise than it is. A store that
forks the network of the other one reads the files of that network as long as it has none of its
own, and has to be left out then.

Conditions on the paths cannot be done without: a folder may stand where the other one has its
file, and making a folder may open a way through a double point (`not_undisturbed`).
-/

namespace UpgradeSafety.Manifest

open Files Stateful

variable {σ : Type} {s x y : Store} {files : List Path} {w u u' w₀ : Workspace σ} {p : Path} {q : Place}

namespace Store

/-! ## Files that stores do not share -/

/-- Two stores of different networks or instances, none of whose files is on the way to a folder. -/
structure Apart (x y : Store) : Prop where
  session : x.session ≠ y.session
  owner : x.owner ≠ y.owner
  left_plain : x.Plain
  right_plain : y.Plain
  clear : ∀ p ∈ x.ownFiles ++ y.ownFiles ++ y.parentFiles, ∀ g ∈ x.folders ++ y.folders,
    ¬ g.OnWay p.location

theorem Plain.exists_child_own (hs : s.Plain) (hp : p ∈ s.ownFiles) :
    ∃ g ∈ s.folders, ∃ name, p = g.child name ∧
      (name ∈ fileNames s.owner ∨ name = lockName s.owner) := by
  rw [ownFiles, List.mem_cons, List.mem_cons] at hp
  rcases hp with rfl | rfl | hp
  · obtain ⟨name, hname, hfile⟩ := hs.file
    exact ⟨s.folder, s.folder_mem_folders, name, hfile, Or.inl hname⟩
  · exact ⟨s.folder, s.folder_mem_folders, _, hs.lockFile, Or.inr rfl⟩
  · split at hp
    · rename_i hdev
      obtain rfl := List.mem_singleton.mp hp
      refine ⟨s.site.folder, List.mem_cons_self, _, rfl, Or.inl ?_⟩
      rw [owner_of_development_none (Option.isNone_iff_eq_none.mp hdev)]
      exact List.mem_cons_of_mem _ List.mem_cons_self
    · cases hp

theorem exists_child_parent (hp : p ∈ s.parentFiles) : ∃ site ∈ s.parent?,
    ∃ name ∈ fileNames (site.chainId, none), p = s.site.folder.child name := by
  obtain ⟨site, hsite, hp⟩ := List.mem_flatMap.mp hp
  have hsite := Option.mem_toList.mp hsite
  have hfolder : site.folder = s.site.folder := by
    obtain ⟨chainId, -, rfl⟩ := Option.map_eq_some_iff.mp hsite
    rfl
  refine ⟨site, hsite, ?_⟩
  rw [← hfolder]
  rcases List.mem_pair.mp hp with rfl | rfl
  · exact ⟨_, List.mem_cons_self, rfl⟩
  · exact ⟨_, List.mem_cons_of_mem _ List.mem_cons_self, rfl⟩

theorem lockName_ne_up (o : Int × Option String) : lockName o ≠ ".." := by
  intro h
  have hlength := congrArg String.length h
  have hfront : "chain-".length = 6 := rfl
  have hup : "..".length = 2 := rfl
  rw [lockName, String.length_append, String.length_append] at hlength
  omega

theorem exists_mem_ownFiles_of_owns (h : s.Owns q) : ∃ p ∈ s.ownFiles, p.location = q := by
  rcases h with rfl | ⟨hdev, rfl⟩
  · exact ⟨_, List.mem_cons_self, rfl⟩
  · refine ⟨s.site.numberedFile, List.mem_cons_of_mem _ (List.mem_cons_of_mem _ ?_), rfl⟩
    rw [hdev]
    exact List.mem_cons_self

namespace Apart

variable (h : x.Apart y)

include h

/-- A file with a name that is none of a store's is not written or removed by it. -/
theorem not_owns_child {g : Path} {name : String} (hname : name ≠ "..")
    (hother : name ∉ fileNames x.owner) : ¬ x.Owns (g.child name).location := by
  intro howns
  obtain ⟨other, hmem, heq⟩ := h.left_plain.exists_name howns
  rw [Path.location_child hname] at heq
  have hsame := List.singleton_inj.mp (List.append_inj' heq rfl).2
  exact hother (hsame ▸ hmem)

theorem not_owns_own (hp : p ∈ y.ownFiles) : ¬ x.Owns p.location := by
  obtain ⟨g, -, name, rfl, hname⟩ := h.right_plain.exists_child_own hp
  rcases hname with hname | rfl
  · exact h.not_owns_child (ne_up_of_mem_fileNames hname)
      fun hmem => h.owner (eq_of_mem_fileNames hmem hname)
  · exact h.not_owns_child (lockName_ne_up _)
      fun hmem => ne_lockName_of_mem_fileNames hmem _ rfl

theorem not_owns_parent (hparent : ∀ site ∈ y.parent?, x.owner ≠ (site.chainId, none))
    (hp : p ∈ y.parentFiles) : ¬ x.Owns p.location := by
  obtain ⟨site, hsite, name, hname, rfl⟩ := exists_child_parent hp
  exact h.not_owns_child (ne_up_of_mem_fileNames hname)
    fun hmem => hparent site hsite (eq_of_mem_fileNames hmem hname)

theorem lockFile_ne : x.lockFile ≠ y.lockFile := by
  rw [h.left_plain.lockFile, h.right_plain.lockFile]
  intro heq
  have hparts := congrArg Path.parts heq
  exact h.owner (lockName_inj (List.singleton_inj.mp (List.append_inj' hparts rfl).2))

theorem watches (hown : ∀ p ∈ y.ownFiles, p ∈ files)
    (hfiles : ∀ p ∈ files, p ∈ y.ownFiles ∨ p ∈ y.parentFiles) : y.Watches files where
  own := hown
  clear := by
    refine ⟨fun p hp => ?_, ?_⟩
    · rcases hfiles p hp with hp | hp
      · obtain ⟨g, hg, name, rfl, hname⟩ := h.right_plain.exists_child_own hp
        refine ⟨g, hg, name, ?_, rfl⟩
        rcases hname with hname | rfl
        · exact ne_up_of_mem_fileNames hname
        · exact lockName_ne_up _
      · obtain ⟨site, -, name, hname, rfl⟩ := exists_child_parent hp
        exact ⟨_, List.mem_cons_self, name, ne_up_of_mem_fileNames hname, rfl⟩
    · rintro q ⟨g, hg, hway⟩ ⟨p, hp, rfl⟩
      refine h.clear p ?_ g (List.mem_append_right _ hg) hway
      rw [List.mem_append, List.mem_append]
      rcases hfiles p hp with hp | hp
      · exact Or.inl (Or.inr hp)
      · exact Or.inr hp

end Apart

/-! ## What another store does -/

/-- What a program of another store leaves agrees with what was there before. -/
theorem Agree.of_spared (h : y.Agree files w u) (hother : x.Spared u u')
    (hsession : x.session ≠ y.session) (hlock : x.lockFile ≠ y.lockFile)
    (howns : ∀ q, View.Holds ⟨y.folders, files⟩ q ∨ View.Passes ⟨y.folders, files⟩ q → ¬ x.Owns q)
    (hway : ∀ q, View.Holds ⟨y.folders, files⟩ q → ¬ x.folder.OnWay q) :
    y.Agree files { w with outside := u'.outside } u' where
  trees := by
    refine ⟨fun q hq => ?_, fun q hq => ?_, fun q hq hfolder => ?_, fun q hq hfolder => ?_,
      h.trees.left_reached, h.trees.right_reached.mono hother.folders⟩
    · exact (h.trees.content q hq).trans (hother.content q (howns q hq)).symm
    · refine (h.trees.folder q hq).trans (Bool.eq_iff_iff.mpr ⟨hother.folders q, fun hfolder => ?_⟩)
      exact (hother.made q hfolder).resolve_right fun hmade => hway q hq hmade.1
    · exact hother.folders q (h.trees.made q hq hfolder)
    · rcases hother.made q hfolder with hfolder | ⟨-, hnone⟩
      · exact h.trees.free q hq hfolder
      · exact Or.inr ((h.trees.content q (Or.inr hq)).trans (hnone (howns q (Or.inr hq))))
  fork := h.fork
  outside := rfl
  locks := h.locks.trans (hother.locks _ hlock.symm).symm
  draft := h.draft.trans (hother.drafts _ hsession.symm).symm

/-- Two stores work side by side from a workspace on. The first workspace is that without what `x` did,
apart from what it did outside, and the second one is that with it. -/
inductive SideBySide (x y : Store) (w₀ : Workspace σ) : Workspace σ → Workspace σ → Prop
  | start : SideBySide x y w₀ w₀ w₀
  | other {α : Type} {w u : Workspace σ} {a : Act σ α} : SideBySide x y w₀ w u → x.Uses a →
      SideBySide x y w₀ { w with outside := (a.run.run u).2.outside } (a.run.run u).2
  | own {α : Type} {w u : Workspace σ} {a : Act σ α} : SideBySide x y w₀ w u → y.Uses a →
      SideBySide x y w₀ (a.run.run w).2 (a.run.run u).2

theorem Apart.agree (h : x.Apart y) (hown : ∀ p ∈ y.ownFiles, p ∈ files)
    (hfiles : ∀ p ∈ files, p ∈ y.ownFiles ∨ (p ∈ y.parentFiles ∧
      ∀ site ∈ y.parent?, x.owner ≠ (site.chainId, none)))
    (hstart : y.Agree files w₀ w₀) (hside : SideBySide x y w₀ w u) : y.Agree files w u := by
  have hwatches := h.watches hown fun p hp => (hfiles p hp).imp_right And.left
  induction hside with
  | start => exact hstart
  | own _ ha ih => exact (ha.steady hwatches h.right_plain _ _ ih).2
  | other _ ha ih =>
    refine ih.of_spared (ha.spares h.left_plain _) h.session h.lockFile_ne ?_ ?_
    · rintro q (⟨p, hp, rfl⟩ | ⟨g, hg, hway⟩) howns
      · rcases hfiles p hp with hp | ⟨hp, hparent⟩
        · exact h.not_owns_own hp howns
        · exact h.not_owns_parent hparent hp howns
      · obtain ⟨p, hp, rfl⟩ := exists_mem_ownFiles_of_owns howns
        exact h.clear p (List.mem_append_left _ (List.mem_append_left _ hp)) g
          (List.mem_append_right _ hg) hway
    · rintro q ⟨p, hp, rfl⟩
      refine h.clear p ?_ _ (List.mem_append_left _ x.folder_mem_folders)
      rw [List.mem_append, List.mem_append]
      rcases hfiles p hp with hp | ⟨hp, -⟩
      · exact Or.inl (Or.inr hp)
      · exact Or.inr hp

/-- The network that `y` forks is that of `x`. -/
theorem exists_fork_of_parent {site : Site} (hsite : site ∈ y.parent?)
    (howner : x.owner = (site.chainId, none)) :
    x.development = none ∧ ∃ i ∈ y.development, i.forkedChainId = some x.site.chainId := by
  obtain ⟨hchain, hnone⟩ := Prod.mk.inj howner
  obtain ⟨chainId, hforked, rfl⟩ := Option.map_eq_some_iff.mp hsite
  obtain ⟨i, hi, hforked⟩ := Option.bind_eq_some_iff.mp hforked
  exact ⟨Option.map_eq_none_iff.mp hnone, i, hi, hforked.trans (congrArg some hchain.symm)⟩

/-- A store can do with its own files and, unless `x` is the store of the network that it forks, with those
of that network. -/
theorem Apart.exists_files (h : x.Apart y)
    (hreached : ∀ g ∈ y.folders, (w₀.files.place? g).isSome = true)
    (hfork : ∀ i ∈ y.development, i.forkedChainId = some x.site.chainId → x.development = none →
      w₀.files.has y.file = true) :
    ∃ files, y.Watches files ∧ ∀ w u, SideBySide x y w₀ w u → y.Agree files w u := by
  have htrees : ∀ files, View.Alike ⟨y.folders, files⟩ w₀.files w₀.files := by
    refine fun files => .refl fun g hg => ?_
    obtain ⟨q, hq⟩ := Option.isSome_iff_exists.mp (hreached g hg)
    exact hq.trans (congrArg some (Tree.eq_location hq))
  by_cases hparent : ∀ site ∈ y.parent?, x.owner ≠ (site.chainId, none)
  · have hown : ∀ p ∈ y.ownFiles, p ∈ y.ownFiles ++ y.parentFiles :=
      fun p hp => List.mem_append_left _ hp
    have hfiles : ∀ p ∈ y.ownFiles ++ y.parentFiles, p ∈ y.ownFiles ∨ p ∈ y.parentFiles :=
      fun p hp => List.mem_append.mp hp
    have hsites : ∀ site ∈ y.parent?, ∀ p ∈ [site.file, site.numberedFile],
        p ∈ y.ownFiles ++ y.parentFiles := fun site hsite p hp =>
      List.mem_append_right _ (List.mem_flatMap.mpr ⟨site, Option.mem_toList.mpr hsite, hp⟩)
    refine ⟨_, h.watches hown hfiles, fun w u hside => h.agree hown
      (fun p hp => (hfiles p hp).imp_right fun hp => ⟨hp, hparent⟩) ?_ hside⟩
    exact ⟨htrees _, fun site hsite => Or.inl ⟨hsites site hsite _ List.mem_cons_self,
      hsites site hsite _ (List.mem_cons_of_mem _ List.mem_cons_self)⟩, rfl, rfl, rfl⟩
  · have hhas : w₀.files.has y.file = true := by
      rw [not_forall] at hparent
      obtain ⟨site, hparent⟩ := hparent
      obtain ⟨hsite, howner⟩ := Classical.not_imp.mp hparent
      obtain ⟨hdev, i, hi, hforked⟩ := exists_fork_of_parent hsite (not_not.mp howner)
      exact hfork i hi hforked hdev
    refine ⟨y.ownFiles, h.watches (fun p hp => hp) fun p hp => Or.inl hp, fun w u hside =>
      h.agree (fun p hp => hp) (fun p hp => Or.inl hp) ?_ hside⟩
    exact ⟨htrees _, fun site _ => Or.inr hhas, rfl, rfl, rfl⟩

/-- Beside another store, a store ends its programs in the same way and leaves the same files as without
it, unless it forks the network of the other one and has no file yet. A development chain never touches a
file in the folder of the networks. -/
theorem undisturbed (hx : x.Plain) :
    (∀ (y : Store) (w₀ : Workspace σ), x.Apart y →
      (∀ g ∈ y.folders, (w₀.files.place? g).isSome = true) →
      (∀ i ∈ y.development, i.forkedChainId = some x.site.chainId → x.development = none →
        w₀.files.has y.file = true) →
      ∀ (w u : Workspace σ) (α : Type) (a : Act σ α), SideBySide x y w₀ w u → y.Uses a →
        (a.run.run w).1 = (a.run.run u).1 ∧
          ∀ p ∈ y.ownFiles, (a.run.run w).2.files.read p = (a.run.run u).2.files.read p) ∧
    ∀ (i : Instance) (w : Workspace σ) (α : Type) (a : Act σ α) (name : String),
      x.development = some i → i.folder.location ≠ x.site.folder.location → x.Uses a →
        (a.run.run w).2.files.contentAt? (x.site.folder.location ++ [name]) =
          w.files.contentAt? (x.site.folder.location ++ [name]) := by
  refine ⟨fun y w₀ h hreached hfork w u α a hside ha => ?_, fun i w α a name hdev hne ha => ?_⟩
  · obtain ⟨files, hwatches, hagree⟩ := h.exists_files hreached hfork
    obtain ⟨hresult, hafter⟩ := ha.steady hwatches h.right_plain w u (hagree w u hside)
    exact ⟨hresult, fun p hp => hafter.trees.read_eq hwatches.clear (hwatches.own p hp)⟩
  · refine (ha.spares hx w).content _ fun howns => ?_
    obtain ⟨other, -, heq⟩ := hx.exists_name howns
    rw [folder, hdev] at heq
    exact hne (List.append_inj' heq rfl).1.symm

/-! ## A network and a fork of it -/

/-- A development chain that forks the main network. -/
def forkStore : Store where
  session := 1
  site := ⟨31337, ⟨"", [".proxyguard"]⟩⟩
  development := some ⟨"a", some 1, ⟨"", ["tmp", "proxyguard"]⟩⟩
  lockTimeout := 10.0

/-- The records of the fork: a proxy. -/
def forkRecords : Records := ({} : Records).addProxy ⟨"0xf", none, .uups⟩

/-- The fork has its file; nothing is there of the main network. -/
def forkTree : Tree where
  files := [(["tmp", "proxyguard", "dev-31337-a.json"], content forkRecords)]
  folders := [["tmp"], ["tmp", "proxyguard"]]

theorem plain_forkStore : forkStore.Plain := by
  intro i hi
  cases hi
  decide

theorem file_forkStore :
    forkStore.file = ⟨"", ["tmp", "proxyguard", "dev-31337-a.json"]⟩ :=
  join_scope plain_forkStore.ids ⟨"", ["tmp", "proxyguard"]⟩ "dev-" ".json" (by decide) (by decide)
    (by decide)

theorem ownFiles_forkStore : forkStore.ownFiles =
    [⟨"", ["tmp", "proxyguard", "dev-31337-a.json"]⟩,
      ⟨"", ["tmp", "proxyguard", "chain-31337-a.lock"]⟩] := by
  have hlock : forkStore.lockFile = _ := join_scope plain_forkStore.ids ⟨"", ["tmp", "proxyguard"]⟩
    "chain-" ".lock" (by decide) (by decide) (by decide)
  rw [ownFiles, file_forkStore, hlock]
  rfl

theorem apart_forkStore : mainStore.Apart forkStore where
  session := by decide
  owner := by decide
  left_plain := nofun
  right_plain := plain_forkStore
  clear := by
    have hmain : mainStore.ownFiles = [⟨"", [".proxyguard", "mainnet.json"]⟩,
      ⟨"", [".proxyguard", "chain-1.lock"]⟩, ⟨"", [".proxyguard", "unknown-1.json"]⟩] := rfl
    have hparent : forkStore.parentFiles = [⟨"", [".proxyguard", "mainnet.json"]⟩,
      ⟨"", [".proxyguard", "unknown-1.json"]⟩] := rfl
    have hfolders : mainStore.folders ++ forkStore.folders = [⟨"", [".proxyguard"]⟩,
      ⟨"", [".proxyguard"]⟩, ⟨"", [".proxyguard"]⟩, ⟨"", ["tmp", "proxyguard"]⟩] := rfl
    have hapart : ∀ p ∈ mainStore.ownFiles ++ forkStore.ownFiles ++ forkStore.parentFiles,
        ∀ g ∈ mainStore.folders ++ forkStore.folders,
          ".." ∉ g.parts ∧ ¬ p.location <+: Tree.start g ++ g.parts := by
      rw [hmain, ownFiles_forkStore, hparent, hfolders]
      decide +kernel
    exact fun p hp g hg hway => (hapart p hp g hg).2 (hway.isPrefix (hapart p hp g hg).1)

theorem run_read_outside (h : w.drafts.lookup s.session = none) :
    (s.read.run.run w).1 = (s.held w.files).map (·.1) := by
  obtain ⟨notes, hload⟩ := run_load s w
  unfold Store.read
  rw [run_bind_of_ok run_currentHandle?, h]
  dsimp only [Option.map_none]
  rw [run_bind, hload]
  cases s.held w.files <;> rfl

theorem proper_forkRecords : forkRecords.Proper := Records.proper_empty.addProxy _

theorem held_forkTree : forkStore.held forkTree = .ok (forkRecords, false) := by
  have hread : forkTree.read forkStore.file = .ok (content forkRecords) := by
    rw [file_forkStore]
    rfl
  have hhas : forkTree.has forkStore.file = true := by
    rw [file_forkStore]
    rfl
  rw [held_of_written (currentFile?_eq_file hhas nofun) hread proper_forkRecords.sound
    proper_forkRecords.isWritable proper_forkRecords.isWritable_toJson, bne_self_eq_false]
  rfl

/-- The files next to a fork when a run of the main network has begun. -/
theorem ready_beside_forkTree : ∃ t, forkTree.makeFolder mainStore.lockFile.parent = .ok t ∧
    Ready mainStore t ∧ mainStore.held t = .ok ({}, false) := by
  have hfolder : ({} : Tree).makeFolder ⟨"", ["tmp", "proxyguard"]⟩ =
      .ok { forkTree with files := [] } := rfl
  have hfile : Tree.write { forkTree with files := [] }
      ⟨"", ["tmp", "proxyguard", "dev-31337-a.json"]⟩ (content forkRecords) = .ok forkTree := rfl
  have hmake : forkTree.makeFolder mainStore.lockFile.parent =
      .ok { forkTree with folders := forkTree.folders ++ [[".proxyguard"]] } := rfl
  have hsound := (Tree.sound_empty.makeFoldersFrom hfolder).write hfile
  exact ⟨_, hmake, ⟨hsound.makeFoldersFrom hmake, rfl, ⟨_, rfl, rfl, fun _ => ⟨_, rfl⟩⟩, rfl,
    ⟨"mainnet.json", rfl, by decide⟩, fun _ _ => rfl⟩, rfl⟩

theorem Uses.addProxy (proxy : Proxy) : s.Uses (s.addProxy proxy : Act σ Unit) :=
  .bind (.update _) fun _ => .tell _

/-- A run of the main network next to a fork takes over a proxy. -/
theorem run_addProxy_beside : ∃ u : Workspace Unit,
    (mainStore.addProxy ⟨"0xa", none, .uups⟩).run.run { files := forkTree, outside := () } =
      (.ok (), u) ∧
    mainStore.held u.files = .ok ({ proxies := [⟨"0xa", none, .uups⟩] }, false) := by
  obtain ⟨t, hmake, hready, hheld⟩ := ready_beside_forkTree
  have hproper := Records.proper_empty.addProxy ⟨"0xa", none, .uups⟩
  obtain ⟨log, t', hrun, htransacted⟩ := run_told (w := { files := forkTree, outside := () })
    (f := (·.addProxy ⟨"0xa", none, .uups⟩)) rfl hmake List.not_mem_nil hready hheld
    Records.proper_empty hproper _
  obtain ⟨-, r, hheld', -, hr⟩ := htransacted.held hready hheld Records.proper_empty hproper
  rw [if_pos ⟨rfl, by decide +kernel⟩] at hr
  subst hr
  exact ⟨_, hrun, hheld'⟩

/-- The fork does not notice what is recorded for the main network, and leaves it alone. -/
theorem undisturbed_forkStore :
    let w : Workspace Unit := { files := forkTree, outside := () }
    ∃ u, mainStore.Apart forkStore ∧ w.files.has forkStore.file = true ∧
      (mainStore.addProxy ⟨"0xa", none, .uups⟩).run.run w = (.ok (), u) ∧
      mainStore.held u.files = .ok ({ proxies := [⟨"0xa", none, .uups⟩] }, false) ∧
      (forkStore.read.run.run w).1 = .ok forkRecords ∧
      (forkStore.read.run.run u).1 = .ok forkRecords ∧
      ∀ name, ((forkStore.addProxy ⟨"0xe", none, .transparent⟩).run.run u).2.files.contentAt?
          [".proxyguard", name] = u.files.contentAt? [".proxyguard", name] := by
  intro w
  obtain ⟨u, hrun, hheld⟩ := run_addProxy_beside
  have hhas : w.files.has forkStore.file = true := by
    rw [file_forkStore]
    rfl
  have hreached : ∀ g ∈ forkStore.folders, (w.files.place? g).isSome = true := by
    decide +kernel
  have hside : SideBySide mainStore forkStore w w u := by
    have hother : SideBySide mainStore forkStore w _ _ :=
      .other .start (.addProxy ⟨"0xa", none, .uups⟩)
    rwa [hrun] at hother
  have hread : (forkStore.read.run.run w).1 = .ok forkRecords := by
    rw [run_read_outside rfl, held_forkTree]
    rfl
  have hresult := (undisturbed apart_forkStore.left_plain).1 forkStore w apart_forkStore hreached
    (fun _ _ _ _ => hhas) w u Records forkStore.read hside .read
  exact ⟨u, apart_forkStore, hhas, hrun, hheld, hread, hresult.1.symm.trans hread, fun name =>
    (undisturbed plain_forkStore).2 _ u Unit (forkStore.addProxy _) name rfl (by decide +kernel)
      (.addProxy _)⟩

/-! ## Folders in the way of files -/

/-- Where a file of a store is on the way to the folder of another one, or a folder is left by a double
point before it is there, what one store does shows in what the other one does. -/
theorem not_undisturbed :
    (let x : Store := { site := ⟨1, ⟨"", ["tmp", "proxyguard", "dev-1-a.json", "m"]⟩⟩, lockTimeout := 10.0 }
     let y : Store := { x with session := 1, development := some ⟨"a", none, ⟨"", ["tmp", "proxyguard"]⟩⟩ }
     let w : Workspace Unit := { outside := () }
     x.owner ≠ y.owner ∧ x.Plain ∧ y.Plain ∧ x.Uses (x.admin : Act Unit Admin) ∧
      (y.read.run.run w).1 ≠ (y.read.run.run (x.admin.run.run w).2).1) ∧
    (let x : Store := { site := ⟨5, ⟨"", ["x", "..", "m"]⟩⟩, lockTimeout := 10.0 }
     let y : Store := { x with session := 1, site := ⟨1, ⟨"", ["x", "..", "m"]⟩⟩ }
     let w : Workspace Unit :=
      { files := { files := [(["m", "mainnet.json"], [])], folders := [["m"]] }, outside := () }
     x.owner ≠ y.owner ∧ x.Plain ∧ y.Plain ∧ x.Uses (x.admin : Act Unit Admin) ∧
      (y.read.run.run w).1 ≠ (y.read.run.run (x.admin.run.run w).2).1) := by
  refine ⟨?_, ?_⟩
  · intro x y w
    have hy : y.Plain := by
      intro i hi
      cases hi
      decide
    have hfile : y.developmentFile? = some ⟨"", ["tmp", "proxyguard", "dev-1-a.json"]⟩ :=
      congrArg some (join_scope hy.ids ⟨"", ["tmp", "proxyguard"]⟩ "dev-" ".json" (by decide) (by decide)
        (by decide))
    have hbefore : y.held w.files = .ok ({}, false) := by
      unfold held currentFile?
      rw [hfile]
      rfl
    have hmade : (x.admin.run.run w).2.files = { folders := [["tmp"], ["tmp", "proxyguard"],
        ["tmp", "proxyguard", "dev-1-a.json"], ["tmp", "proxyguard", "dev-1-a.json", "m"]] } := by
      decide +kernel +zetaReduce
    have hafter : y.held (x.admin.run.run w).2.files = .error (.fault .isDirectory) := by
      rw [hmade]
      unfold held currentFile?
      rw [hfile]
      rfl
    refine ⟨by decide, fun _ h => absurd h (Option.not_mem_none _), hy, .find _ _, ?_⟩
    rw [run_read_outside rfl, run_read_outside rfl, hbefore, hafter]
    exact fun h => by cases h
  · intro x y w
    refine ⟨by decide, fun _ h => absurd h (Option.not_mem_none _),
      fun _ h => absurd h (Option.not_mem_none _), .find _ _, ?_⟩
    have hbefore : (y.read.run.run w).1.isOk = true := by decide +kernel +zetaReduce
    have hafter : (y.read.run.run (x.admin.run.run w).2).1.isOk = false := by
      decide +kernel +zetaReduce
    intro heq
    rw [heq, hafter] at hbefore
    cases hbefore

end Store

end UpgradeSafety.Manifest
