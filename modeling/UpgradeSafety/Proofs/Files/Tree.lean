import Mathlib
import UpgradeSafety.Files.Tree
import UpgradeSafety.Proofs.Runs

/-!
# Changing a tree of files

Making folders takes nothing away, and where all folders are there already it changes nothing
(`Tree.makeFoldersFrom_eq_self`). A file that was written is there with its content
(`Tree.write_eq_ok`), and the removal of another file leaves it there (`Tree.remove_eq_ok`). Places
depend on nothing but the folders. A file that is written beside another one and then takes its
place is written as if at once (`Tree.write_pathBeside_eq_ok`).

A tree is two lists, so what is said of it is said by looking up places: each change has one lemma
that tells what is at every place afterwards, and later proofs use these and not the lists. Paths
in one folder differ when their names do (`place?_child_ne`), so that what is done to one file of a
folder is seen to leave the others alone. A tree in which no file stands where a folder stands is
*sound* (`Tree.Sound`); each change keeps it sound.
-/

namespace UpgradeSafety.Files.Tree

variable {t t' u : Tree}

/-! ## Folders -/

/-- The folders of a tree are folders of the other one. -/
def FoldersIn (t u : Tree) : Prop := ∀ q, t.isFolderAt q = true → u.isFolderAt q = true

theorem FoldersIn.refl (t : Tree) : t.FoldersIn t := fun _ h => h

theorem FoldersIn.trans {v : Tree} (h : t.FoldersIn u) (h' : u.FoldersIn v) : t.FoldersIn v :=
  fun q hq => h' q (h q hq)

theorem isFolderAt_congr (h : t.folders = u.folders) (q : Place) :
    t.isFolderAt q = u.isFolderAt q := by
  rw [isFolderAt, isFolderAt, h]

theorem foldersIn_of_eq (h : t.folders = u.folders) : t.FoldersIn u :=
  fun q hq => (isFolderAt_congr h q).symm.trans hq

theorem place?_congr (h : t.folders = u.folders) (p : Path) : t.place? p = u.place? p := by
  have hstep : t.step = u.step := by
    funext q part
    rw [step, step, isFolderAt_congr h]
  rw [place?, place?, hstep]

theorem isFolder_congr (h : t.folders = u.folders) (p : Path) : t.isFolder p = u.isFolder p := by
  rw [isFolder, isFolder, place?_congr h]
  congr 1
  funext q
  exact isFolderAt_congr h q

theorem addFolder_eq_ok {q : Place} {last : Bool} (h : t.addFolder q last = .ok t') :
    t'.files = t.files ∧ t.FoldersIn t' ∧ t'.isFolderAt q = true := by
  unfold addFolder at h
  split at h
  · rename_i hfolder
    cases h
    exact ⟨rfl, .refl _, hfolder⟩
  · split at h
    · cases h
    · cases h
      refine ⟨rfl, fun r hr => ?_, ?_⟩
      · simp only [isFolderAt, Bool.or_eq_true, List.contains_append] at hr ⊢
        tauto
      · simp [isFolderAt]

theorem makeFoldersFrom_eq_ok {parts : List String} {q : Place}
    (h : t.makeFoldersFrom q parts = .ok t') : t'.files = t.files ∧ t.FoldersIn t' := by
  induction parts generalizing t q with
  | nil =>
    cases h
    exact ⟨rfl, .refl _⟩
  | cons part rest ih =>
    rw [makeFoldersFrom] at h
    split at h
    · exact ih h
    · obtain ⟨t₁, hadd, hrest⟩ := bind_eq_ok_iff.mp h
      obtain ⟨hfiles, hfolders, -⟩ := addFolder_eq_ok hadd
      obtain ⟨hfiles', hfolders'⟩ := ih hrest
      exact ⟨hfiles'.trans hfiles, hfolders.trans hfolders'⟩

/-- Folders that are there are not made again. -/
theorem makeFoldersFrom_eq_self {parts : List String} {q : Place}
    (h : t.makeFoldersFrom q parts = .ok t') (hu : t'.FoldersIn u) :
    u.makeFoldersFrom q parts = .ok u := by
  induction parts generalizing t q with
  | nil => rfl
  | cons part rest ih =>
    rw [makeFoldersFrom] at h ⊢
    split at h
    · rename_i hup
      rw [if_pos hup]
      exact ih h
    · rename_i hup
      obtain ⟨t₁, hadd, hrest⟩ := bind_eq_ok_iff.mp h
      have hthere := hu _ ((makeFoldersFrom_eq_ok hrest).2 _ (addFolder_eq_ok hadd).2.2)
      rw [if_neg hup, addFolder, if_pos hthere]
      exact ih hrest

/-! ## Files -/

theorem put_folders (t : Tree) (q : Place) (content : List UInt8) :
    (t.put q content).folders = t.folders := by
  unfold put
  split <;> rfl

theorem lookup_replace {files : List (Place × List UInt8)} {q : Place} (content : List UInt8)
    (h : files.any (·.1 == q) = true) :
    (files.map fun f => if f.1 == q then (q, content) else f).lookup q = some content := by
  induction files with
  | nil => cases h
  | cons f files ih =>
    rw [List.map_cons]
    by_cases hf : f.1 = q
    · rw [if_pos (beq_iff_eq.mpr hf), List.lookup_cons_self]
    · rw [List.any_cons, beq_false_of_ne hf, Bool.false_or] at h
      rw [if_neg (by simpa using hf), List.lookup_cons, beq_false_of_ne (Ne.symm hf)]
      exact ih h

theorem lookup_append_new {files : List (Place × List UInt8)} {q : Place} (content : List UInt8)
    (h : ¬ files.any (·.1 == q) = true) : (files ++ [(q, content)]).lookup q = some content := by
  induction files with
  | nil => exact List.lookup_cons_self
  | cons f files ih =>
    rw [List.any_cons, Bool.or_eq_true, beq_iff_eq, not_or] at h
    rw [List.cons_append, List.lookup_cons, beq_false_of_ne (Ne.symm h.1)]
    exact ih h.2

theorem contentAt?_put (t : Tree) (q : Place) (content : List UInt8) :
    (t.put q content).contentAt? q = some content := by
  unfold put
  split
  · rename_i hany
    exact lookup_replace content hany
  · rename_i hany
    exact lookup_append_new content hany

theorem contentAt?_filter (t : Tree) (q r : Place) :
    ({ t with files := t.files.filter (·.1 != q) } : Tree).contentAt? r =
      if r = q then none else t.contentAt? r := by
  unfold contentAt?
  induction t.files with
  | nil => simp
  | cons f files ih =>
    obtain ⟨s, c⟩ := f
    by_cases hs : s = q
    · subst hs
      rw [List.filter_cons_of_neg (by simp), ih]
      split
      · rfl
      · rename_i hr
        rw [List.lookup_cons, beq_false_of_ne hr]
    · rw [List.filter_cons_of_pos (by simpa using hs), List.lookup_cons, List.lookup_cons]
      by_cases hr : r = s
      · subst hr
        simp [hs]
      · rw [beq_false_of_ne hr]
        exact ih

theorem has_of_content {p : Path} {q : Place} {content : List UInt8} (hq : t.place? p = some q)
    (hcontent : t.contentAt? q = some content) : t.has p = true := by
  rw [has, hq, Option.any_some, hcontent, Option.isSome_some, Bool.or_true]

theorem read_of_content {p : Path} {q : Place} {content : List UInt8} (hq : t.place? p = some q)
    (hcontent : t.contentAt? q = some content) : t.read p = .ok content := by
  rw [read, hq]
  dsimp only
  rw [hcontent]

theorem read_eq_ok_iff {p : Path} {content : List UInt8} :
    t.read p = .ok content ↔ ∃ q, t.place? p = some q ∧ t.contentAt? q = some content := by
  constructor
  · intro h
    unfold read at h
    split at h
    · cases h
    · rename_i q hq
      split at h
      · rename_i content' hcontent
        cases h
        exact ⟨q, hq, hcontent⟩
      · split at h
        · cases h
        · split at h <;> cases h
  · rintro ⟨q, hq, hcontent⟩
    exact read_of_content hq hcontent

/-- A file that was written is there; the folders stay as they are. -/
theorem write_eq_ok {p : Path} {content : List UInt8} (h : t.write p content = .ok t') :
    t'.folders = t.folders ∧ t'.read p = .ok content := by
  unfold write at h
  split at h
  · cases h
  · rename_i q hq
    split at h
    · cases h
    · split at h
      · cases h
        refine ⟨put_folders t q content, read_eq_ok_iff.mpr ⟨q, ?_, contentAt?_put t q content⟩⟩
        rw [place?_congr (put_folders t q content), hq]
      · cases h

/-- A file that was removed is gone, and files at other places are still there. -/
theorem remove_eq_ok {p : Path} (h : t.remove p = .ok t') :
    t'.folders = t.folders ∧ ∃ q, t.place? p = some q ∧ t'.contentAt? q = none ∧
      (t.contentAt? q).isSome ∧ ∀ r ≠ q, t'.contentAt? r = t.contentAt? r := by
  rw [remove] at h
  obtain ⟨content, hread, h⟩ := bind_eq_ok_iff.mp h
  obtain ⟨q, hq, hcontent⟩ := read_eq_ok_iff.mp hread
  rw [hq] at h
  cases h
  refine ⟨rfl, q, hq, ?_, by simp [hcontent], fun r hr => ?_⟩
  · rw [contentAt?_filter, if_pos rfl]
  · rw [contentAt?_filter, if_neg hr]

/-! ## Files in a folder -/

theorem place?_child {p : Path} {name : String} (h : name ≠ "..") :
    t.place? (p.child name) = (t.place? p).map (· ++ [name]) := by
  have hstep : ∀ q : Place, t.step q name = some (q ++ [name]) := fun q => by
    rw [step, if_neg (by simpa using h)]
  unfold place?
  rw [Path.child, List.foldlM_append]
  change (p.parts.foldlM t.step (start p)).bind _ = _
  cases p.parts.foldlM t.step (start p) with
  | none => rfl
  | some q => simp [hstep]

theorem lookup_replace_other {files : List (Place × List UInt8)} {q r : Place}
    (content : List UInt8) (h : r ≠ q) :
    (files.map fun f => if f.1 == q then (q, content) else f).lookup r = files.lookup r := by
  induction files with
  | nil => rfl
  | cons f files ih =>
    obtain ⟨s, c⟩ := f
    rw [List.map_cons]
    by_cases hs : s = q
    · subst hs
      rw [if_pos (by simp), List.lookup_cons, List.lookup_cons, beq_false_of_ne h]
      exact ih
    · rw [if_neg (by simpa using hs), List.lookup_cons, List.lookup_cons, ih]

theorem contentAt?_put_other {q r : Place} {content : List UInt8} (h : r ≠ q) :
    (t.put q content).contentAt? r = t.contentAt? r := by
  unfold put
  split
  · exact lookup_replace_other content h
  · change (t.files ++ [(q, content)]).lookup r = t.files.lookup r
    rw [List.lookup_append, List.lookup_cons, beq_false_of_ne h, List.lookup_nil, Option.or_none]

theorem place?_child_ne {p : Path} {name other : String} (hname : name ≠ "..") (hother : other ≠ "..")
    (hne : name ≠ other) {q : Place} (hq : t.place? (p.child name) = some q) :
    t.place? (p.child other) ≠ some q := by
  intro hq'
  rw [place?_child hname] at hq
  rw [place?_child hother] at hq'
  obtain ⟨r, hr, rfl⟩ := Option.map_eq_some_iff.mp hq
  obtain ⟨r', hr', heq⟩ := Option.map_eq_some_iff.mp hq'
  exact hne (List.singleton_inj.mp (List.append_inj' heq rfl).2.symm)

theorem remove_of_read {p : Path} {content : List UInt8} (h : t.read p = .ok content) :
    ∃ t', t.remove p = .ok t' := by
  obtain ⟨q, hq, -⟩ := read_eq_ok_iff.mp h
  unfold remove
  rw [h, hq]
  exact ⟨_, rfl⟩

theorem has_congr {p : Path} (hfolders : t.folders = u.folders)
    (hcontent : ∀ q, t.place? p = some q → t.contentAt? q = u.contentAt? q) :
    t.has p = u.has p := by
  unfold has
  rw [← place?_congr hfolders]
  cases hq : t.place? p with
  | none => rfl
  | some q => rw [Option.any_some, Option.any_some, isFolderAt_congr hfolders, hcontent q hq]

theorem read_congr {p : Path} {content : List UInt8} (hfolders : t.folders = u.folders)
    (hcontent : ∀ q, t.place? p = some q → t.contentAt? q = u.contentAt? q)
    (h : t.read p = .ok content) : u.read p = .ok content := by
  obtain ⟨q, hq, hread⟩ := read_eq_ok_iff.mp h
  exact read_of_content ((place?_congr hfolders p).symm.trans hq) ((hcontent q hq).symm.trans hread)

/-- What was written in a folder under another name leaves the file of a name as it is. -/
theorem write_child_other {p : Path} {name other : String} {content : List UInt8}
    (hname : name ≠ "..") (hother : other ≠ "..") (hne : name ≠ other)
    (h : t.write (p.child name) content = .ok t') :
    t'.folders = t.folders ∧
      ∀ q, t.place? (p.child other) = some q → t.contentAt? q = t'.contentAt? q := by
  refine ⟨(write_eq_ok h).1, fun q hq => ?_⟩
  unfold write at h
  split at h
  · cases h
  · rename_i r hr
    have hqr : q ≠ r := fun heq => place?_child_ne hname hother hne hr (heq ▸ hq)
    split at h
    · cases h
    · split at h
      · cases h
        exact (contentAt?_put_other hqr).symm
      · cases h

/-! ## A file beside another one -/

/-- The path beside another one has a name that nothing has. -/
theorem pathBeside_eq (t : Tree) (p : Path) : ∃ name, t.pathBeside p = p.parent.child name ∧
    1 < name.length ∧ name ≠ ".." ∧ ∀ r : Place, r ++ [name] ∉ t.files.map (·.1) ++ t.folders := by
  let length (q : Place) := (q.getLastD "").length
  let name := "." ++ p.parts.getLastD "" ++ "." ++
    "".pushn '_' (((t.files.map (·.1) ++ t.folders).map length).foldl (· + ·) 0) ++ ".tmp"
  have hlength : name.length = 6 + (p.parts.getLastD "").length +
      ((t.files.map (·.1) ++ t.folders).map length).sum := by
    rw [List.sum_eq_foldl]
    have hdot : ".".length = 1 := rfl
    have hending : ".tmp".length = 4 := rfl
    simp only [name, String.length_append, String.length_pushn, String.length_empty, hdot, hending]
    omega
  refine ⟨name, rfl, by omega, fun h => ?_, fun r hr => ?_⟩
  · have htwo : "..".length = 2 := rfl
    rw [h] at hlength
    omega
  · have hle : length (r ++ [name]) ≤ _ := List.le_sum_of_mem (List.mem_map_of_mem hr)
    have hlast : length (r ++ [name]) = name.length := by simp [length]
    omega

/-- What was written beside a path takes its place there, and can be removed. -/
theorem write_pathBeside_eq_ok {p : Path} {content : List UInt8}
    (h : t.write (t.pathBeside p) content = .ok t') :
    t'.rename (t.pathBeside p) p = t.write p content ∧ t'.remove (t.pathBeside p) = .ok t := by
  obtain ⟨name, hpath, -, hup, hnew⟩ := pathBeside_eq t p
  have hplace := place?_child (t := t) (p := p.parent) hup
  rw [← hpath] at hplace
  unfold write at h
  split at h
  · cases h
  · rename_i q hq
    obtain ⟨r, -, rfl⟩ := Option.map_eq_some_iff.mp (hplace.symm.trans hq)
    have hfiles : ∀ f ∈ t.files, f.1 ≠ r ++ [name] := fun f hf hr =>
      hnew r (List.mem_append_left _ (hr ▸ List.mem_map_of_mem hf))
    split at h
    · cases h
    · split at h
      · cases h
        have hread : (t.put (r ++ [name]) content).read (t.pathBeside p) = .ok content := by
          apply read_of_content (q := r ++ [name])
          · rw [place?_congr (put_folders t _ content), hq]
          · exact contentAt?_put t _ content
        have hput : t.put (r ++ [name]) content =
            { t with files := t.files ++ [(r ++ [name], content)] } := by
          rw [put, if_neg]
          rw [List.any_eq_true]
          rintro ⟨f, hf, heq⟩
          exact hfiles f hf (by simpa using heq)
        have hremove : (t.put (r ++ [name]) content).remove (t.pathBeside p) = .ok t := by
          rw [remove, hread, ok_bind, place?_congr (put_folders t _ content), hq, hput]
          have hkept : t.files.filter (fun f => f.1 != r ++ [name]) = t.files :=
            List.filter_eq_self.mpr fun f hf => by simpa using hfiles f hf
          simp [hkept]
        refine ⟨?_, hremove⟩
        rw [rename, hread, hremove]
        rfl
      · cases h

theorem write_eq_ok_iff {p : Path} {content : List UInt8} :
    t.write p content = .ok t' ↔ ∃ q, t.place? p = some q ∧ t.isFolderAt q = false ∧
      t.isFolderAt q.dropLast = true ∧ t' = t.put q content := by
  unfold write
  cases hq : t.place? p with
  | none => simp
  | some q =>
    by_cases hfolder : t.isFolderAt q = true
    · simp [hfolder]
    · by_cases hparent : t.isFolderAt q.dropLast = true
      · simp only [hfolder, hparent, Option.some.injEq]
        constructor
        · rintro ⟨⟩
          exact ⟨q, rfl, Bool.eq_false_of_not_eq_true hfolder, hparent, rfl⟩
        · rintro ⟨_, rfl, -, -, rfl⟩
          rfl
      · simp [hfolder, hparent]

/-- A file can be written beside a path whose folder is there. -/
theorem write_pathBeside_of_folder {p : Path} {r : Place} (hr : t.place? p.parent = some r)
    (hfolder : t.isFolderAt r = true) (content : List UInt8) :
    ∃ u, t.write (t.pathBeside p) content = .ok u := by
  obtain ⟨beside, hpath, hlength, hup, hnew⟩ := pathBeside_eq t p
  refine ⟨_, write_eq_ok_iff.mpr ⟨r ++ [beside], ?_, ?_, by rwa [List.dropLast_concat], rfl⟩⟩
  · rw [hpath, place?_child hup, hr, Option.map_some]
  · have hroot : r ++ [beside] ≠ ["/"] := fun heq => by
      cases r with
      | nil =>
        rw [List.singleton_inj.mp heq] at hlength
        exact absurd hlength (by decide)
      | cons part r => simp at heq
    have hfolders : r ++ [beside] ∉ t.folders := fun hmem =>
      hnew r (List.mem_append_right _ hmem)
    simp [isFolderAt, hroot, hfolders]

/-- Where a file can be written, one can be written beside it. -/
theorem write_pathBeside_of_write {p : Path} {name : String} {content : List UInt8}
    (hp : p = p.parent.child name) (hname : name ≠ "..")
    (h : t.write p content = .ok t') :
    ∃ u, t.write (t.pathBeside p) content = .ok u := by
  obtain ⟨q, hq, -, hparent, -⟩ := write_eq_ok_iff.mp h
  rw [hp, place?_child hname] at hq
  obtain ⟨r, hr, rfl⟩ := Option.map_eq_some_iff.mp hq
  rw [List.dropLast_concat] at hparent
  exact write_pathBeside_of_folder hr hparent content

/-! ## Trees of files and folders -/

/-- No file stands where a folder stands. -/
def Sound (t : Tree) : Prop := ∀ q, t.isFolderAt q = true → t.contentAt? q = none

theorem sound_empty : ({} : Tree).Sound := fun _ _ => rfl

theorem Sound.addFolder {q : Place} {last : Bool} (h : t.Sound) (hadd : t.addFolder q last = .ok t') :
    t'.Sound := by
  unfold Tree.addFolder at hadd
  split at hadd
  · cases hadd
    exact h
  · split at hadd
    · cases hadd
    · rename_i hfile
      cases hadd
      intro r hr
      by_cases heq : r = q
      · subst heq
        exact Option.not_isSome_iff_eq_none.mp hfile
      · refine h r ?_
        simpa [isFolderAt, heq] using hr

theorem Sound.makeFoldersFrom {parts : List String} {q : Place} (h : t.Sound)
    (hmake : t.makeFoldersFrom q parts = .ok t') : t'.Sound := by
  induction parts generalizing t q with
  | nil =>
    cases hmake
    exact h
  | cons part rest ih =>
    rw [Tree.makeFoldersFrom] at hmake
    split at hmake
    · exact ih h hmake
    · obtain ⟨t₁, hadd, hrest⟩ := bind_eq_ok_iff.mp hmake
      exact ih (h.addFolder hadd) hrest

theorem Sound.write {p : Path} {content : List UInt8} (h : t.Sound)
    (hwrite : t.write p content = .ok t') : t'.Sound := by
  unfold Tree.write at hwrite
  split at hwrite
  · cases hwrite
  · rename_i q hq
    split at hwrite
    · cases hwrite
    · rename_i hfolder
      split at hwrite
      · cases hwrite
        intro r hr
        rw [isFolderAt_congr (put_folders t q content)] at hr
        have hne : r ≠ q := fun heq => hfolder (heq ▸ hr)
        rw [contentAt?_put_other hne]
        exact h r hr
      · cases hwrite

/-- A file that was removed is gone. -/
theorem Sound.has_of_remove {p : Path} (h : t.Sound) (hremove : t.remove p = .ok t') :
    t'.has p = false := by
  obtain ⟨hfolders, q, hq, hnone, hsome, -⟩ := remove_eq_ok hremove
  have hfolder : t.isFolderAt q = false := by
    by_contra hfolder
    rw [h q (by simpa using hfolder)] at hsome
    cases hsome
  rw [has, place?_congr hfolders, hq, Option.any_some, isFolderAt_congr hfolders, hfolder, hnone]
  rfl

theorem Sound.remove {p : Path} (h : t.Sound) (hremove : t.remove p = .ok t') : t'.Sound := by
  obtain ⟨hfolders, q, -, hnone, -, hothers⟩ := remove_eq_ok hremove
  intro r hr
  rw [isFolderAt_congr hfolders] at hr
  by_cases heq : r = q
  · rw [heq, hnone]
  · rw [hothers r heq]
    exact h r hr

/-! ## Folders where there was nothing -/

/-- Where a path without double points leads. -/
theorem place?_of_down {p : Path} (h : ".." ∉ p.parts) : t.place? p = some (start p ++ p.parts) := by
  unfold place?
  generalize start p = q
  generalize p.parts = parts at h
  induction parts generalizing q with
  | nil => simp
  | cons part parts ih =>
    rw [List.mem_cons, not_or] at h
    rw [List.foldlM_cons, step, if_neg (by simpa using Ne.symm h.1)]
    change parts.foldlM t.step (q ++ [part]) = _
    rw [ih (h := h.2), List.append_assoc, List.singleton_append]

/-- Where there are no files, all folders on the way can be made. -/
theorem makeFoldersFrom_of_files_nil {parts : List String} (q : Place) (hfiles : t.files = [])
    (h : ".." ∉ parts) (hq : t.isFolderAt q = true) :
    ∃ t', t.makeFoldersFrom q parts = .ok t' ∧ t'.files = [] ∧
      t'.isFolderAt (q ++ parts) = true ∧
      ∀ r, t'.isFolderAt r = true → t.isFolderAt r = true ∨ r.length ≤ q.length + parts.length := by
  induction parts generalizing t q with
  | nil => exact ⟨t, rfl, hfiles, by rwa [List.append_nil], fun r hr => Or.inl hr⟩
  | cons part parts ih =>
    rw [List.mem_cons, not_or] at h
    obtain ⟨t₁, hadd⟩ : ∃ t₁, t.addFolder (q ++ [part]) parts.isEmpty = .ok t₁ := by
      have hcontent : (t.contentAt? (q ++ [part])).isSome = false := by
        rw [contentAt?, hfiles]
        rfl
      unfold addFolder
      split
      · exact ⟨t, rfl⟩
      · rw [if_neg (by simp [hcontent])]
        exact ⟨_, rfl⟩
    obtain ⟨hsame, -, hfolder⟩ := addFolder_eq_ok hadd
    have hadded : ∀ r, t₁.isFolderAt r = true → t.isFolderAt r = true ∨ r = q ++ [part] := by
      unfold addFolder at hadd
      split at hadd
      · cases hadd
        exact fun r hr => Or.inl hr
      · split at hadd
        · cases hadd
        · cases hadd
          intro r hr
          simp only [isFolderAt, Bool.or_eq_true, List.contains_iff_mem, List.mem_append,
            List.mem_singleton] at hr ⊢
          tauto
    obtain ⟨t', hmake, hfiles', hplace, hfolders⟩ := ih (q ++ [part]) (hsame.trans hfiles) h.2 hfolder
    refine ⟨t', ?_, hfiles', ?_, fun r hr => ?_⟩
    · rw [makeFoldersFrom, if_neg (by simpa using Ne.symm h.1), hadd]
      exact hmake
    · rwa [List.append_assoc, List.singleton_append] at hplace
    · simp only [List.length_append, List.length_cons, List.length_nil] at hfolders ⊢
      rcases hfolders r hr with hr | hr
      · rcases hadded r hr with hr | rfl
        · exact Or.inl hr
        · right
          simp
      · right
        omega

theorem has_of_files_nil {p : Path} (hfiles : t.files = []) (hfolder : t.isFolder p = false) :
    t.has p = false := by
  unfold has isFolder at *
  cases hq : t.place? p with
  | none => rfl
  | some q =>
    rw [hq, Option.any_some] at hfolder
    rw [Option.any_some, hfolder, contentAt?, hfiles]
    rfl

theorem ne_up_of_length {name : String} (h : 2 < name.length) : name ≠ ".." := by
  rintro rfl
  exact absurd h (by decide)

/-- A folder that is made where there was nothing is empty. -/
theorem makeFolder_empty {p : Path} (hdown : ".." ∉ p.parts) :
    ∃ t, ({} : Tree).makeFolder p = .ok t ∧ t.files = [] ∧
      ∀ name : String, 2 < name.length → ∃ q, t.place? (p.child name) = some q ∧
        t.isFolderAt q = false ∧ t.isFolderAt q.dropLast = true := by
  obtain ⟨t, hmake, hfiles, hfolder, hfolders⟩ := makeFoldersFrom_of_files_nil (t := {}) (start p)
    rfl hdown (by unfold start; split <;> rfl)
  refine ⟨t, hmake, hfiles, fun name hname => ⟨start p ++ p.parts ++ [name], ?_, ?_, ?_⟩⟩
  · rw [place?_child (ne_up_of_length hname), place?_of_down hdown]
    rfl
  · by_contra hcontra
    rcases hfolders _ (by simpa using hcontra) with hroot | hlength
    · have hplace : start p ++ p.parts ++ [name] = ["/"] := by
        simpa [isFolderAt] using hroot
      obtain rfl : name = "/" := by simpa using congrArg (·.getLastD "") hplace
      exact absurd hname (by decide)
    · simp at hlength
  · rwa [List.dropLast_concat]

end UpgradeSafety.Files.Tree
