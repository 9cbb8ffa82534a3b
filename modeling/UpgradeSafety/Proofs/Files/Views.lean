import UpgradeSafety.Proofs.Files.Locations

/-!
# Views of a tree

Somebody who works on certain files sees a part of a tree: the places of the files, and what lies
on the way to their folders (`View`). Trees that look alike in a view are read alike, and what is
done in it to both ends alike and leaves them alike (`View.Alike`). They may differ in folders on
the way that one tree has already and the other has not yet: whoever needs such a folder makes it.

The difference in folders is what makes this more than equality on a set of places. It is harmless
only where the first tree has nothing at such a place, so that the folder can be made there as
well; and only while no file of the view stands on the way to one of its folders (`View.Clear`),
since otherwise making a folder in one tree and finding it in the other would not come to the same.
Under this condition making folders, writing and removing are gone through one after the other,
each of them with its failures (`SameEnd`).
-/

namespace UpgradeSafety.Files

/-- Folders, and files that stand in them or may be put there. -/
structure View where
  folders : List Path
  files : List Path

/-! ## Making folders -/

namespace Tree

theorem addFolder_cases (t : Tree) (q : Place) (last : Bool) :
    (t.isFolderAt q = false ∧ (t.contentAt? q).isSome = true ∧
      t.addFolder q last = .error (.fault (if last then .fileExists else .notADirectory))) ∨
    ((t.isFolderAt q = true ∨ t.contentAt? q = none) ∧ ∃ t', t.addFolder q last = .ok t') := by
  unfold addFolder
  by_cases hfolder : t.isFolderAt q = true
  · rw [if_pos hfolder]
    exact Or.inr ⟨Or.inl hfolder, t, rfl⟩
  · rw [if_neg hfolder]
    by_cases hfile : (t.contentAt? q).isSome = true
    · rw [if_pos hfile]
      exact Or.inl ⟨Bool.eq_false_of_not_eq_true hfolder, hfile, rfl⟩
    · rw [if_neg hfile]
      exact Or.inr ⟨Or.inr (Option.not_isSome_iff_eq_none.mp hfile), _, rfl⟩

theorem isFolderAt_addFolder {t t' : Tree} {q : Place} {last : Bool} (h : t.addFolder q last = .ok t')
    (r : Place) : t'.isFolderAt r = (t.isFolderAt r || r == q) := by
  unfold addFolder at h
  split at h
  · rename_i hfolder
    cases h
    by_cases hrq : r = q
    · rw [hrq, hfolder, Bool.true_or]
    · rw [beq_false_of_ne hrq, Bool.or_false]
  · split at h
    · cases h
    · cases h
      simp only [isFolderAt, List.contains_append, List.contains_cons, List.contains_nil,
        Bool.or_false, Bool.or_assoc]

/-- Folders are made on the way only, and where nothing stands. -/
theorem isFolderAt_of_makeFoldersFrom {t t' : Tree} {parts : List String} {q r : Place}
    (h : t.makeFoldersFrom q parts = .ok t') (hr : t'.isFolderAt r = true) :
    t.isFolderAt r = true ∨ (Path.OnWayFrom q parts r ∧ t.contentAt? r = none) := by
  induction parts generalizing t q with
  | nil =>
    cases h
    exact Or.inl hr
  | cons part rest ih =>
    have hstep : Path.OnWayFrom (Path.stepTo q part) rest r → Path.OnWayFrom q (part :: rest) r :=
      Path.OnWayFrom.cons
    unfold Path.stepTo at hstep
    rw [makeFoldersFrom] at h
    split at h
    · rename_i hup
      rw [if_pos hup] at hstep
      exact (ih h).imp_right (And.imp_left hstep)
    · rename_i hup
      rw [if_neg hup] at hstep
      obtain ⟨t₁, hadd, h⟩ := bind_eq_ok_iff.mp h
      have hsame : t₁.contentAt? r = t.contentAt? r := by
        rw [contentAt?, contentAt?, (addFolder_eq_ok hadd).1]
      rcases ih h with hfolder | ⟨hway, hnone⟩
      · rw [isFolderAt_addFolder hadd, Bool.or_eq_true, beq_iff_eq] at hfolder
        rcases hfolder with hfolder | rfl
        · exact Or.inl hfolder
        · rcases addFolder_cases t (q ++ [part]) rest.isEmpty with ⟨-, -, herror⟩ | ⟨hfree, -⟩
          · rw [herror] at hadd
            cases hadd
          · exact hfree.imp_right fun hnone => ⟨hstep (Path.onWayFrom_self _ _), hnone⟩
      · exact Or.inr ⟨hstep hway, hsame.symm.trans hnone⟩

end Tree

/-! ## Looking alike -/

namespace View

/-- A place is that of a file. -/
def Holds (v : View) (q : Place) : Prop := ∃ p ∈ v.files, p.location = q

/-- A place lies on the way to a folder. -/
def Passes (v : View) (q : Place) : Prop := ∃ g ∈ v.folders, g.OnWay q

/-- Every file stands in one of the folders, and none stands on the way to a folder. -/
structure Clear (v : View) : Prop where
  inside : ∀ p ∈ v.files, ∃ g ∈ v.folders, ∃ name, name ≠ ".." ∧ p = g.child name
  apart : ∀ q, v.Passes q → ¬ v.Holds q

/-- The paths of the folders lead somewhere, whether or not the folders are there. -/
def Reached (v : View) (t : Tree) : Prop := ∀ g ∈ v.folders, t.place? g = some g.location

/-- Two trees look alike. In the second one more folders may be there, on the way to the folders of the
view, where the first one has nothing. -/
structure Alike (v : View) (t u : Tree) : Prop where
  content : ∀ q, v.Holds q ∨ v.Passes q → t.contentAt? q = u.contentAt? q
  folder : ∀ q, v.Holds q → t.isFolderAt q = u.isFolderAt q
  made : ∀ q, v.Passes q → t.isFolderAt q = true → u.isFolderAt q = true
  free : ∀ q, v.Passes q → u.isFolderAt q = true → t.isFolderAt q = true ∨ t.contentAt? q = none
  left_reached : v.Reached t
  right_reached : v.Reached u

/-- Two operations on trees that look alike end alike. -/
inductive SameEnd (v : View) : Except Failure Tree → Except Failure Tree → Prop
  | ok {t u : Tree} : v.Alike t u → SameEnd v (.ok t) (.ok u)
  | error (e : Failure) : SameEnd v (.error e) (.error e)

variable {v : View} {t u : Tree} {p g : Path} {q : Place}

theorem Alike.refl (h : v.Reached t) : v.Alike t t :=
  ⟨fun _ _ => rfl, fun _ _ => rfl, fun _ _ h => h, fun _ _ h => Or.inl h, h, h⟩

theorem Reached.mono (h : v.Reached t) (hin : t.FoldersIn u) : v.Reached u :=
  fun g hg => Tree.place?_mono hin (h g hg)

/-! ## Reading -/

theorem Reached.place? (h : v.Reached t) (hv : v.Clear) (hp : p ∈ v.files) :
    t.place? p = some p.location := by
  obtain ⟨g, hg, name, hname, rfl⟩ := hv.inside p hp
  rw [Tree.place?_child hname, h g hg, Path.location_child hname]
  rfl

theorem holds_location (hp : p ∈ v.files) : v.Holds p.location := ⟨p, hp, rfl⟩

/-- What lies above a file is on the way to its folder. -/
theorem Clear.passes_above (hv : v.Clear) (hp : p ∈ v.files) (hq : q ∈ Tree.placesAbove p.location) :
    v.Passes q := by
  obtain ⟨g, hg, name, hname, rfl⟩ := hv.inside p hp
  obtain ⟨n, hn, rfl⟩ := List.mem_map.mp hq
  rw [Path.location_child hname] at hn ⊢
  rw [List.mem_range, List.length_append, List.length_singleton] at hn
  rw [List.take_append_of_le_length (by omega)]
  exact ⟨g, hg, Path.onWay_location_take g n⟩

namespace Alike

theorem has_eq (h : v.Alike t u) (hv : v.Clear) (hp : p ∈ v.files) : t.has p = u.has p := by
  have hholds := holds_location hp
  rw [Tree.has, Tree.has, h.left_reached.place? hv hp, h.right_reached.place? hv hp, Option.any_some,
    Option.any_some, h.folder _ hholds, h.content _ (Or.inl hholds)]

theorem isFolder_eq (h : v.Alike t u) (hv : v.Clear) (hp : p ∈ v.files) :
    t.isFolder p = u.isFolder p := by
  rw [Tree.isFolder, Tree.isFolder, h.left_reached.place? hv hp, h.right_reached.place? hv hp,
    Option.any_some, Option.any_some, h.folder _ (holds_location hp)]

theorem read_eq (h : v.Alike t u) (hv : v.Clear) (hp : p ∈ v.files) : t.read p = u.read p := by
  have hholds := holds_location hp
  have habove : (Tree.placesAbove p.location).any (fun q => (t.contentAt? q).isSome) =
      (Tree.placesAbove p.location).any (fun q => (u.contentAt? q).isSome) := by
    rw [Bool.eq_iff_iff, List.any_eq_true, List.any_eq_true]
    refine exists_congr fun q => and_congr_right fun hq => ?_
    rw [h.content q (Or.inr (hv.passes_above hp hq))]
  unfold Tree.read
  rw [h.left_reached.place? hv hp, h.right_reached.place? hv hp]
  dsimp only
  rw [h.content _ (Or.inl hholds), h.folder _ hholds, habove]

/-! ## Making folders in both -/

theorem addFolder (h : v.Alike t u) (hq : v.Passes q) (last : Bool) :
    v.SameEnd (t.addFolder q last) (u.addFolder q last) := by
  have hcontent := h.content q (Or.inr hq)
  rcases Tree.addFolder_cases t q last with ⟨ht, hfile, hadd⟩ | ⟨ht, t', hadd⟩ <;>
    rcases Tree.addFolder_cases u q last with ⟨hu, hfile', hadd'⟩ | ⟨hu, u', hadd'⟩ <;>
    rw [hadd, hadd']
  · exact .error _
  · rw [hcontent] at hfile
    rcases hu with hu | hu
    · rcases h.free q hq hu with hu | hu
      · rw [hu] at ht
        cases ht
      · rw [← hcontent, hu] at hfile
        cases hfile
    · rw [hu] at hfile
      cases hfile
  · rcases ht with ht | ht
    · rw [h.made q hq ht] at hu
      cases hu
    · rw [← hcontent, ht] at hfile'
      cases hfile'
  · obtain ⟨hfiles, hin, -⟩ := Tree.addFolder_eq_ok hadd
    obtain ⟨hfiles', hin', -⟩ := Tree.addFolder_eq_ok hadd'
    have hsame : ∀ r, t'.contentAt? r = t.contentAt? r := fun r => by
      rw [Tree.contentAt?, Tree.contentAt?, hfiles]
    have hsame' : ∀ r, u'.contentAt? r = u.contentAt? r := fun r => by
      rw [Tree.contentAt?, Tree.contentAt?, hfiles']
    refine .ok ⟨fun r hr => ?_, fun r hr => ?_, fun r hr => ?_, fun r hr => ?_,
      h.left_reached.mono hin, h.right_reached.mono hin'⟩
    · rw [hsame, hsame', h.content r hr]
    · rw [Tree.isFolderAt_addFolder hadd, Tree.isFolderAt_addFolder hadd', h.folder r hr]
    · rw [Tree.isFolderAt_addFolder hadd, Tree.isFolderAt_addFolder hadd', Bool.or_eq_true,
        Bool.or_eq_true]
      exact Or.imp_left (h.made r hr)
    · rw [Tree.isFolderAt_addFolder hadd, Tree.isFolderAt_addFolder hadd', Bool.or_eq_true,
        Bool.or_eq_true, hsame]
      rintro (hr' | hr')
      · exact (h.free r hr hr').imp_left Or.inl
      · exact Or.inl (Or.inr hr')

theorem makeFoldersFrom {parts : List String} (h : v.Alike t u)
    (hparts : ∀ r, Path.OnWayFrom q parts r → v.Passes r) :
    v.SameEnd (t.makeFoldersFrom q parts) (u.makeFoldersFrom q parts) := by
  induction parts generalizing t u q with
  | nil => exact .ok h
  | cons part rest ih =>
    have hstep : ∀ r, Path.OnWayFrom (Path.stepTo q part) rest r → v.Passes r :=
      fun r hr => hparts r hr.cons
    unfold Path.stepTo at hstep
    rw [Tree.makeFoldersFrom, Tree.makeFoldersFrom]
    split
    · rename_i hup
      rw [if_pos hup] at hstep
      exact ih h hstep
    · rename_i hup
      rw [if_neg hup] at hstep
      have hadd := h.addFolder (hstep _ (Path.onWayFrom_self _ _)) rest.isEmpty
      generalize t.addFolder (q ++ [part]) rest.isEmpty = x at hadd ⊢
      generalize u.addFolder (q ++ [part]) rest.isEmpty = y at hadd ⊢
      cases hadd with
      | ok halike => exact ih halike hstep
      | error e => exact .error e

/-- A folder of the view can be made in both trees or in none. -/
theorem makeFolder (h : v.Alike t u) (hg : g ∈ v.folders) :
    v.SameEnd (t.makeFolder g) (u.makeFolder g) :=
  h.makeFoldersFrom fun _ hr => ⟨g, hg, hr⟩

/-! ## Changing files -/

/-- Trees with the same folders as before, whose contents at the places of files change alike. -/
theorem of_contents {t' u' : Tree} (h : v.Alike t u) (hv : v.Clear) (hq : v.Holds q)
    (hfolders : t'.folders = t.folders) (hfolders' : u'.folders = u.folders)
    (hself : t'.contentAt? q = u'.contentAt? q)
    (hothers : ∀ r ≠ q, t'.contentAt? r = t.contentAt? r)
    (hothers' : ∀ r ≠ q, u'.contentAt? r = u.contentAt? r) : v.Alike t' u' := by
  have hfolderAt := Tree.isFolderAt_congr hfolders
  have hfolderAt' := Tree.isFolderAt_congr hfolders'
  refine ⟨fun r hr => ?_, fun r hr => ?_, fun r hr => ?_, fun r hr => ?_,
    h.left_reached.mono (Tree.foldersIn_of_eq hfolders.symm),
    h.right_reached.mono (Tree.foldersIn_of_eq hfolders'.symm)⟩
  · by_cases hrq : r = q
    · rw [hrq, hself]
    · rw [hothers r hrq, hothers' r hrq, h.content r hr]
  · rw [hfolderAt, hfolderAt', h.folder r hr]
  · rw [hfolderAt, hfolderAt']
    exact h.made r hr
  · have hrq : r ≠ q := by
      rintro rfl
      exact hv.apart r hr hq
    rw [hfolderAt, hfolderAt', hothers r hrq]
    exact h.free r hr

/-- A file is written in a folder that is there in both trees. -/
theorem write {name : String} (h : v.Alike t u) (hv : v.Clear) (hp : p ∈ v.files)
    (hchild : p = g.child name) (hname : name ≠ "..") (hfolder : t.isFolderAt g.location = true)
    (hfolder' : u.isFolderAt g.location = true) (content : List UInt8) :
    v.SameEnd (t.write p content) (u.write p content) := by
  have hholds := holds_location hp
  have habove : p.location.dropLast = g.location := by
    rw [hchild, Path.location_child hname, List.dropLast_concat]
  unfold Tree.write
  rw [h.left_reached.place? hv hp, h.right_reached.place? hv hp]
  dsimp only
  rw [← h.folder _ hholds, habove, hfolder, hfolder']
  split
  · exact .error _
  · refine .ok (h.of_contents hv hholds (Tree.put_folders _ _ _) (Tree.put_folders _ _ _) ?_ ?_ ?_)
    · rw [Tree.contentAt?_put, Tree.contentAt?_put]
    · exact fun r hr => Tree.contentAt?_put_other hr
    · exact fun r hr => Tree.contentAt?_put_other hr

theorem remove (h : v.Alike t u) (hv : v.Clear) (hp : p ∈ v.files) :
    v.SameEnd (t.remove p) (u.remove p) := by
  have hread := h.read_eq hv hp
  unfold Tree.remove
  rw [h.left_reached.place? hv hp, h.right_reached.place? hv hp, ← hread]
  cases t.read p with
  | error e => exact .error e
  | ok content =>
    refine .ok (h.of_contents hv (holds_location hp) rfl rfl ?_ ?_ ?_)
    · rw [Tree.contentAt?_filter, Tree.contentAt?_filter, if_pos rfl, if_pos rfl]
    · exact fun r hr => by rw [Tree.contentAt?_filter, if_neg hr]
    · exact fun r hr => by rw [Tree.contentAt?_filter, if_neg hr]

end Alike

end View

end UpgradeSafety.Files
