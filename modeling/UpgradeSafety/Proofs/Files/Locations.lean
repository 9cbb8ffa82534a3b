import UpgradeSafety.Proofs.Files.Tree

/-!
# Locations

Where a path leads when nothing is in the way (`Path.location`): a double point leads to the folder
above, whether or not there is one. A path that leads anywhere leads to its location
(`eq_location`), and once a folder was made its path does (`place?_of_makeFolder`). What lies on
the way along a path is `Path.OnWay`: the places that its beginnings lead to, and what is above
them.

A tree itself answers only for a path that can be walked, and a folder that is not there yet cannot
be left by a double point. So the place of a path may depend on the folders that were made, but
only in that there is none at first: with more folders a path leads where it led before
(`place?_mono`). That is why what is said of stores whose folders may still be missing is said of
locations. Names without slashes lead into the folder itself (`join_of_slashless`), which is how
the files of a store stay in it.
-/

namespace UpgradeSafety.Files

/-- One step of a path. -/
def Path.stepTo (place : Place) (part : String) : Place :=
  if part == ".." then place.dropLast else place ++ [part]

/-- The place that a path leads to when nothing is in the way. -/
def Path.location (p : Path) : Place := p.parts.foldl stepTo (Tree.start p)

theorem Path.location_child {p : Path} {name : String} (h : name ≠ "..") :
    (p.child name).location = p.location ++ [name] := by
  have hstart : Tree.start (p.child name) = Tree.start p := rfl
  have hparts : (p.child name).parts = p.parts ++ [name] := rfl
  rw [location, hparts, hstart, List.foldl_append]
  exact if_neg (by simpa using h)

namespace Tree

variable {t t' : Tree} {p : Path} {q : Place}

/-- A path leads nowhere but to its location. -/
theorem eq_location (h : t.place? p = some q) : q = p.location := by
  unfold place? at h
  unfold Path.location
  generalize start p = place at h ⊢
  generalize p.parts = parts at h ⊢
  induction parts generalizing place with
  | nil =>
    cases h
    rfl
  | cons part rest ih =>
    rw [List.foldlM_cons] at h
    obtain ⟨next, hnext, h⟩ := Option.bind_eq_some_iff.mp h
    rw [List.foldl_cons, ih next h]
    congr 1
    unfold step at hnext
    unfold Path.stepTo
    split at hnext
    · rename_i hup
      rw [if_pos hup]
      split at hnext
      · exact (Option.some.inj hnext).symm
      · cases hnext
    · rename_i hup
      rw [if_neg hup]
      exact (Option.some.inj hnext).symm

/-- All places on the way to a place, and the place itself, are folders. -/
def Open (t : Tree) (q : Place) : Prop := ∀ n, t.isFolderAt (q.take n) = true

theorem Open.self (h : t.Open q) : t.isFolderAt q = true := by
  have hself := h q.length
  rwa [List.take_length] at hself

theorem open_start (t : Tree) (p : Path) : t.Open (start p) := by
  intro n
  unfold start
  split
  · rw [List.take_nil]
    rfl
  · cases n with
    | zero => rfl
    | succ n =>
      rw [List.take_succ_cons, List.take_nil]
      rfl

theorem Open.dropLast (h : t.Open q) : t.Open q.dropLast := by
  intro n
  rw [List.dropLast_eq_take, List.take_take]
  exact h _

theorem Open.append {name : String} (h : t.Open q) (hname : t.isFolderAt (q ++ [name]) = true) :
    t.Open (q ++ [name]) := by
  intro n
  by_cases hn : n ≤ q.length
  · rw [List.take_append_of_le_length hn]
    exact h n
  · rw [List.take_of_length_le (by rw [List.length_append, List.length_singleton]; omega)]
    exact hname

theorem Open.mono (h : t.Open q) (hin : t.FoldersIn t') : t'.Open q := fun n => hin _ (h n)

/-- Folders that were made can be walked through, and are open. -/
theorem foldlM_step_of_makeFoldersFrom {parts : List String} (hq : t.Open q)
    (h : t.makeFoldersFrom q parts = .ok t') :
    parts.foldlM t'.step q = some (parts.foldl Path.stepTo q) ∧
      t'.Open (parts.foldl Path.stepTo q) := by
  induction parts generalizing t q with
  | nil =>
    cases h
    exact ⟨rfl, hq⟩
  | cons part rest ih =>
    have hfolders := (makeFoldersFrom_eq_ok h).2
    rw [List.foldlM_cons, List.foldl_cons]
    unfold makeFoldersFrom at h
    unfold step Path.stepTo
    split at h
    · rename_i hup
      rw [if_pos hup, if_pos hup, if_pos (hfolders _ hq.self)]
      exact ih hq.dropLast h
    · rename_i hup
      obtain ⟨t₁, hadd, h⟩ := bind_eq_ok_iff.mp h
      obtain ⟨-, hin, hfolder⟩ := addFolder_eq_ok hadd
      rw [if_neg hup, if_neg hup]
      exact ih ((hq.mono hin).append hfolder) h

/-- A folder that was made is where its path leads. -/
theorem place?_of_makeFolder (h : t.makeFolder p = .ok t') :
    t'.place? p = some p.location ∧ t'.isFolderAt p.location = true := by
  obtain ⟨hplace, hopen⟩ := foldlM_step_of_makeFoldersFrom (open_start t p) h
  exact ⟨hplace, hopen.self⟩

/-- Where a path leads it still leads when there are more folders. -/
theorem place?_mono (hin : t.FoldersIn t') (h : t.place? p = some q) : t'.place? p = some q := by
  unfold place? at *
  generalize start p = place at h ⊢
  generalize p.parts = parts at h ⊢
  induction parts generalizing place with
  | nil => exact h
  | cons part rest ih =>
    rw [List.foldlM_cons] at h ⊢
    obtain ⟨next, hnext, h⟩ := Option.bind_eq_some_iff.mp h
    refine Option.bind_eq_some_iff.mpr ⟨next, ?_, ih next h⟩
    unfold step at hnext ⊢
    split at hnext
    · rename_i hup
      rw [if_pos hup]
      split at hnext
      · rename_i hfolder
        rw [if_pos (hin _ hfolder)]
        exact hnext
      · cases hnext
    · rename_i hup
      rw [if_neg hup]
      exact hnext

/-- What is there is still there when there are more folders and files. -/
theorem has_mono (hin : t.FoldersIn t')
    (hcontent : ∀ q, (t.contentAt? q).isSome = true → (t'.contentAt? q).isSome = true)
    (h : t.has p = true) : t'.has p = true := by
  obtain ⟨q, hq, hthere⟩ := (Option.any_eq_true _ _).mp h
  refine (Option.any_eq_true _ _).mpr ⟨q, place?_mono hin hq, ?_⟩
  rw [Bool.or_eq_true] at hthere ⊢
  exact hthere.imp (hin q) (hcontent q)

end Tree

/-! ## Names without slashes -/

namespace Path

open String in
theorem splitOnAux_of_slashless (front back : List Char) (h : '/' ∉ back) :
    splitOnAux (ofList (front ++ back)) "/" 0 ⟨utf8Len front⟩ 0 [] = [ofList (front ++ back)] := by
  induction back generalizing front with
  | nil =>
    rw [splitOnAux, if_pos ((atEnd_of_valid front []).mpr rfl)]
    have hall := extract_of_valid [] front []
    simpa using hall
  | cons c back ih =>
    rw [List.mem_cons, not_or] at h
    have hslash : Pos.Raw.get "/" 0 = '/' := rfl
    have hnext : Pos.Raw.next (ofList (front ++ c :: back)) (Pos.Raw.unoffsetBy ⟨utf8Len front⟩ 0) =
        ⟨utf8Len (front ++ [c])⟩ := by
      rw [utf8Len_append, utf8Len_cons, utf8Len_nil, Nat.zero_add]
      exact next_of_valid front c back
    rw [splitOnAux, if_neg (by rw [atEnd_of_valid]; simp), get_of_valid, hslash,
      if_neg (by simpa using Ne.symm h.1), hnext]
    have hrest := ih (front ++ [c]) h.2
    rwa [List.append_assoc, List.singleton_append] at hrest

theorem rootOf_of_slashless {cs : List Char} (h : '/' ∉ cs) : rootOf cs = "" := by
  rw [rootOf.eq_def]
  split
  · exact absurd List.mem_cons_self h
  · exact absurd List.mem_cons_self h
  · exact absurd List.mem_cons_self h
  · rfl

/-- A name without slashes leads into the folder itself. -/
theorem join_of_slashless (p : Path) {name : String} (hslash : '/' ∉ name.toList) (hempty : name ≠ "")
    (hpoint : name ≠ ".") : p.join name = p.child name := by
  have hsplit : name.splitOn "/" = [name] := by
    have hall := splitOnAux_of_slashless [] name.toList hslash
    rwa [List.nil_append, String.ofList_toList] at hall
  have htext : ofText name = ⟨"", [name]⟩ := by
    rw [ofText, rootOf_of_slashless hslash, hsplit]
    simp [hempty, hpoint]
  rw [join, htext]
  rfl

/-! ## The way along a path -/

/-- What lies on the way along a list of names from a place: the places that its beginnings lead to, and
what is above them. -/
def OnWayFrom (place : Place) (parts : List String) (q : Place) : Prop :=
  ∃ n m, q = ((parts.take n).foldl stepTo place).take m

/-- What lies on the way along a path. -/
def OnWay (p : Path) (q : Place) : Prop := OnWayFrom (Tree.start p) p.parts q

theorem OnWayFrom.cons {place q : Place} {part : String} {rest : List String}
    (h : OnWayFrom (stepTo place part) rest q) : OnWayFrom place (part :: rest) q := by
  obtain ⟨n, m, rfl⟩ := h
  exact ⟨n + 1, m, rfl⟩

theorem onWayFrom_self (place : Place) (parts : List String) : OnWayFrom place parts place :=
  ⟨0, place.length, List.take_length.symm⟩

theorem onWay_location_take (p : Path) (n : Nat) : p.OnWay (p.location.take n) :=
  ⟨p.parts.length, n, by rw [List.take_length, location]⟩

/-- On the way down there are but the beginnings of the path. -/
theorem OnWay.isPrefix {p : Path} {q : Place} (h : p.OnWay q) (hdown : ".." ∉ p.parts) :
    q <+: Tree.start p ++ p.parts := by
  obtain ⟨n, m, rfl⟩ := h
  have hsteps : ∀ (parts : List String) (place : Place), ".." ∉ parts →
      parts.foldl stepTo place = place ++ parts := by
    intro parts
    induction parts with
    | nil => exact fun place _ => (List.append_nil place).symm
    | cons part rest ih =>
      intro place hparts
      rw [List.mem_cons, not_or] at hparts
      rw [List.foldl_cons, stepTo, if_neg (by simpa using Ne.symm hparts.1), ih _ hparts.2,
        List.append_assoc, List.singleton_append]
  rw [hsteps _ _ fun hmem => hdown (List.mem_of_mem_take hmem)]
  exact (List.take_prefix m _).trans ((List.prefix_append_right_inj _).mpr (List.take_prefix n _))

end Path

end UpgradeSafety.Files
