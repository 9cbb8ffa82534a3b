import Mathlib.Data.List.DropRight
import Mathlib.Data.String.Basic
import UpgradeSafety.Proofs.Runs
import UpgradeSafety.Validation.Catalog

/-!
# Lookups in several runs

A contract is looked up in the runs of a catalog from the latest one on. A qualified name is that
of the latest run that has it. A bare name is looked up in every run, also behind the one in which
it was found: a run in which several contracts have it makes the lookup fail, however old the run
is.

The bare name of a contract is what stands behind the last colon of its qualified name
(`bareName_eq`), and has no colon itself, so a name is never both. Runs without the name do not
count (`findBare_append`), and the catalog is split at the latest run that has it.

* `contractNamed_latest`: what a lookup gives when the latest run that has the name is known.
* `contractNamed_stale`: an older run in which two contracts had a name keeps a later contract of
  that name from being found.
-/

namespace UpgradeSafety.Catalog

variable {name : String} {run : ValidationRun} {older later : List ValidationRun}

/-! ## Bare names -/

/-- What stands behind the last colon of a text. -/
def behindColons (cs : List Char) : List Char := cs.rtakeWhile (· != ':')

theorem behindColons_of_noColon {cs : List Char} (h : ':' ∉ cs) : behindColons cs = cs :=
  List.rtakeWhile_eq_self_iff.mpr fun _ hc => bne_iff_ne.mpr fun heq => h (heq ▸ hc)

theorem behindColons_append (front back : List Char) :
    behindColons (front ++ ':' :: back) = behindColons back := by
  have hstop : (':' :: front.reverse).takeWhile (· != ':') = [] := rfl
  unfold behindColons List.rtakeWhile
  rw [List.reverse_append, List.reverse_cons, List.append_assoc, List.singleton_append,
    List.takeWhile_append, hstop]
  split
  · rename_i hall
    rw [List.append_nil, (List.takeWhile_prefix _).eq_of_length hall]
  · rfl

open String in
/-- The last of the parts between colons stands behind the last colon. Of the text, `part` was read since
the last colon, and `back` is still to be read. -/
theorem getLast_splitOnAux (front part back : List Char) (parts : List String) (h : ':' ∉ part) :
    (splitOnAux (ofList (front ++ part ++ back)) ":" ⟨utf8Len front⟩
      ⟨utf8Len front + utf8Len part⟩ 0 parts).getLast? = some (ofList (behindColons (part ++ back))) := by
  have hcolon : Pos.Raw.get ":" 0 = ':' := rfl
  have hbehind : Pos.Raw.atEnd ":" (Pos.Raw.next ":" 0) = true := by decide
  induction back generalizing front part parts with
  | nil =>
    have hend := (atEnd_of_valid (front ++ part) []).mpr rfl
    have hpart := extract_of_valid front part []
    rw [utf8Len_append] at hend
    rw [splitOnAux, if_pos hend, hpart, List.append_nil, behindColons_of_noColon h]
    simp
  | cons c back ih =>
    have hget := get_of_valid (front ++ part) (c :: back)
    have hnext := next_of_valid (front ++ part) c back
    have hend := (atEnd_of_valid (front ++ part) (c :: back)).not.mpr (List.cons_ne_nil c back)
    rw [utf8Len_append] at hget hnext hend
    rw [splitOnAux, if_neg hend, hget, hcolon]
    by_cases hc : c = ':'
    · subst hc
      rw [if_pos (by simp), behindColons_append]
      dsimp only
      rw [if_pos hbehind, hnext]
      have hrest := ih (front ++ part ++ [':']) [] (Pos.Raw.extract (ofList (front ++ part ++ ':' :: back))
        ⟨utf8Len front⟩ (Pos.Raw.unoffsetBy ⟨utf8Len front + utf8Len part + (':').utf8Size⟩
          (Pos.Raw.next ":" 0)) :: parts) List.not_mem_nil
      simpa [Nat.add_assoc] using hrest
    · rw [if_neg (by simpa using hc)]
      have hunread : Pos.Raw.unoffsetBy ⟨utf8Len front + utf8Len part⟩ 0 =
          ⟨utf8Len front + utf8Len part⟩ := rfl
      rw [hunread, hnext]
      have hrest := ih front (part ++ [c]) parts (by simp [h, Ne.symm hc])
      simpa [Nat.add_assoc] using hrest

/-- The bare name stands behind the last colon. -/
theorem bareName_eq (name : String) :
    Import.bareName name = String.ofList (behindColons name.toList) := by
  have hlast := getLast_splitOnAux [] [] name.toList [] List.not_mem_nil
  rw [List.nil_append, List.nil_append, String.ofList_toList] at hlast
  have hparts : (name.splitOn ":").getLast? = _ := hlast
  rw [Import.bareName, hparts]
  rfl

theorem colon_not_mem_bareName (name : String) : ':' ∉ (Import.bareName name).toList := by
  rw [bareName_eq, String.toList_ofList, behindColons]
  intro hcolon
  exact absurd (List.mem_rtakeWhile_imp hcolon) (by decide)

/-- A name that is the bare name of a contract has no colon. -/
theorem colon_not_mem_of_withBareName (h : withBareName name run ≠ []) : ':' ∉ name.toList := by
  obtain ⟨e, he⟩ := List.exists_mem_of_ne_nil _ h
  have hname := (List.mem_filter.mp he).2
  rw [← beq_iff_eq.mp hname]
  exact colon_not_mem_bareName e.1

/-- Several contracts of a run have a bare name. -/
def Ambiguous (name : String) (run : ValidationRun) : Prop := 1 < (withBareName name run).length

instance (name : String) : DecidablePred (Ambiguous name) := fun _ =>
  inferInstanceAs (Decidable (1 < _))

/-- The refusal of a bare name that several contracts of a run have. -/
def ambiguity (name : String) (run : ValidationRun) : Refusal :=
  .ambiguousContract name ((withBareName name run).map (·.1))

/-! ## Searching the runs -/

/-- The first contract of a numbered run with a bare name. -/
def bareFound? (name : String) (p : Nat × ValidationRun) : Option CatalogEntry :=
  (withBareName name p.2).head?.map fun (key, record) => ⟨p.1, p.2, key, record⟩

theorem findBare_cons {i : Nat} (rest : List (Nat × ValidationRun)) (h : ¬ Ambiguous name run) :
    findBare name ((i, run) :: rest) =
      (findBare name rest).map fun found => (bareFound? name (i, run)).or found := by
  rw [findBare, bareFound?]
  unfold Ambiguous at h
  match hfound : withBareName name run with
  | [] => cases findBare name rest <;> rfl
  | [_] => cases findBare name rest <;> rfl
  | _ :: _ :: _ =>
    rw [hfound] at h
    simp at h

theorem findBare_cons_of_ambiguous {i : Nat} (rest : List (Nat × ValidationRun))
    (h : Ambiguous name run) : findBare name ((i, run) :: rest) = .error (ambiguity name run) := by
  rw [findBare, ambiguity]
  unfold Ambiguous at h
  match hfound : withBareName name run with
  | [] | [_] =>
    rw [hfound] at h
    simp at h
  | _ :: _ :: _ => rfl

/-- The first ambiguous run makes the search fail. Without one the first run counts that has the name. -/
theorem findBare_eq (numbered : List (Nat × ValidationRun)) :
    findBare name numbered = match (numbered.map (·.2)).find? (Ambiguous name ·) with
      | some stale => .error (ambiguity name stale)
      | none => .ok (numbered.findSome? (bareFound? name)) := by
  induction numbered with
  | nil => rfl
  | cons p rest ih =>
    obtain ⟨i, run⟩ := p
    rw [List.map_cons, List.find?_cons]
    by_cases h : Ambiguous name run
    · rw [findBare_cons_of_ambiguous rest h, decide_eq_true h]
    · rw [findBare_cons rest h, ih, decide_eq_false h, List.findSome?_cons]
      cases (rest.map (·.2)).find? (Ambiguous name ·) <;> cases bareFound? name (i, run) <;> rfl

/-- Runs without the name do not count. -/
theorem findBare_append {front : List (Nat × ValidationRun)} (back : List (Nat × ValidationRun))
    (h : ∀ p ∈ front, withBareName name p.2 = []) :
    findBare name (front ++ back) = findBare name back := by
  induction front with
  | nil => rfl
  | cons p front ih =>
    rw [List.forall_mem_cons] at h
    rw [List.cons_append, findBare, h.1]
    exact ih h.2

/-! ## Catalogs -/

/-- Runs with their numbers from a number on, the last one first. -/
def countedFrom (start : Nat) (runs : List ValidationRun) : List (Nat × ValidationRun) :=
  ((runs.zipIdx start).map fun (run, i) => (i, run)).reverse

theorem latestFirst_eq (older later : List ValidationRun) (run : ValidationRun) :
    latestFirst ⟨older ++ run :: later⟩ =
      countedFrom (older.length + 1) later ++ (older.length, run) :: countedFrom 0 older := by
  simp [latestFirst, countedFrom, List.zipIdx_append, List.zipIdx_cons]

theorem map_countedFrom (start : Nat) (runs : List ValidationRun) :
    (countedFrom start runs).map (·.2) = runs.reverse := by
  rw [countedFrom, List.map_reverse, List.map_map]
  exact congrArg List.reverse (List.zipIdx_map_fst start runs)

theorem mem_of_mem_countedFrom {start : Nat} {runs : List ValidationRun} {p : Nat × ValidationRun}
    (h : p ∈ countedFrom start runs) : p.2 ∈ runs := by
  have hrun : p.2 ∈ (countedFrom start runs).map (·.2) := List.mem_map_of_mem h
  rw [map_countedFrom] at hrun
  exact List.mem_reverse.mp hrun

/-- A qualified name is that of the latest run that has it. -/
theorem contractNamed_of_qualified {record : ContractRecord} (hname : ':' ∈ name.toList)
    (hlater : ∀ r ∈ later, r.lookup name = none) (hrun : run.lookup name = some record) :
    contractNamed ⟨older ++ run :: later⟩ name = .ok ⟨older.length, run, name, record⟩ := by
  have hfound : findQualified name (latestFirst ⟨older ++ run :: later⟩) =
      some ⟨older.length, run, name, record⟩ := by
    rw [findQualified, latestFirst_eq, List.findSome?_append,
      List.findSome?_eq_none_iff.mpr fun p hp => ?_]
    · rw [List.findSome?_cons, Option.none_or]
      dsimp only
      rw [hrun]
      rfl
    · dsimp only
      rw [hlater p.2 (mem_of_mem_countedFrom hp)]
      rfl
  rw [contractNamed, if_pos (by simpa using hname), hfound]
  rfl

/-- A bare name is searched for from the latest run on that has it. -/
theorem contractNamed_of_bare (hlater : ∀ r ∈ later, withBareName name r = [])
    (hrun : withBareName name run ≠ []) :
    contractNamed ⟨older ++ run :: later⟩ name =
      (findBare name ((older.length, run) :: countedFrom 0 older)).bind fun found =>
        match found with
        | some entry => .ok entry
        | none => .error (.contractNotFound name) := by
  rw [contractNamed, if_neg (by simpa using colon_not_mem_of_withBareName hrun), latestFirst_eq,
    findBare_append _ fun p hp => hlater p.2 (mem_of_mem_countedFrom hp)]
  rfl

/-- The older runs count only by the latest of them in which the name is ambiguous. -/
theorem contractNamed_of_one {key : String} {record : ContractRecord}
    (hlater : ∀ r ∈ later, withBareName name r = []) (hone : withBareName name run = [(key, record)]) :
    contractNamed ⟨older ++ run :: later⟩ name =
      match older.reverse.find? (Ambiguous name ·) with
      | none => .ok ⟨older.length, run, key, record⟩
      | some stale => .error (ambiguity name stale) := by
  have hrun : ¬ Ambiguous name run := by
    rw [Ambiguous, hone]
    exact Nat.lt_irrefl 1
  rw [contractNamed_of_bare hlater (by rw [hone]; exact List.cons_ne_nil _ _), findBare_cons _ hrun,
    findBare_eq, map_countedFrom, bareFound?, hone]
  cases older.reverse.find? (Ambiguous name ·) <;> rfl

theorem contractNamed_of_several (hlater : ∀ r ∈ later, withBareName name r = [])
    (hseveral : Ambiguous name run) :
    contractNamed ⟨older ++ run :: later⟩ name = .error (ambiguity name run) := by
  have hrun : withBareName name run ≠ [] := by
    intro hnil
    rw [Ambiguous, hnil] at hseveral
    cases hseveral
  rw [contractNamed_of_bare hlater hrun, findBare_cons_of_ambiguous _ hseveral]
  rfl

/-- What a lookup gives when the latest run that has the name is `run`, whatever is in the older runs. A
qualified name is looked up in `run`. A bare name that one contract of `run` has is looked up there if it
is ambiguous in no older run; else the lookup is refused, as it is if the name is ambiguous in `run`. -/
theorem contractNamed_latest (name : String) (older later : List ValidationRun) (run : ValidationRun) :
    (':' ∈ name.toList → (∀ r ∈ later, r.lookup name = none) → ∀ record, run.lookup name = some record →
      contractNamed ⟨older ++ run :: later⟩ name = .ok ⟨older.length, run, name, record⟩) ∧
    ((∀ r ∈ later, withBareName name r = []) → ∀ key record, withBareName name run = [(key, record)] →
      contractNamed ⟨older ++ run :: later⟩ name =
        match older.reverse.find? (Ambiguous name ·) with
        | none => .ok ⟨older.length, run, key, record⟩
        | some stale => .error (ambiguity name stale)) ∧
    ((∀ r ∈ later, withBareName name r = []) → Ambiguous name run →
      contractNamed ⟨older ++ run :: later⟩ name = .error (ambiguity name run)) := by
  refine ⟨fun hname hlater record hrecord => ?_, fun hlater key record hone => ?_,
    fun hlater hseveral => ?_⟩
  · exact contractNamed_of_qualified hname hlater hrecord
  · exact contractNamed_of_one hlater hone
  · exact contractNamed_of_several hlater hseveral

/-! ## A name that was ambiguous once -/

/-- A contract of the name `Box` in a source file. -/
def boxIn (source : String) : String × ContractRecord :=
  (source ++ ":Box", { name := "Box", src := source ++ ":1" })

theorem withBareName_boxes (sources : List String) :
    withBareName "Box" (sources.map boxIn) = sources.map boxIn := by
  refine List.filter_eq_self.mpr fun e he => ?_
  obtain ⟨source, -, rfl⟩ := List.mem_map.mp he
  have hname : (boxIn source).1.toList = source.toList ++ ':' :: "Box".toList := by simp [boxIn]
  dsimp only
  rw [bareName_eq, hname, behindColons_append, behindColons_of_noColon (by decide)]
  rfl

theorem ambiguous_boxes_iff (sources : List String) :
    Ambiguous "Box" (sources.map boxIn) ↔ 1 < sources.length := by
  rw [Ambiguous, withBareName_boxes, List.length_map]

/-- The contract is found in the latest run that has it, by both names. Two contracts of a run share the
bare name. -/
theorem contractNamed_latest_box :
    contractNamed ⟨[["old.sol"].map boxIn] ++ ["a.sol"].map boxIn :: [[]]⟩ "a.sol:Box" =
      .ok ⟨1, ["a.sol"].map boxIn, "a.sol:Box", (boxIn "a.sol").2⟩ ∧
    contractNamed ⟨[["old.sol"].map boxIn] ++ ["a.sol"].map boxIn :: [[]]⟩ "Box" =
      .ok ⟨1, ["a.sol"].map boxIn, "a.sol:Box", (boxIn "a.sol").2⟩ ∧
    contractNamed ⟨[["old.sol"].map boxIn] ++ ["a.sol", "b.sol"].map boxIn :: [[]]⟩ "Box" =
      .error (.ambiguousContract "Box" ["a.sol:Box", "b.sol:Box"]) := by
  have hold : ¬ Ambiguous "Box" (["old.sol"].map boxIn) := by
    rw [ambiguous_boxes_iff]
    decide
  have hboth : Ambiguous "Box" (["a.sol", "b.sol"].map boxIn) := by
    rw [ambiguous_boxes_iff]
    decide
  have hlater : ∀ r ∈ [([] : ValidationRun)], withBareName "Box" r = [] :=
    List.forall_mem_singleton.mpr rfl
  refine ⟨(contractNamed_latest "a.sol:Box" _ _ _).1 (by decide) (by simp) _ rfl, ?_, ?_⟩
  · rw [(contractNamed_latest "Box" _ _ _).2.1 hlater _ _ (withBareName_boxes _),
      List.reverse_singleton, List.find?_cons, decide_eq_false hold]
    rfl
  · rw [(contractNamed_latest "Box" _ _ _).2.2 hlater hboth, ambiguity, withBareName_boxes]
    rfl

/-- Two contracts of the name `Box` in an older run keep the one contract of that name in the latest run
from being found. -/
theorem contractNamed_stale :
    withBareName "Box" (["a.sol"].map boxIn) = [("a.sol:Box", (boxIn "a.sol").2)] ∧
    contractNamed ⟨[["a.sol", "b.sol"].map boxIn] ++ [["a.sol"].map boxIn]⟩ "Box" =
      .error (.ambiguousContract "Box" ["a.sol:Box", "b.sol:Box"]) := by
  have hbox := withBareName_boxes ["a.sol"]
  have hboth : Ambiguous "Box" (["a.sol", "b.sol"].map boxIn) := by
    rw [ambiguous_boxes_iff]
    decide
  refine ⟨hbox, ?_⟩
  rw [contractNamed_of_one (List.forall_mem_nil _) hbox, List.reverse_singleton, List.find?_cons,
    decide_eq_true hboth]
  dsimp only
  rw [ambiguity, withBareName_boxes]
  rfl

end UpgradeSafety.Catalog
