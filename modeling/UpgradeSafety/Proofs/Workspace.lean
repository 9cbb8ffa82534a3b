import UpgradeSafety.Proofs.Files.Tree
import UpgradeSafety.Proofs.Stateful
import UpgradeSafety.Workspace

/-!
# Runs of operations on the workspace

What the basic operations do to the workspace: refusing, logging, acting outside, passing a result
on, and changing the files (`run_onFiles`). Each has an equation for its run, so that a program on
the workspace is followed by rewriting; an operation on the files fails as the tree does and leaves
the workspace as it was.

A file is replaced by writing one beside it and renaming that (`run_replaceFile`). This is the only
operation of several steps that has to be all or nothing, and it is: the file is written at once,
or the workspace stays as it is, with nothing left beside the file (`run_replaceFile_cases`). Where
the second step fails the first one is taken back, and removing a file that was just written beside
a path succeeds.

What is done at the end of a run in any case runs whether the program before it succeeded or
failed, and leaves its result alone (`run_andThenAlways`).
-/

namespace UpgradeSafety.Act

open Stateful

variable {σ α : Type} {w w' : Workspace σ}

@[simp] theorem run_refuse (r : Refusal) :
    (refuse r : Act σ α).run.run w = (.error (.refused r), w) := rfl

@[simp] theorem run_tell (records : List Log.Record) :
    (tell records).run.run w = (.ok (), { w with log := w.log ++ records }) := rfl

@[simp] theorem run_outside (x : StateM σ α) :
    (outside x).run.run w = (.ok (x.run w.outside).1, { w with outside := (x.run w.outside).2 }) := rfl

@[simp] theorem run_ofResult (x : Except Failure α) : (ofResult x).run.run w = (x, w) :=
  run_liftM x

theorem run_onFiles (f : Files.Tree → Except Failure Files.Tree) :
    (onFiles f : Act σ Unit).run.run w =
      match f w.files with
      | .ok t => (.ok (), { w with files := t })
      | .error e => (.error e, w) := by
  rw [onFiles, run_bind_of_ok run_get, run_bind, run_ofResult]
  cases f w.files <;> rfl

theorem run_onFiles_eq_ok_iff {f : Files.Tree → Except Failure Files.Tree} :
    (onFiles f).run.run w = (.ok (), w') ↔
      ∃ t, f w.files = .ok t ∧ w' = { w with files := t } := by
  rw [run_onFiles]
  cases f w.files with
  | error e =>
    constructor
    · rintro ⟨⟩
    · rintro ⟨t, ⟨⟩, -⟩
  | ok t =>
    constructor
    · rintro ⟨⟩
      exact ⟨t, rfl, rfl⟩
    · rintro ⟨t', ⟨⟩, rfl⟩
      rfl

/-- Where a file can be written beside a path, the path is written at once. -/
theorem run_replaceFile_of_beside {p : Files.Path} {content : List UInt8} {t : Files.Tree}
    (h : w.files.write (w.files.pathBeside p) content = .ok t) :
    (replaceFile p content : Act σ Unit).run.run w =
      (onFiles fun t => t.write p content).run.run w := by
  obtain ⟨hrename, hremove⟩ := Files.Tree.write_pathBeside_eq_ok h
  rw [replaceFile, run_bind_of_ok run_get, run_bind, run_onFiles, h]
  dsimp only
  rw [run_tryCatch, run_onFiles, hrename, run_onFiles]
  cases hp : w.files.write p content with
  | error e =>
    dsimp only
    rw [run_bind, run_onFiles, hremove]
    rfl
  | ok t' => rfl

/-- A file is written at once, or the workspace stays as it is. -/
theorem run_replaceFile_cases (p : Files.Path) (content : List UInt8) :
    (∃ e, (replaceFile p content : Act σ Unit).run.run w = (.error e, w)) ∨
      (replaceFile p content : Act σ Unit).run.run w =
        (onFiles fun t => t.write p content).run.run w := by
  cases hwrite : w.files.write (w.files.pathBeside p) content with
  | error e =>
    refine Or.inl ⟨e, ?_⟩
    rw [replaceFile, run_bind_of_ok run_get, run_bind, run_onFiles, hwrite]
  | ok t => exact Or.inr (run_replaceFile_of_beside hwrite)

theorem run_onFiles_eq_error {f : Files.Tree → Except Failure Files.Tree} {e : Failure}
    (h : (onFiles f : Act σ Unit).run.run w = (.error e, w')) : w' = w := by
  rw [run_onFiles] at h
  cases hf : f w.files with
  | error e' =>
    rw [hf] at h
    cases h
    rfl
  | ok t =>
    rw [hf] at h
    cases h

theorem run_replaceFile {p : Files.Path} {name : String} {content : List UInt8} {t : Files.Tree}
    (hp : p = p.parent.child name) (hname : name ≠ "..") (h : w.files.write p content = .ok t) :
    (replaceFile p content : Act σ Unit).run.run w = (.ok (), { w with files := t }) := by
  obtain ⟨u, hbeside⟩ := Files.Tree.write_pathBeside_of_write hp hname h
  rw [run_replaceFile_of_beside hbeside, run_onFiles, h]

theorem run_replaceFile_eq_ok {p : Files.Path} {content : List UInt8}
    (h : (replaceFile p content : Act σ Unit).run.run w = (.ok (), w')) :
    ∃ t, w.files.write p content = .ok t ∧ w' = { w with files := t } := by
  rcases run_replaceFile_cases p content with ⟨e, he⟩ | heq
  · rw [he] at h
    cases h
  · exact run_onFiles_eq_ok_iff.mp (heq.symm.trans h)

theorem run_replaceFile_eq_error {p : Files.Path} {content : List UInt8} {e : Failure}
    (h : (replaceFile p content : Act σ Unit).run.run w = (.error e, w')) : w' = w := by
  rcases run_replaceFile_cases p content with ⟨e', he⟩ | heq
  · rw [he] at h
    cases h
    rfl
  · exact run_onFiles_eq_error (heq.symm.trans h)

theorem run_andThenAlways (x : Act σ α) (cleanup : Workspace σ → Workspace σ) :
    (x.andThenAlways cleanup).run.run w = ((x.run.run w).1, cleanup (x.run.run w).2) := rfl

end UpgradeSafety.Act
