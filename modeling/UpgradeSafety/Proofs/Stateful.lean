import UpgradeSafety.Proofs.Runs

/-!
# Runs with a state

What a successful run says about its parts, for computations that may fail and change a state. A
failed computation keeps what it did to the state.

That is the order in which failure and state are stacked here: the state is there in either case,
and recovering from a failure goes on with it. So a run is a function from a state to a result and
a state, and each way of putting computations together has an equation for its run (`run_bind`,
`run_tryCatch`). A proof that follows a computation step by step rewrites with the form for a step
whose run is known (`run_bind_of_ok`, `run_bind_of_error`); one that starts from a result takes the
computation apart (`run_bind_eq_ok_iff`, `run_bind_eq_error_iff`).

Programs on the workspace and readings that remember what they looked up are both of this kind.
-/

namespace UpgradeSafety.Stateful

variable {ε S α β : Type} {s s' : S}

theorem run_bind (x : ExceptT ε (StateM S) α) (f : α → ExceptT ε (StateM S) β) (s : S) :
    (x >>= f).run.run s =
      match x.run.run s with
      | (.ok a, s') => (f a).run.run s'
      | (.error e, s') => (.error e, s') := by
  unfold ExceptT.run StateT.run
  simp only [bind, ExceptT.bind, ExceptT.mk, StateT.bind, ExceptT.bindCont]
  cases x s with
  | mk r s' => cases r <;> rfl

theorem run_bind_of_ok {x : ExceptT ε (StateM S) α} {f : α → ExceptT ε (StateM S) β} {a : α}
    (h : x.run.run s = (.ok a, s')) : (x >>= f).run.run s = (f a).run.run s' := by
  rw [run_bind, h]

theorem run_bind_of_error {x : ExceptT ε (StateM S) α} {f : α → ExceptT ε (StateM S) β} {e : ε}
    (h : x.run.run s = (.error e, s')) : (x >>= f).run.run s = (.error e, s') := by
  rw [run_bind, h]

theorem run_map (f : α → β) (x : ExceptT ε (StateM S) α) (s : S) :
    (f <$> x).run.run s = ((x.run.run s).1.map f, (x.run.run s).2) := by
  rw [map_eq_pure_bind, run_bind]
  rcases x.run.run s with ⟨result, s'⟩
  cases result <;> rfl

theorem run_bind_eq_ok_iff {x : ExceptT ε (StateM S) α} {f : α → ExceptT ε (StateM S) β} {b : β}
    {s'' : S} :
    (x >>= f).run.run s = (.ok b, s'') ↔
      ∃ a s', x.run.run s = (.ok a, s') ∧ (f a).run.run s' = (.ok b, s'') := by
  rw [run_bind]
  constructor
  · intro h
    split at h
    · rename_i a s' hx
      exact ⟨a, s', hx, h⟩
    · cases h
  · rintro ⟨a, s', hx, hf⟩
    rw [hx]
    exact hf

theorem run_bind_eq_error_iff {x : ExceptT ε (StateM S) α} {f : α → ExceptT ε (StateM S) β} {e : ε}
    {s'' : S} :
    (x >>= f).run.run s = (.error e, s'') ↔
      x.run.run s = (.error e, s'') ∨
        ∃ a s', x.run.run s = (.ok a, s') ∧ (f a).run.run s' = (.error e, s'') := by
  rw [run_bind]
  rcases x.run.run s with ⟨r, s'⟩
  cases r with
  | error e' =>
    constructor
    · intro h
      cases h
      exact Or.inl rfl
    · rintro (h | ⟨a, s₁, h, -⟩)
      · cases h
        rfl
      · cases h
  | ok a =>
    constructor
    · intro h
      exact Or.inr ⟨a, s', rfl, h⟩
    · rintro (h | ⟨a', s₁, h, hf⟩)
      · cases h
      · cases h
        exact hf

@[simp] theorem run_pure (a : α) : (pure a : ExceptT ε (StateM S) α).run.run s = (.ok a, s) := rfl

@[simp] theorem run_throw (e : ε) :
    (throw e : ExceptT ε (StateM S) α).run.run s = (.error e, s) := rfl

@[simp] theorem run_get : (get : ExceptT ε (StateM S) S).run.run s = (.ok s, s) := rfl

@[simp] theorem run_modify (f : S → S) :
    (modify f : ExceptT ε (StateM S) Unit).run.run s = (.ok (), f s) := rfl

@[simp] theorem run_set (s' : S) :
    (set s' : ExceptT ε (StateM S) Unit).run.run s = (.ok (), s') := rfl

@[simp] theorem run_liftM (x : Except ε α) :
    (liftM x : ExceptT ε (StateM S) α).run.run s = (x, s) := by
  cases x <;> rfl

theorem run_tryCatch (x : ExceptT ε (StateM S) α) (handle : ε → ExceptT ε (StateM S) α) (s : S) :
    (tryCatch x handle).run.run s =
      match x.run.run s with
      | (.ok a, s') => (.ok a, s')
      | (.error e, s') => (handle e).run.run s' := by
  unfold ExceptT.run StateT.run
  simp only [tryCatch, tryCatchThe, MonadExceptOf.tryCatch, ExceptT.tryCatch, ExceptT.mk, bind,
    StateT.bind]
  cases x s with
  | mk r s' => cases r <;> rfl

theorem run_tryCatch_of_ok {x : ExceptT ε (StateM S) α} {handle : ε → ExceptT ε (StateM S) α}
    {a : α} (h : x.run.run s = (.ok a, s')) : (tryCatch x handle).run.run s = (.ok a, s') := by
  rw [run_tryCatch, h]

/-- A list that is run through gives a result for every element. -/
theorem forall₂_of_run_mapM {f : α → ExceptT ε (StateM S) β} {l : List α} {l' : List β}
    (h : (l.mapM f).run.run s = (.ok l', s')) :
    List.Forall₂ (fun a b => ∃ s s', (f a).run.run s = (.ok b, s')) l l' := by
  induction l generalizing s l' with
  | nil =>
    rw [List.mapM_nil, run_pure] at h
    cases h
    exact .nil
  | cons a l ih =>
    rw [List.mapM_cons] at h
    obtain ⟨b, s₁, hb, h⟩ := run_bind_eq_ok_iff.mp h
    obtain ⟨bs, s₂, hbs, h⟩ := run_bind_eq_ok_iff.mp h
    rw [run_pure] at h
    cases h
    exact .cons ⟨s, s₁, hb⟩ (ih hbs)

end UpgradeSafety.Stateful
