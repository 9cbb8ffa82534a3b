import Mathlib.Data.List.Forall2

/-!
# Runs that may fail

What a successful run says about its parts: about the two halves of a bind (`bind_eq_ok_iff`), and
about every element of a list that is run through (`mapM_eq_ok_iff`).

Most functions of this library return a result or a failure, and most statements about them start
from a result. Instead of unfolding a function and splitting each of its matches, a proof peels off
one bind after the other with these equivalences and has the intermediate values by name. For lists
the result is a relation between arguments and results, element by element, and the second half of
the module is about such relations: how they are composed, how a list of parts is flattened, and
where two related lists split.

Loops have no such equivalence, as their states are not kept; for them there are lemmas on steps
that commute with a map of the states.
-/

namespace UpgradeSafety

variable {ε α β : Type}

theorem ok_bind (a : α) (f : α → Except ε β) : (Except.ok a >>= f) = f a := rfl

theorem bind_eq_ok_iff {x : Except ε α} {f : α → Except ε β} {b : β} :
    x >>= f = .ok b ↔ ∃ a, x = .ok a ∧ f a = .ok b := by
  cases x with
  | error e =>
    constructor
    · intro h
      cases h
    · rintro ⟨a, h, -⟩
      cases h
  | ok a =>
    constructor
    · intro h
      exact ⟨a, rfl, h⟩
    · rintro ⟨a', h, hf⟩
      cases h
      exact hf

theorem map_eq_ok_iff {x : Except ε α} {f : α → β} {b : β} :
    x.map f = .ok b ↔ ∃ a, x = .ok a ∧ f a = b := by
  cases x with
  | error e => simp [Except.map]
  | ok a => simp [Except.map]

theorem mapError_eq_ok_iff {ε' : Type} {x : Except ε α} {f : ε → ε'} {a : α} :
    x.mapError f = .ok a ↔ x = .ok a := by
  cases x with
  | error e => simp [Except.mapError]
  | ok a' => simp [Except.mapError]

theorem forM_eq_ok_iff {f : α → Except ε Unit} {l : List α} :
    l.forM f = .ok () ↔ ∀ a ∈ l, f a = .ok () := by
  induction l with
  | nil =>
    exact ⟨fun _ => nofun, fun _ => rfl⟩
  | cons a l ih =>
    change (f a >>= fun _ => l.forM f) = .ok () ↔ _
    rw [bind_eq_ok_iff, List.forall_mem_cons]
    constructor
    · rintro ⟨_, ha, hl⟩
      exact ⟨ha, ih.mp hl⟩
    · rintro ⟨ha, hl⟩
      exact ⟨(), ha, ih.mpr hl⟩

theorem eq_ok_of_toOption {x : Except ε α} {a : α} (h : x.toOption = some a) : x = .ok a := by
  cases x with
  | error e => cases h
  | ok a' =>
    cases h
    rfl

theorem eq_ok_none_of_isNone {x : Except ε (Option α)}
    (h : x.toOption.map Option.isNone = some true) : x = .ok none := by
  obtain ⟨r, hr, hnone⟩ := Option.map_eq_some_iff.mp h
  rw [eq_ok_of_toOption hr, Option.isNone_iff_eq_none.mp hnone]

theorem bind_of_map {γ δ : Type} {x : Except ε α} {y : Except ε γ} {k : α → γ} {f : α → Except ε β}
    {g : γ → Except ε δ} {l : β → δ} (hxy : y = x.map k) (h : ∀ a, g (k a) = (f a).map l) :
    y >>= g = (x >>= f).map l := by
  cases x with
  | error e => rw [hxy]; rfl
  | ok a => rw [hxy]; exact h a

/-- Runs that agree under a map go on to agree, if what they lead to depends on no more. -/
theorem map_bind_congr {γ δ : Type} {x x' : Except ε α} {k : α → γ} {f f' : α → Except ε β}
    {l : β → δ} (hx : x'.map k = x.map k)
    (h : ∀ a a', k a' = k a → (f' a').map l = (f a).map l) :
    (x' >>= f').map l = (x >>= f).map l := by
  cases x' with
  | error e' =>
    cases x with
    | error e =>
      cases hx
      rfl
    | ok a => cases hx
  | ok a' =>
    cases x with
    | error e => cases hx
    | ok a => exact h a a' (Except.ok.inj hx)

/-- Steps that commute with a map of states lead to states that it maps to one another. -/
theorem foldlM_map {m : Type → Type} [Monad m] [LawfulMonad m] {γ : Type} {f : β → α → m β}
    {g : γ → α → m γ} {k : β → γ} {l : List α} (h : ∀ b, ∀ a ∈ l, g (k b) a = k <$> f b a) {b : β} :
    l.foldlM g (k b) = k <$> l.foldlM f b := by
  induction l generalizing b with
  | nil => exact (map_pure k b).symm
  | cons a l ih =>
    rw [List.foldlM_cons, List.foldlM_cons, h b a List.mem_cons_self, bind_map_left, map_bind]
    exact bind_congr fun b' => ih fun b a' ha' => h b a' (List.mem_cons_of_mem a ha')

theorem foldlM_of_map {γ : Type} {f : β → α → Except ε β} {g : γ → α → Except ε γ} {k : β → γ}
    {l : List α} (h : ∀ b, ∀ a ∈ l, g (k b) a = (f b a).map k) {b : β} :
    l.foldlM g (k b) = (l.foldlM f b).map k := foldlM_map h

/-- A list runs through when every element does. -/
theorem mapM_eq_ok_iff {f : α → Except ε β} {l : List α} {l' : List β} :
    l.mapM f = .ok l' ↔ List.Forall₂ (fun a b => f a = .ok b) l l' := by
  induction l generalizing l' with
  | nil =>
    rw [List.mapM_nil, List.forall₂_nil_left_iff]
    exact ⟨fun h => by cases h; rfl, fun h => by rw [h]; rfl⟩
  | cons a l ih =>
    rw [List.mapM_cons, bind_eq_ok_iff, List.forall₂_cons_left_iff]
    constructor
    · rintro ⟨b, hb, h⟩
      obtain ⟨bs, hbs, h'⟩ := bind_eq_ok_iff.mp h
      cases h'
      exact ⟨b, bs, hb, ih.mp hbs, rfl⟩
    · rintro ⟨b, bs, hb, hbs, rfl⟩
      exact ⟨b, hb, bind_eq_ok_iff.mpr ⟨bs, ih.mpr hbs, rfl⟩⟩

/-- What may be done with every element can be done with the list. -/
theorem exists_filterMapM_iff {f : α → Except ε (Option β)} {l : List α} :
    (∃ bs, l.filterMapM f = .ok bs) ↔ ∀ a ∈ l, ∃ b, f a = .ok b := by
  induction l with
  | nil => exact ⟨fun _ => by simp, fun _ => ⟨[], rfl⟩⟩
  | cons a l ih =>
    rw [List.filterMapM_cons, List.forall_mem_cons, ← ih]
    cases f a with
    | error e =>
      constructor
      · rintro ⟨bs, h⟩
        cases h
      · rintro ⟨⟨b, h⟩, -⟩
        cases h
    | ok b =>
      rw [ok_bind, and_iff_right ⟨b, rfl⟩]
      cases b with
      | none => rfl
      | some b =>
        constructor
        · rintro ⟨bs, h⟩
          obtain ⟨rest, hrest, -⟩ := bind_eq_ok_iff.mp h
          exact ⟨rest, hrest⟩
        · rintro ⟨rest, hrest⟩
          exact ⟨b :: rest, bind_eq_ok_iff.mpr ⟨rest, hrest, rfl⟩⟩

theorem mapM_eq_some_iff {f : α → Option β} {l : List α} {l' : List β} :
    l.mapM f = some l' ↔ List.Forall₂ (fun a b => f a = some b) l l' := by
  induction l generalizing l' with
  | nil =>
    rw [List.mapM_nil, List.forall₂_nil_left_iff]
    exact ⟨fun h => by cases h; rfl, fun h => by rw [h]; rfl⟩
  | cons a l ih =>
    rw [List.mapM_cons, Option.bind_eq_bind, Option.bind_eq_some_iff, List.forall₂_cons_left_iff]
    constructor
    · rintro ⟨b, hb, h⟩
      obtain ⟨bs, hbs, h'⟩ := Option.bind_eq_some_iff.mp h
      cases h'
      exact ⟨b, bs, hb, ih.mp hbs, rfl⟩
    · rintro ⟨b, bs, hb, hbs, rfl⟩
      exact ⟨b, hb, Option.bind_eq_some_iff.mpr ⟨bs, ih.mpr hbs, rfl⟩⟩

theorem map_eq_of_forall₂ {γ : Type} {f : α → γ} {g : β → γ} {l : List α} {l' : List β}
    (h : List.Forall₂ (fun a b => f a = g b) l l') : l.map f = l'.map g := by
  induction h with
  | nil => rfl
  | cons hab _ ih => rw [List.map_cons, List.map_cons, hab, ih]

theorem exists_forall₂ {R : α → β → Prop} {l : List α} (h : ∀ a ∈ l, ∃ b, R a b) :
    ∃ l', List.Forall₂ R l l' := by
  induction l with
  | nil => exact ⟨[], .nil⟩
  | cons a l ih =>
    obtain ⟨b, hb⟩ := h a List.mem_cons_self
    obtain ⟨bs, hbs⟩ := ih fun a' ha' => h a' (List.mem_cons_of_mem a ha')
    exact ⟨b :: bs, .cons hb hbs⟩

theorem perm_flatMap_of_forall₂ {f : α → List β} {l l' : List α}
    (h : List.Forall₂ (fun a b => (f a).Perm (f b)) l l') : (l.flatMap f).Perm (l'.flatMap f) := by
  induction h with
  | nil => exact .nil
  | cons hab _ ih =>
    rw [List.flatMap_cons, List.flatMap_cons]
    exact hab.append ih

/-- Two lists that are related to a third one are related to one another by what relates single elements. -/
theorem exists_forall₂_of_common {γ δ : Type} {R : α → β → Prop} {S : α → γ → Prop} {T : γ → δ → Prop}
    {U : β → δ → Prop} {l : List α} {bs : List β} {cs : List γ} (hbs : List.Forall₂ R l bs)
    (hcs : List.Forall₂ S l cs) (h : ∀ a ∈ l, ∀ b c, R a b → S a c → ∃ d, T c d ∧ U b d) :
    ∃ ds, List.Forall₂ T cs ds ∧ List.Forall₂ U bs ds := by
  induction hbs generalizing cs with
  | nil =>
    cases hcs
    exact ⟨[], .nil, .nil⟩
  | cons hab _ ih =>
    obtain ⟨c, cs', hac, hrest, rfl⟩ := List.forall₂_cons_left_iff.mp hcs
    rw [List.forall_mem_cons] at h
    obtain ⟨d, hcd, hbd⟩ := h.1 _ _ hab hac
    obtain ⟨ds, hds, hds'⟩ := ih hrest h.2
    exact ⟨d :: ds, .cons hcd hds, .cons hbd hds'⟩

theorem exists_of_mem_forall₂ {R : α → β → Prop} {l : List α} {l' : List β} {b : β}
    (h : List.Forall₂ R l l') (hb : b ∈ l') : ∃ a ∈ l, R a b := by
  induction h with
  | nil => cases hb
  | cons hR _ ih =>
    rcases List.mem_cons.mp hb with rfl | hb
    · exact ⟨_, List.mem_cons_self, hR⟩
    · obtain ⟨a, ha, hRa⟩ := ih hb
      exact ⟨a, List.mem_cons_of_mem _ ha, hRa⟩

theorem getElem?_of_forall₂ {R : α → β → Prop} {l : List α} {l' : List β}
    (h : List.Forall₂ R l l') {i : Nat} {a : α} (hi : l[i]? = some a) :
    ∃ b, l'[i]? = some b ∧ R a b := by
  induction h generalizing i with
  | nil => cases hi
  | cons hab _ ih =>
    cases i with
    | zero =>
      cases hi
      exact ⟨_, rfl, hab⟩
    | succ i => exact ih hi

theorem forall₂_map_range {γ : Type} {R : α → β → Prop} {f : Nat → α} {g : γ → β} {l : List γ}
    (h : ∀ i c, l[i]? = some c → R (f i) (g c)) :
    List.Forall₂ R ((List.range l.length).map f) (l.map g) := by
  refine List.forall₂_iff_get.mpr ⟨by simp, fun i _ hi => ?_⟩
  rw [List.length_map] at hi
  simpa using h i _ (List.getElem?_eq_getElem hi)

theorem length_le_flatMap {f : α → List β} (hf : ∀ a, f a ≠ []) (l : List α) :
    l.length ≤ (l.flatMap f).length := by
  induction l with
  | nil => exact Nat.le_refl _
  | cons a l ih =>
    have := List.length_pos_iff.mpr (hf a)
    rw [List.flatMap_cons, List.length_append, List.length_cons]
    omega

theorem getElem?_append_of_some {l l' : List α} {i : Nat} {a : α} (h : l[i]? = some a) :
    (l ++ l')[i]? = some a := by
  rw [List.getElem?_append_left (List.getElem?_eq_some_iff.mp h).1, h]

theorem getElem?_append_add {l l' : List α} {i : Nat} : (l ++ l')[l.length + i]? = l'[i]? := by
  rw [List.getElem?_append_right (Nat.le_add_right _ _), Nat.add_sub_cancel_left]

/-- Two related lists split at the same places. -/
theorem split_of_forall₂ {R : α → β → Prop} {l : List α} {front back : List β} {b : β}
    (h : List.Forall₂ R l (front ++ b :: back)) :
    ∃ front' a back', l = front' ++ a :: back' ∧ List.Forall₂ R front' front ∧ R a b ∧
      List.Forall₂ R back' back := by
  induction front generalizing l with
  | nil =>
    obtain ⟨a, back', hab, hback, rfl⟩ := List.forall₂_cons_right_iff.mp h
    exact ⟨[], a, back', rfl, .nil, hab, hback⟩
  | cons c front ih =>
    obtain ⟨d, l', hdc, hl', rfl⟩ := List.forall₂_cons_right_iff.mp h
    obtain ⟨front', a, back', rfl, hfront, hab, hback⟩ := ih hl'
    exact ⟨d :: front', a, back', rfl, .cons hdc hfront, hab, hback⟩

end UpgradeSafety
