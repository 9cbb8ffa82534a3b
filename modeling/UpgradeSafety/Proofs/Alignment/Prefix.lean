import UpgradeSafety.Proofs.Alignment.Edits

/-!
# Scripts that keep all and append

When does a script at standard prices keep the former elements and add updated ones at the end only
(`extends_iff_of_standard`)? Exactly when the former list is a beginning of the updated one. The
script marks what it adds by its index, so an addition behind the length of the former list passes
for an appended one although former elements may follow; but then another element was inserted or
replaced before it, or a former one deleted.

This is counted out: if every step keeps or appends, each former element is paired, and each
updated one up to the length of the former list, too, since only those behind it are appended.
Pairs do not cross, so equal indices are paired (`pair_self_of_extends`). The other way round,
where equal indices do not differ the diagonal is free and is the script. For comparable elements,
which differ unless they are equal, this is the prefix relation (`extends_iff_isPrefix`).
-/

namespace UpgradeSafety.Alignment

variable {α β ρ : Type}

/-- A step that keeps a former element, or adds an updated one behind the number of the former ones. -/
def Edit.Extends : Edit α β ρ → Prop
  | .equal .. | .append _ => True
  | .substitute .. | .insert _ | .delete _ => False

variable {a : List α} {b : List β} {rows : List (List (Option ρ))}

/-- If every step keeps or appends, the elements of equal index are paired. -/
theorem pair_self_of_extends {steps : List Step} {script : List (Edit α β ρ)}
    (hleads : Leads a.length 0 0 steps a.length b.length)
    (hfilled : List.Forall₂ (Filled a b rows) steps script) (h : ∀ e ∈ script, e.Extends) {i : Nat}
    (hi : i < a.length) : .pair i i ∈ steps ∧ difference rows i i = none := by
  have hstep {s : Step} (hs : s ∈ steps) :
      (∃ k l, s = .pair k l ∧ difference rows k l = none) ∨ ∃ l, s = .append l := by
    obtain ⟨k, hk⟩ := List.mem_iff_getElem?.mp hs
    obtain ⟨e, he, hse⟩ := getElem?_of_forall₂ hfilled hk
    have hext := h e (List.mem_of_getElem? he)
    cases hse with
    | equal _ _ hd => exact Or.inl ⟨_, _, rfl, hd⟩
    | append _ => exact Or.inr ⟨_, rfl⟩
    | substitute _ _ _ | insert _ | delete _ => exact hext.elim
  have hrows : ∀ k < a.length, ∃ l, .pair k l ∈ steps := by
    intro k hk
    obtain ⟨s, hs, hrow⟩ := hleads.exists_row_iff.mpr ⟨Nat.zero_le k, hk⟩
    rcases hstep hs with ⟨k', l, rfl, -⟩ | ⟨l, rfl⟩
    · cases hrow
      exact ⟨l, hs⟩
    · cases hrow
  have hcolumns : ∀ l < a.length, l < b.length → ∃ k, .pair k l ∈ steps := by
    intro l hl hlb
    obtain ⟨s, hs, hcolumn⟩ := hleads.exists_column_iff.mpr ⟨Nat.zero_le l, hlb⟩
    rcases hstep hs with ⟨k, l', rfl, -⟩ | ⟨l', rfl⟩
    · cases hcolumn
      exact ⟨k, hs⟩
    · cases hcolumn
      exact absurd (hleads.le_of_append hs) (by omega)
  obtain ⟨l, hl⟩ := hrows i hi
  cases hleads.eq_of_pair hrows hcolumns hl
  refine ⟨hl, ?_⟩
  rcases hstep hl with ⟨k, l, heq, hd⟩ | ⟨l, heq⟩
  · cases heq
    exact hd
  · cases heq

/-- At standard prices every step keeps or appends just when the updated list is no shorter and no
updated element differs from the former one of its index. -/
theorem extends_iff_of_standard {script : List (Edit α β ρ)}
    (h : edits? (.standard ρ) a b rows = some script) :
    (∀ e ∈ script, e.Extends) ↔
      a.length ≤ b.length ∧ ∀ i < a.length, difference rows i i = none := by
  constructor
  · intro hext
    obtain ⟨steps, hsteps, hfilled⟩ := edits?_eq_some_iff.mp h
    obtain ⟨steps', hsteps', hleads⟩ :=
      script?_leads ((Tariff.standard ρ).prices (known rows)) a.length b.length
    rw [hsteps] at hsteps'
    cases hsteps'
    refine ⟨?_, fun i hi => (pair_self_of_extends hleads hfilled hext hi).2⟩
    by_contra hlt
    have hpair := (pair_self_of_extends hleads hfilled hext (i := b.length) (by omega)).1
    have := hleads.exists_column_iff.mp ⟨_, hpair, rfl⟩
    omega
  · rintro ⟨hle, hsame⟩
    have hp := standard_prices_nonneg (known rows)
    -- replacing the last former element by an appended one leaves an insertion to be paid
    have hlast : ∀ i j, a.length = i + 1 → a.length ≤ j → j < b.length →
        (Tariff.standard ρ).pair (difference rows i j) ≠ 0 ∨
          0 < least ((Tariff.standard ρ).prices (known rows)) a.length i j := by
      intro i j hi hj _
      refine Or.inr (least_pos_of_ahead hp (fun k l hl => ?_) (by omega) (by omega))
      rw [Prices.insertOrAppend, if_neg (by omega)]
      exact (by decide : (2 : Int) ≠ 0)
    obtain ⟨script', hscript', hkeeps⟩ := edits?_of_diagonal hp hle hsame rfl hlast
    rw [h] at hscript'
    cases hscript'
    intro e he
    rcases hkeeps e he with ⟨x, y, rfl⟩ | ⟨-, y, rfl⟩
    · trivial
    · trivial

/-- Lists of comparable elements are aligned without any other step than keeping and appending just when
the former one is a beginning of the updated one. -/
theorem extends_iff_isPrefix [DecidableEq α] {b : List α} {d : ρ} {script : List (Edit α α ρ)}
    (h : align? (.standard ρ) a b (fun x y => if x = y then none else some d) = some script) :
    (∀ e ∈ script, e.Extends) ↔ a <+: b := by
  rw [extends_iff_of_standard h, List.prefix_iff_getElem]
  constructor
  · rintro ⟨hle, hsame⟩
    refine ⟨hle, fun i hi => ?_⟩
    have hd := hsame i hi
    rw [difference_eq] at hd
    simpa [hi, show i < b.length by omega] using hd
  · rintro ⟨hle, hsame⟩
    refine ⟨hle, fun i hi => ?_⟩
    rw [difference_eq]
    simp [hi, show i < b.length by omega, hsame i hi]

end UpgradeSafety.Alignment
