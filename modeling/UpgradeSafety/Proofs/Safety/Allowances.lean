import Mathlib.Data.List.Basic
import Mathlib.Data.List.Induction
import UpgradeSafety.Safety.Error

/-!
# What a caller allows

Expanding options is a closure: it adds the flags and kinds that others imply, and nothing else
(`expand_within`). The errors of a contract are sifted one by one, and what has been dropped so far
decides about warnings; what remains in the end is a filter, and the warnings are the kinds that
were dropped in the order in which they first occur (`foldl_next`).

Kinds are listed, and the order of the list is that in which they were first given, so expanding is
not only a matter of sets: the kinds for which flags stand come behind those that were listed, each
of them once (`FirstOccurrences`). Comparing two callers looks at membership alone (`Within`), and
the expansion is the least among those that are closed.

* `dropAllowed_exact`: options drop the errors of the kinds that they allow, with one warning for
  each kind, and allowing more never keeps an error that was dropped.
-/

namespace UpgradeSafety

/-! ## First occurrences -/

section

variable {α : Type} [DecidableEq α] {l ks ks' : List α} {k : α}

/-- The elements of a list, in the order in which they first occur in it. -/
structure FirstOccurrences (l ks : List α) : Prop where
  mem_iff : ∀ k, k ∈ ks ↔ k ∈ l
  ordered : ks.Pairwise fun a b => l.idxOf a < l.idxOf b

theorem FirstOccurrences.nodup (h : FirstOccurrences l ks) : ks.Nodup := by
  refine h.ordered.imp fun hlt heq => ?_
  rw [heq] at hlt
  exact Nat.lt_irrefl _ hlt

theorem FirstOccurrences.nil : FirstOccurrences ([] : List α) [] := ⟨fun _ => Iff.rfl, .nil⟩

/-- What comes behind a list is first met there only if the list does not have it. -/
theorem FirstOccurrences.concat (h : FirstOccurrences l ks) (k : α) :
    FirstOccurrences (l ++ [k]) (if k ∈ ks then ks else ks ++ [k]) := by
  have hordered : ks.Pairwise fun a b => (l ++ [k]).idxOf a < (l ++ [k]).idxOf b := by
    refine h.ordered.imp_of_mem fun ha hb hlt => ?_
    rwa [List.idxOf_append_of_mem ((h.mem_iff _).mp ha), List.idxOf_append_of_mem ((h.mem_iff _).mp hb)]
  by_cases hk : k ∈ ks
  · rw [if_pos hk]
    refine ⟨fun a => ?_, hordered⟩
    rw [List.mem_append, List.mem_singleton, h.mem_iff]
    constructor
    · intro ha
      exact Or.inl ha
    · rintro (ha | rfl)
      · exact ha
      · exact (h.mem_iff _).mp hk
  · rw [if_neg hk]
    refine ⟨fun a => ?_, List.pairwise_append.mpr ⟨hordered, List.pairwise_singleton .., ?_⟩⟩
    · rw [List.mem_append, List.mem_append, h.mem_iff]
    · intro a ha b hb
      obtain rfl := List.mem_singleton.mp hb
      have hnew : b ∉ l := fun hb => hk ((h.mem_iff b).mpr hb)
      rw [List.idxOf_append_of_mem ((h.mem_iff a).mp ha), List.idxOf_append_of_notMem hnew]
      exact Nat.lt_add_right _ (List.idxOf_lt_length_of_mem ((h.mem_iff a).mp ha))

end

namespace ValidationOptions

theorem firstOccurrences_concat (l : List SafetyKind) (k : SafetyKind) : firstOccurrences (l ++ [k]) =
    if k ∈ firstOccurrences l then firstOccurrences l else firstOccurrences l ++ [k] := by
  rw [firstOccurrences, List.foldl_append]
  rfl

theorem firstOccurrences_spec (l : List SafetyKind) : FirstOccurrences l (firstOccurrences l) := by
  induction l using List.reverseRecOn with
  | nil => exact .nil
  | append_singleton l k ih =>
    rw [firstOccurrences_concat]
    exact ih.concat k

theorem mem_firstOccurrences {l : List SafetyKind} {k : SafetyKind} :
    k ∈ firstOccurrences l ↔ k ∈ l := (firstOccurrences_spec l).mem_iff k

/-- Nothing is left out of a list without repetitions. -/
theorem firstOccurrences_of_nodup {l : List SafetyKind} (h : l.Nodup) : firstOccurrences l = l := by
  induction l using List.reverseRecOn with
  | nil => rfl
  | append_singleton l k ih =>
    obtain ⟨hl, -, hdisjoint⟩ := List.nodup_append.mp h
    have hnew : k ∉ l := fun hk => hdisjoint k hk k (List.mem_singleton_self k) rfl
    rw [firstOccurrences_concat, ih hl, if_neg hnew]

/-- What a list has already adds nothing behind it. -/
theorem firstOccurrences_append_of_subset {l more : List SafetyKind} (h : more ⊆ l) :
    firstOccurrences (l ++ more) = firstOccurrences l := by
  induction more using List.reverseRecOn with
  | nil => rw [List.append_nil]
  | append_singleton more k ih =>
    obtain ⟨hmore, hk⟩ := List.append_subset.mp h
    have hold : k ∈ firstOccurrences l := mem_firstOccurrences.mpr (hk (List.mem_singleton_self k))
    rw [← List.append_assoc, firstOccurrences_concat, ih hmore, if_pos hold]

/-! ## Expanding options -/

/-- One caller allows no more than another. -/
structure Within (o o' : ValidationOptions) : Prop where
  unsafeAllow : o.unsafeAllow ⊆ o'.unsafeAllow
  customTypes : o.customTypes = true → o'.customTypes = true
  linkedLibraries : o.linkedLibraries = true → o'.linkedLibraries = true

/-- Every flag is set together with the kinds that it stands for. -/
structure Closed (o : ValidationOptions) : Prop where
  customTypes : o.customTypes = true ↔
    .structDefinition ∈ o.unsafeAllow ∧ .enumDefinition ∈ o.unsafeAllow
  linkedLibraries : o.linkedLibraries = true ↔ .externalLibraryLinking ∈ o.unsafeAllow

/-- The kinds that the flags of options stand for. -/
def flagged (o : ValidationOptions) : List SafetyKind :=
  (if o.customTypes then [.enumDefinition, .structDefinition] else []) ++
    (if o.linkedLibraries then [.externalLibraryLinking] else [])

variable {o o' : ValidationOptions} {k : SafetyKind}

theorem mem_flagged : k ∈ o.flagged ↔
    (o.customTypes = true ∧ (k = .enumDefinition ∨ k = .structDefinition)) ∨
      (o.linkedLibraries = true ∧ k = .externalLibraryLinking) := by
  unfold flagged
  cases o.customTypes <;> cases o.linkedLibraries <;> simp [or_assoc]

theorem customTypes_expand : o.expand.customTypes = true ↔ o.customTypes = true ∨
    (.structDefinition ∈ o.unsafeAllow ∧ .enumDefinition ∈ o.unsafeAllow) := by
  simp [expand]

theorem linkedLibraries_expand : o.expand.linkedLibraries = true ↔
    o.linkedLibraries = true ∨ .externalLibraryLinking ∈ o.unsafeAllow := by
  simp [expand]

theorem unsafeAllow_expand (o : ValidationOptions) :
    o.expand.unsafeAllow = firstOccurrences (o.unsafeAllow ++ o.expand.flagged) := by
  rw [flagged, ← List.append_assoc]
  rfl

theorem mem_expand : k ∈ o.expand.unsafeAllow ↔ k ∈ o.unsafeAllow ∨ k ∈ o.expand.flagged := by
  rw [unsafeAllow_expand, mem_firstOccurrences, List.mem_append]

theorem within_expand (o : ValidationOptions) : o.Within o.expand where
  unsafeAllow _ hk := mem_expand.mpr (Or.inl hk)
  customTypes h := customTypes_expand.mpr (Or.inl h)
  linkedLibraries h := linkedLibraries_expand.mpr (Or.inl h)

theorem closed_expand (o : ValidationOptions) : o.expand.Closed where
  customTypes := by
    constructor
    · intro h
      exact ⟨mem_expand.mpr (Or.inr (mem_flagged.mpr (Or.inl ⟨h, Or.inr rfl⟩))),
        mem_expand.mpr (Or.inr (mem_flagged.mpr (Or.inl ⟨h, Or.inl rfl⟩)))⟩
    · rintro ⟨hstruct, henum⟩
      -- A kind of types is in the expansion for the flag, or because it was listed.
      rcases mem_expand.mp hstruct with hstruct | hflag
      · rcases mem_expand.mp henum with henum | hflag
        · exact customTypes_expand.mpr (Or.inr ⟨hstruct, henum⟩)
        · exact (mem_flagged.mp hflag).elim And.left fun h => nomatch h.2
      · exact (mem_flagged.mp hflag).elim And.left fun h => nomatch h.2
  linkedLibraries := by
    constructor
    · intro h
      exact mem_expand.mpr (Or.inr (mem_flagged.mpr (Or.inr ⟨h, rfl⟩)))
    · intro hlinking
      rcases mem_expand.mp hlinking with hlinking | hflag
      · exact linkedLibraries_expand.mpr (Or.inr hlinking)
      · exact (mem_flagged.mp hflag).elim (fun h => nomatch h.2) And.left

/-- The expansion is the least that is closed: whoever allows as much, and what it implies, allows all of
it. -/
theorem expand_within (h : o.Within o') (hclosed : o'.Closed) : o.expand.Within o' := by
  have hcustom : o.expand.customTypes = true → o'.customTypes = true := by
    intro hflag
    rcases customTypes_expand.mp hflag with hflag | ⟨hstruct, henum⟩
    · exact h.customTypes hflag
    · exact hclosed.customTypes.mpr ⟨h.unsafeAllow hstruct, h.unsafeAllow henum⟩
  have hlinked : o.expand.linkedLibraries = true → o'.linkedLibraries = true := by
    intro hflag
    rcases linkedLibraries_expand.mp hflag with hflag | hlinking
    · exact h.linkedLibraries hflag
    · exact hclosed.linkedLibraries.mpr (h.unsafeAllow hlinking)
  refine ⟨fun k hk => ?_, hcustom, hlinked⟩
  rcases mem_expand.mp hk with hk | hk
  · exact h.unsafeAllow hk
  · rcases mem_flagged.mp hk with ⟨hflag, rfl | rfl⟩ | ⟨hflag, rfl⟩
    · exact (hclosed.customTypes.mp (hcustom hflag)).2
    · exact (hclosed.customTypes.mp (hcustom hflag)).1
    · exact hclosed.linkedLibraries.mp (hlinked hflag)

theorem Within.trans {o'' : ValidationOptions} (h : o.Within o') (h' : o'.Within o'') :
    o.Within o'' where
  unsafeAllow := List.Subset.trans h.unsafeAllow h'.unsafeAllow
  customTypes hflag := h'.customTypes (h.customTypes hflag)
  linkedLibraries hflag := h'.linkedLibraries (h.linkedLibraries hflag)

/-- Allowing more implies more. -/
theorem Within.expand (h : o.Within o') : o.expand.Within o'.expand :=
  expand_within (h.trans (within_expand o')) (closed_expand o')

/-- Nothing is added to options that are expanded already. -/
theorem expand_expand (o : ValidationOptions) : o.expand.expand = o.expand := by
  have hwithin : o.expand.expand.Within o.expand :=
    expand_within ⟨List.Subset.refl _, id, id⟩ (closed_expand o)
  have hback := within_expand o.expand
  have hcustom : o.expand.expand.customTypes = o.expand.customTypes :=
    Bool.eq_iff_iff.mpr ⟨hwithin.customTypes, hback.customTypes⟩
  have hlinked : o.expand.expand.linkedLibraries = o.expand.linkedLibraries :=
    Bool.eq_iff_iff.mpr ⟨hwithin.linkedLibraries, hback.linkedLibraries⟩
  have hallow : o.expand.expand.unsafeAllow = o.expand.unsafeAllow := by
    have hflagged : o.expand.expand.flagged ⊆ o.expand.unsafeAllow := fun k hk =>
      hwithin.unsafeAllow (mem_expand.mpr (Or.inr hk))
    have hnodup : o.expand.unsafeAllow.Nodup := by
      rw [unsafeAllow_expand]
      exact (firstOccurrences_spec _).nodup
    rw [unsafeAllow_expand, firstOccurrences_append_of_subset hflagged, firstOccurrences_of_nodup hnodup]
  calc o.expand.expand
      = { o.expand with
          unsafeAllow := o.expand.expand.unsafeAllow
          customTypes := o.expand.expand.customTypes
          linkedLibraries := o.expand.expand.linkedLibraries } := rfl
    _ = o.expand := by rw [hallow, hcustom, hlinked]

end ValidationOptions

/-! ## Sifting errors -/

namespace Safety

open ValidationOptions

/-- What remains is a filter, and each kind is dropped where it first occurs. -/
theorem foldl_next (allowed : List SafetyKind) (errors : List SafetyError) :
    errors.foldl (Sifted.next allowed) {} = ⟨errors.filter (·.kind ∉ allowed),
      firstOccurrences ((errors.map (·.kind)).filter (· ∈ allowed))⟩ := by
  induction errors using List.reverseRecOn with
  | nil => rfl
  | append_singleton errors e ih =>
    rw [List.foldl_append, ih, List.foldl_cons, List.foldl_nil, Sifted.next, List.filter_append,
      List.map_append, List.filter_append]
    by_cases hallowed : e.kind ∈ allowed
    · simp only [List.map_cons, List.map_nil, List.filter_cons, hallowed, not_true_eq_false, decide_false,
        decide_true, Bool.false_eq_true, if_true, if_false, List.filter_nil, List.append_nil,
        firstOccurrences_concat]
      split <;> rfl
    · simp [hallowed]

theorem dropAllowed_eq (contract : String) (errors : List SafetyError) (o : ValidationOptions) :
    dropAllowed contract errors o = (errors.filter (·.kind ∉ o.expand.unsafeAllow),
      (firstOccurrences ((errors.map (·.kind)).filter (· ∈ o.expand.unsafeAllow))).map
        (allowedWarning contract)) := by
  rw [dropAllowed, foldl_next]

/-- Who allows more is left with fewer errors. -/
theorem remaining_sublist {o o' : ValidationOptions} (contract : String) (errors : List SafetyError)
    (h : o.Within o') :
    (dropAllowed contract errors o').1.Sublist (dropAllowed contract errors o).1 := by
  rw [dropAllowed_eq, dropAllowed_eq]
  refine List.monotone_filter_right errors fun e he => ?_
  rw [decide_eq_true_eq] at he ⊢
  exact fun hallowed => he (h.expand.unsafeAllow hallowed)

/-- Expanding options is a closure, whose kinds are listed in the order in which they were first given.
Options and their expansion drop the same errors: those of the kinds in the expansion, and no others. Every
kind that is dropped is warned about once, in the order in which the kinds first occur. Who allows more is
left with no error that was dropped. -/
theorem dropAllowed_exact (o : ValidationOptions) (contract : String) (errors : List SafetyError) :
    (o.expand.expand = o.expand ∧ o.Within o.expand ∧ o.expand.Closed ∧
      ∀ o', o.Within o' → o'.Closed → o.expand.Within o') ∧
    FirstOccurrences (o.unsafeAllow ++ o.expand.flagged) o.expand.unsafeAllow ∧
    o.expand.unsafeAllow.Nodup ∧
    dropAllowed contract errors o.expand = dropAllowed contract errors o ∧
    (dropAllowed contract errors o).1 = errors.filter (·.kind ∉ o.expand.unsafeAllow) ∧
    (∃ dropped, (dropAllowed contract errors o).2 = dropped.map (allowedWarning contract) ∧
      FirstOccurrences ((errors.map (·.kind)).filter (· ∈ o.expand.unsafeAllow)) dropped ∧
      dropped.Nodup) ∧
    ∀ o', o.Within o' →
      (dropAllowed contract errors o').1.Sublist (dropAllowed contract errors o).1 := by
  have hkinds : FirstOccurrences (o.unsafeAllow ++ o.expand.flagged) o.expand.unsafeAllow := by
    rw [unsafeAllow_expand]
    exact firstOccurrences_spec _
  have hdropped := firstOccurrences_spec ((errors.map (·.kind)).filter (· ∈ o.expand.unsafeAllow))
  refine ⟨⟨expand_expand o, within_expand o, closed_expand o, fun _ => expand_within⟩, hkinds,
    hkinds.nodup, ?_, ?_, ⟨_, ?_, hdropped, hdropped.nodup⟩, fun _ => remaining_sublist contract errors⟩
  · rw [dropAllowed, dropAllowed, expand_expand]
  · rw [dropAllowed_eq]
  · rw [dropAllowed_eq]

/-- Options that list the kinds which allow custom types, and one kind twice. -/
def listing : ValidationOptions where
  unsafeAllow := [.structDefinition, .delegatecall, .enumDefinition, .delegatecall]

/-- Options that allow libraries and constructors as well. -/
def generous : ValidationOptions where
  unsafeAllow := .constructor :: listing.unsafeAllow
  linkedLibraries := true

/-- Errors of four kinds, two of them delegated calls. -/
def vaultErrors : List SafetyError := [
  { kind := .delegatecall, src := .str "vault.sol:1" },
  { kind := .constructor, src := .str "vault.sol:2", contract := .str "Vault" },
  { kind := .selfdestruct, src := .str "vault.sol:3" },
  { kind := .externalLibraryLinking, src := .str "lib.sol", name := .str "Lib" },
  { kind := .delegatecall, src := .str "vault.sol:4" }]

theorem dropAllowed_exact_generous : listing.Within generous ∧
    generous.expand.Closed ∧ listing.expand.Within generous.expand ∧
    listing.expand.unsafeAllow = [.structDefinition, .delegatecall, .enumDefinition] ∧
    listing.expand.customTypes = true ∧
    (dropAllowed "Vault" vaultErrors listing).2 = [allowedWarning "Vault" .delegatecall] ∧
    (dropAllowed "Vault" vaultErrors listing).1.map (·.kind) =
      [.constructor, .selfdestruct, .externalLibraryLinking] ∧
    (dropAllowed "Vault" vaultErrors generous).1.map (·.kind) = [.selfdestruct] ∧
    (dropAllowed "Vault" vaultErrors generous).1.Sublist (dropAllowed "Vault" vaultErrors listing).1 := by
  have hwithin : listing.Within generous := ⟨by decide, by decide, by decide⟩
  have hclosed : generous.expand.Closed := closed_expand generous
  obtain ⟨⟨-, -, -, hleast⟩, -, -, -, -, -, hfewer⟩ := dropAllowed_exact listing "Vault" vaultErrors
  exact ⟨hwithin, hclosed, hleast _ (hwithin.trans (within_expand generous)) hclosed, by decide, by decide,
    rfl, rfl, rfl, hfewer generous hwithin⟩

end Safety

end UpgradeSafety
