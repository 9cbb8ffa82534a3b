import UpgradeSafety.TypeId.Identifier
import Mathlib.Data.List.Chain

/-!
# Undoing escapes

What decoding makes of an escaped type id (`decodeIdentifier_escape_iff`). The three escapes
overlap with each other and with the underscores of names, so that not every text is decoded to
itself: where an underscore follows a parenthesis or a comma, where an opening parenthesis follows
an underscore, and where a comma follows a closing parenthesis, the escaped text is that of another
type id as well, and the other one is chosen.

The proof follows the text from its end. Behind an escape there are only whole escapes just when
the rest of the text does not begin with an underscore (`escapesFollow_escaped`), and when the
first character is decoded, then to the whole rest (`unescape_tail`).
-/

namespace UpgradeSafety.TypeId

/-- The escape of a character. -/
def escapeChar (c : Char) : List Char :=
  if c = ',' then ['_', '$', '_'] else if c = '(' then ['$', '_'] else if c = ')' then ['_', '$'] else [c]

/-- A text with its punctuation escaped. -/
def escaped (cs : List Char) : List Char := cs.flatMap escapeChar

/-- A type id as the compiler writes it in an identifier. -/
def escape (s : String) : String := String.ofList (escaped s.toList)

/-- Whether two characters next to each other can be told apart when both are escaped. -/
def Separable (a b : Char) : Prop :=
  ¬ ((a = '(' ∨ a = ')' ∨ a = ',') ∧ b = '_') ∧ ¬ (a = '_' ∧ b = '(') ∧ ¬ (a = ')' ∧ b = ',')

instance (a b : Char) : Decidable (Separable a b) := inferInstanceAs (Decidable (_ ∧ _))

variable {c : Char} {cs rest : List Char}

@[simp] theorem escaped_nil : escaped [] = [] := rfl

@[simp] theorem escaped_cons : escaped (c :: cs) = escapeChar c ++ escaped cs := rfl

@[simp] theorem escapeChar_comma : escapeChar ',' = ['_', '$', '_'] := rfl

@[simp] theorem escapeChar_open : escapeChar '(' = ['$', '_'] := rfl

@[simp] theorem escapeChar_close : escapeChar ')' = ['_', '$'] := rfl

@[simp] theorem escapeChar_underscore : escapeChar '_' = ['_'] := rfl

/-! ## Runs of escapes -/

theorem ne_cons_of_head? (h : cs.head? ≠ some c) (rest : List Char) : cs ≠ c :: rest := by
  rintro rfl
  exact h rfl

theorem takeWhile_ne_cons {p : Char → Bool} (h : cs.head? ≠ some c) (rest : List Char) :
    cs.takeWhile p ≠ c :: rest := by
  intro heq
  have hhead := @List.head?_takeWhile _ p cs
  rw [heq, List.head?_cons] at hhead
  exact h (Option.filter_eq_some_iff.mp hhead.symm).1

@[simp] theorem escapesFollow_open : escapesFollow ('$' :: '_' :: rest) = escapesFollow rest := by
  simp [escapesFollow, isEscapeChar, madeOfEscapes]

example : escapesFollow ['$', '_', 'S', '_', '$'] = true := by cbv

@[simp] theorem escapesFollow_nil : escapesFollow [] = true := by
  simp [escapesFollow, madeOfEscapes]

theorem escapesFollow_of_other (h : isEscapeChar c = false) : escapesFollow (c :: rest) = true := by
  simp [escapesFollow, h, madeOfEscapes]

@[simp] theorem escapesFollow_comma :
    escapesFollow ('_' :: '$' :: '_' :: rest) =
      (escapesFollow ('_' :: rest) || escapesFollow rest) := by
  simp [escapesFollow, isEscapeChar, madeOfEscapes]

theorem escapesFollow_close (h : rest.head? ≠ some '_') :
    escapesFollow ('_' :: '$' :: rest) = escapesFollow rest := by
  simp only [escapesFollow, isEscapeChar, List.takeWhile_cons, beq_self_eq_true, Bool.true_or,
    Bool.or_true, if_true]
  rw [madeOfEscapes]
  exact takeWhile_ne_cons h

theorem escapesFollow_underscore (h : rest.head? ≠ some '$') :
    escapesFollow ('_' :: rest) = false := by
  simp only [escapesFollow, isEscapeChar, List.takeWhile_cons, beq_self_eq_true, Bool.true_or, if_true]
  rw [madeOfEscapes]
  · nofun
  · nofun
  · intro rest' heq
    exact takeWhile_ne_cons h _ (List.cons.inj heq).2
  · intro rest' heq
    exact takeWhile_ne_cons h _ (List.cons.inj heq).2

theorem escapesFollow_dollar (h : rest.head? ≠ some '_') :
    escapesFollow ('$' :: rest) = false := by
  simp only [escapesFollow, isEscapeChar, List.takeWhile_cons, beq_self_eq_true, Bool.or_true, if_true]
  rw [madeOfEscapes]
  · nofun
  · intro rest' heq
    exact takeWhile_ne_cons h _ (List.cons.inj heq).2
  · nofun
  · nofun

/-! ## Steps of decoding -/

theorem unescape_open :
    unescape ('$' :: '_' :: rest) =
      if escapesFollow rest then '(' :: unescape rest else '$' :: unescape ('_' :: rest) := by
  rw [unescape]

example : unescape ['$', '_', 'S', '_', '$'] = ['(', 'S', ')'] := by cbv

theorem unescape_comma :
    unescape ('_' :: '$' :: '_' :: rest) =
      if escapesFollow rest then ',' :: unescape rest
      else if escapesFollow ('_' :: rest) then ')' :: unescape ('_' :: rest)
      else '_' :: unescape ('$' :: '_' :: rest) := by
  conv_lhs => rw [unescape]

theorem unescape_close (h : rest.head? ≠ some '_') :
    unescape ('_' :: '$' :: rest) =
      if escapesFollow rest then ')' :: unescape rest else '_' :: unescape ('$' :: rest) := by
  rw [unescape]
  exact ne_cons_of_head? h

theorem unescape_underscore (h : rest.head? ≠ some '$') :
    unescape ('_' :: rest) = '_' :: unescape rest := by
  rw [unescape]
  · intro rest' heq
    exact absurd heq (by decide)
  · intro rest' _ heq
    exact ne_cons_of_head? h _ heq
  · intro rest' _ heq
    exact ne_cons_of_head? h _ heq

theorem unescape_of_other (h : isEscapeChar c = false) : unescape (c :: rest) = c :: unescape rest := by
  rw [unescape]
  · rintro rest' rfl
    cases h
  · rintro rest' rfl
    cases h
  · rintro rest' rfl
    cases h

/-! ## Escaped texts -/

theorem plain_or_structuring (c : Char) :
    c = '(' ∨ c = ')' ∨ c = ',' ∨ c = '_' ∨ c = '$' ∨ (isEscapeChar c = false ∧ escapeChar c = [c]) := by
  by_cases hopen : c = '('
  · exact Or.inl hopen
  by_cases hclose : c = ')'
  · exact Or.inr (Or.inl hclose)
  by_cases hcomma : c = ','
  · exact Or.inr (Or.inr (Or.inl hcomma))
  by_cases hunderscore : c = '_'
  · exact Or.inr (Or.inr (Or.inr (Or.inl hunderscore)))
  by_cases hdollar : c = '$'
  · exact Or.inr (Or.inr (Or.inr (Or.inr (Or.inl hdollar))))
  · refine Or.inr (Or.inr (Or.inr (Or.inr (Or.inr ⟨?_, ?_⟩))))
    · simp [isEscapeChar, hunderscore, hdollar]
    · simp [escapeChar, hcomma, hopen, hclose]

theorem head?_escaped : (escaped cs).head? = cs.head?.bind fun c => (escapeChar c).head? := by
  cases cs with
  | nil => rfl
  | cons c cs =>
    obtain rfl | rfl | rfl | rfl | rfl | ⟨-, hplain⟩ := plain_or_structuring c
    · rfl
    · rfl
    · rfl
    · rfl
    · rfl
    · simp [hplain]

/-- Only an opening parenthesis is escaped to a text that begins with a dollar. -/
theorem head?_escaped_dollar (hdollar : '$' ∉ cs) (h : (escaped cs).head? = some '$') :
    cs.head? = some '(' := by
  rw [head?_escaped] at h
  obtain ⟨c, hc, h⟩ := Option.bind_eq_some_iff.mp h
  rw [hc]
  obtain rfl | rfl | rfl | rfl | rfl | ⟨hplain, heq⟩ := plain_or_structuring c
  · rfl
  · cases h
  · cases h
  · cases h
  · exact absurd (List.mem_of_mem_head? hc) hdollar
  · rw [heq, List.head?_cons, Option.some.injEq] at h
    subst h
    cases hplain

theorem head?_escaped_underscore (h : (escaped cs).head? = some '_') :
    ∃ c, cs.head? = some c ∧ (c = ')' ∨ c = ',' ∨ c = '_') := by
  rw [head?_escaped] at h
  obtain ⟨c, hc, h⟩ := Option.bind_eq_some_iff.mp h
  refine ⟨c, hc, ?_⟩
  obtain rfl | rfl | rfl | rfl | rfl | ⟨hplain, heq⟩ := plain_or_structuring c
  · cases h
  · exact Or.inl rfl
  · exact Or.inr (Or.inl rfl)
  · exact Or.inr (Or.inr rfl)
  · cases h
  · rw [heq, List.head?_cons, Option.some.injEq] at h
    subst h
    cases hplain

/-- Behind an escape only whole escapes follow, unless the next character is an underscore. -/
theorem escapesFollow_escaped (hdollar : '$' ∉ cs) (h : cs.IsChain Separable) :
    escapesFollow (escaped cs) = true ↔ cs.head? ≠ some '_' := by
  induction cs with
  | nil => simp
  | cons c cs ih =>
    rw [List.isChain_cons] at h
    obtain ⟨hc, h⟩ := h
    rw [List.mem_cons, not_or] at hdollar
    have ih := ih hdollar.2 h
    obtain rfl | rfl | rfl | rfl | rfl | ⟨hplain, heq⟩ := plain_or_structuring c
    · have hnext : cs.head? ≠ some '_' := fun hnext => (hc _ hnext).1 ⟨Or.inl rfl, rfl⟩
      simp [ih.mpr hnext]
    · have hnext : cs.head? ≠ some '_' := fun hnext => (hc _ hnext).1 ⟨Or.inr (Or.inl rfl), rfl⟩
      by_cases hhead : (escaped cs).head? = some '_'
      · obtain ⟨rest, hrest⟩ := List.head?_eq_some_iff.mp hhead
        have hfollow := ih.mpr hnext
        rw [hrest] at hfollow
        simp [hrest, hfollow]
      · simp [escapesFollow_close hhead, ih.mpr hnext]
    · have hnext : cs.head? ≠ some '_' :=
        fun hnext => (hc _ hnext).1 ⟨Or.inr (Or.inr rfl), rfl⟩
      simp [ih.mpr hnext]
    · have hhead : (escaped cs).head? ≠ some '$' := by
        intro hhead
        exact (hc _ (head?_escaped_dollar hdollar.2 hhead)).2.1 ⟨rfl, rfl⟩
      simp [escapesFollow_underscore hhead]
    · exact absurd rfl hdollar.1
    · have hne : c ≠ '_' := by
        rintro rfl
        cases hplain
      simp [heq, escapesFollow_of_other hplain, hne]

/-- Between two closing parentheses the underscore belongs to the second. -/
theorem escapesFollow_dollar_escaped (hdollar : '$' ∉ cs) (h : (')' :: cs).IsChain Separable) :
    escapesFollow ('$' :: escaped cs) = false := by
  induction cs with
  | nil => exact escapesFollow_dollar (by simp)
  | cons c cs ih =>
    rw [List.isChain_cons] at h
    obtain ⟨hc, h⟩ := h
    have hc := hc c rfl
    rw [List.mem_cons, not_or] at hdollar
    obtain rfl | rfl | rfl | rfl | rfl | ⟨hplain, heq⟩ := plain_or_structuring c
    · exact escapesFollow_dollar (by simp)
    · have ih := ih hdollar.2 h
      simpa using ih
    · exact absurd ⟨rfl, rfl⟩ hc.2.2
    · exact absurd ⟨Or.inr (Or.inl rfl), rfl⟩ hc.1
    · exact absurd rfl hdollar.1
    · refine escapesFollow_dollar ?_
      rw [escaped_cons, heq]
      rintro hhead
      cases hhead
      cases hplain

/-- Two closing parentheses are decoded one after the other. -/
theorem unescape_close_close (hdollar : '$' ∉ cs) (h : (')' :: cs).IsChain Separable) :
    unescape (escaped (')' :: ')' :: cs)) = ')' :: unescape (escaped (')' :: cs)) := by
  have hfollow : escapesFollow (escaped (')' :: cs)) = true :=
    (escapesFollow_escaped (by simp [hdollar]) h).mpr (by simp)
  have hdollars := escapesFollow_dollar_escaped hdollar h
  simp only [escaped_cons, escapeChar_close, List.cons_append, List.nil_append] at hfollow ⊢
  simp [unescape_comma, hdollars, hfollow]

/-- Where the characters can be told apart, an escaped text is decoded to itself. -/
theorem unescape_escaped (hdollar : '$' ∉ cs) (h : cs.IsChain Separable) :
    unescape (escaped cs) = cs := by
  induction cs with
  | nil => simp [unescape]
  | cons c cs ih =>
    have hcs := (List.isChain_cons.mp h).2
    have hc := (List.isChain_cons.mp h).1
    rw [List.mem_cons, not_or] at hdollar
    have ih := ih hdollar.2 hcs
    have hfollow := escapesFollow_escaped hdollar.2 hcs
    obtain rfl | rfl | rfl | rfl | rfl | ⟨hplain, heq⟩ := plain_or_structuring c
    · have hnext : cs.head? ≠ some '_' := fun hnext => (hc _ hnext).1 ⟨Or.inl rfl, rfl⟩
      simp [unescape_open, hfollow.mpr hnext, ih]
    · have hnext : cs.head? ≠ some '_' := fun hnext => (hc _ hnext).1 ⟨Or.inr (Or.inl rfl), rfl⟩
      by_cases hhead : (escaped cs).head? = some '_'
      · obtain ⟨b, hb, rfl | rfl | rfl⟩ := head?_escaped_underscore hhead
        · obtain ⟨rest, rfl⟩ := List.head?_eq_some_iff.mp hb
          rw [unescape_close_close (fun hmem => hdollar.2 (List.mem_cons_of_mem _ hmem)) hcs, ih]
        · exact absurd ⟨rfl, rfl⟩ (hc _ hb).2.2
        · exact absurd hb hnext
      · simp [unescape_close hhead, hfollow.mpr hnext, ih]
    · have hnext : cs.head? ≠ some '_' :=
        fun hnext => (hc _ hnext).1 ⟨Or.inr (Or.inr rfl), rfl⟩
      simp [unescape_comma, hfollow.mpr hnext, ih]
    · have hhead : (escaped cs).head? ≠ some '$' := by
        intro hhead
        exact (hc _ (head?_escaped_dollar hdollar.2 hhead)).2.1 ⟨rfl, rfl⟩
      simp [unescape_underscore hhead, ih]
    · exact absurd rfl hdollar.1
    · simp [heq, unescape_of_other hplain, ih]

/-! ## Texts that are decoded to themselves -/

/-- When the first character is decoded, what follows its escape is decoded on its own. -/
theorem unescape_tail (hdollar : '$' ∉ c :: cs) (h : unescape (escaped (c :: cs)) = c :: rest) :
    unescape (escaped cs) = rest := by
  rw [List.mem_cons, not_or] at hdollar
  obtain rfl | rfl | rfl | rfl | rfl | ⟨hplain, heq⟩ := plain_or_structuring c
  · simp only [escaped_cons, escapeChar_open, List.cons_append, List.nil_append, unescape_open] at h
    split at h
    · exact (List.cons.inj h).2
    · simp at h
  · simp only [escaped_cons, escapeChar_close, List.cons_append, List.nil_append] at h
    by_cases hhead : (escaped cs).head? = some '_'
    · obtain ⟨cs', hcs⟩ := List.head?_eq_some_iff.mp hhead
      rw [hcs, unescape_comma] at h
      split at h
      · simp at h
      · split at h
        · rw [hcs]
          exact (List.cons.inj h).2
        · simp at h
    · rw [unescape_close hhead] at h
      split at h
      · exact (List.cons.inj h).2
      · simp at h
  · simp only [escaped_cons, escapeChar_comma, List.cons_append, List.nil_append, unescape_comma] at h
    split at h
    · exact (List.cons.inj h).2
    · split at h
      · simp at h
      · simp at h
  · simp only [escaped_cons, escapeChar_underscore, List.cons_append, List.nil_append] at h
    by_cases hhead : (escaped cs).head? = some '$'
    · obtain ⟨cs', rfl⟩ := List.head?_eq_some_iff.mp (head?_escaped_dollar hdollar.2 hhead)
      simp only [escaped_cons, escapeChar_open, List.cons_append, List.nil_append,
        unescape_comma] at h ⊢
      split at h
      · simp at h
      · split at h
        · simp at h
        · exact (List.cons.inj h).2
    · rw [unescape_underscore hhead] at h
      exact (List.cons.inj h).2
  · exact absurd rfl hdollar.1
  · simp only [escaped_cons, heq, List.cons_append, List.nil_append, unescape_of_other hplain] at h
    exact (List.cons.inj h).2

/-- Two characters that cannot be told apart are not both decoded. -/
theorem separable_of_unescape {b : Char} (hdollar : '$' ∉ c :: b :: cs)
    (hcs : (b :: cs).IsChain Separable)
    (h : unescape (escaped (c :: b :: cs)) = c :: b :: cs) : Separable c b := by
  have hdollar' : '$' ∉ b :: cs := fun hmem => hdollar (List.mem_cons_of_mem _ hmem)
  have hdollar'' : '$' ∉ cs := fun hmem => hdollar' (List.mem_cons_of_mem _ hmem)
  have hfollow := escapesFollow_escaped hdollar' hcs
  have hb := (List.isChain_cons.mp hcs).1
  have hfollow' := escapesFollow_escaped hdollar'' (List.isChain_cons.mp hcs).2
  refine ⟨?_, ?_, ?_⟩
  · rintro ⟨hc, rfl⟩
    have hnone : escapesFollow ('_' :: escaped cs) = false := by simpa using hfollow
    rcases hc with rfl | rfl | rfl
    · simp [unescape_open, hnone] at h
    · simp only [escaped_cons, escapeChar_close, escapeChar_underscore, List.cons_append,
        List.nil_append, unescape_comma, hnone] at h
      split at h
      · simp at h
      · simp at h
    · simp only [escaped_cons, escapeChar_comma, escapeChar_underscore, List.cons_append,
        List.nil_append, unescape_comma, hnone] at h
      split at h
      · simp at *
      · split at h
        · simp at h
        · simp at h
  · rintro ⟨rfl, rfl⟩
    have hnext : cs.head? ≠ some '_' := fun hnext => (hb _ hnext).1 ⟨Or.inl rfl, rfl⟩
    simp [unescape_comma, hfollow'.mpr hnext] at h
  · rintro ⟨rfl, rfl⟩
    have hnext : cs.head? ≠ some '_' := fun hnext => (hb _ hnext).1 ⟨Or.inr (Or.inr rfl), rfl⟩
    simp [unescape_comma, hfollow'.mpr hnext] at h

/-- A text without dollars is decoded to itself just when all its neighbours can be told apart. -/
theorem unescape_escaped_iff (hdollar : '$' ∉ cs) :
    unescape (escaped cs) = cs ↔ cs.IsChain Separable := by
  refine ⟨fun h => ?_, unescape_escaped hdollar⟩
  induction cs with
  | nil => exact .nil
  | cons c cs ih =>
    have hcs := ih (fun hmem => hdollar (List.mem_cons_of_mem _ hmem)) (unescape_tail hdollar h)
    rw [List.isChain_cons]
    refine ⟨fun b hb => ?_, hcs⟩
    obtain ⟨rest, rfl⟩ := List.head?_eq_some_iff.mp hb
    exact separable_of_unescape hdollar hcs h

theorem decodeIdentifier_escape (s : String) :
    decodeIdentifier (escape s) = s ↔ unescape (escaped s.toList) = s.toList := by
  rw [decodeIdentifier, escape, String.toList_ofList]
  constructor
  · intro h
    rw [← String.toList_ofList (l := unescape (escaped s.toList)), h]
  · intro h
    rw [h, String.ofList_toList]

/-- A type id without dollars is decoded from its identifier just when no underscore stands behind a
parenthesis or a comma, no opening parenthesis behind an underscore and no comma behind a closing
parenthesis. -/
theorem decodeIdentifier_escape_iff (s : String) (hdollar : '$' ∉ s.toList) :
    decodeIdentifier (escape s) = s ↔ s.toList.IsChain Separable := by
  rw [decodeIdentifier_escape, unescape_escaped_iff hdollar]

theorem decodeIdentifier_escape_iff_struct :
    '$' ∉ "t_struct(S)1_storage".toList ∧
    decodeIdentifier (escape "t_struct(S)1_storage") = "t_struct(S)1_storage" :=
  ⟨by decide, (decodeIdentifier_escape_iff _ (by decide)).mpr (by decide)⟩

/-- The underscore that a struct's name begins with is taken for one of the escape before it. -/
theorem decodeIdentifier_escape_underscore :
    decodeIdentifier (escape "t_struct(_S)1_storage") ≠ "t_struct(_S)1_storage" := by
  rw [Ne, decodeIdentifier_escape, unescape_escaped_iff (by decide)]
  decide

end UpgradeSafety.TypeId
