import UpgradeSafety.Proofs.TypeId.Reading

/-!
# Type ids as trees

A type id writes a tree: a name, alone or with arguments in parentheses and then a tail, or with
arguments, a word and return types. Names, tails and words hold no parentheses and no commas, and
names are not empty (`Word`, `Name`), so every tree can be written.

* `Tree.read_text`: what is read for a written tree is the tree: at every node its head, its
  arguments, its tail and its return types, and as the id the text of that node.
* `Tree.text_injective`: different trees are written differently. What is read leaves out the word
  before the return types, but holds the whole text.
* `read_trees`: both, and exactly which texts are refused.
-/

namespace UpgradeSafety.TypeId

/-- A character that does not structure a type id. -/
def IsPlain (c : Char) : Prop := c ≠ '(' ∧ c ≠ ')' ∧ c ≠ ','

instance (c : Char) : Decidable (IsPlain c) := inferInstanceAs (Decidable (_ ∧ _))

/-- A text that may stand behind a closing parenthesis. -/
@[ext]
structure Word where
  chars : List Char
  plain : ∀ c ∈ chars, IsPlain c

/-- A text that may stand before an opening parenthesis, or alone. -/
@[ext]
structure Name extends Word where
  nonempty : chars ≠ []

/-- The tree that a type id writes. -/
inductive Tree where
  | name (head : Name)
  | applied (head : Name) (args : List Tree) (tail : Word)
  | function (head : Name) (args : List Tree) (word : Word) (rets : List Tree)

mutual

/-- The text of a tree. -/
def Tree.chars : Tree → List Char
  | .name head => head.chars
  | .applied head args tail => head.chars ++ '(' :: (separated args ++ ')' :: tail.chars)
  | .function head args word rets =>
    head.chars ++ '(' :: (separated args ++ ')' :: (word.chars ++ '(' :: (separated rets ++ [')'])))

/-- The texts of trees with commas between them. -/
def separated : List Tree → List Char
  | [] => []
  | [t] => t.chars
  | t :: u :: rest => t.chars ++ ',' :: separated (u :: rest)

end

mutual

/-- The type id that a tree is: every node with its own text as its id. -/
def Tree.parsed (t : Tree) : TypeId :=
  match t with
  | .name head => ⟨String.ofList t.chars, String.ofList head.chars, none, none, none⟩
  | .applied head args tail =>
    ⟨String.ofList t.chars, String.ofList head.chars, some (parsedAll args),
      if tail.chars.isEmpty then none else some (String.ofList tail.chars), none⟩
  | .function head args _ rets =>
    ⟨String.ofList t.chars, String.ofList head.chars, some (parsedAll args), none, some (parsedAll rets)⟩

/-- The type ids that trees are. -/
def parsedAll : List Tree → List TypeId
  | [] => []
  | t :: rest => t.parsed :: parsedAll rest

end

/-- The text of a tree. -/
def Tree.text (t : Tree) : String := String.ofList t.chars

theorem Tree.text_parsed (t : Tree) : t.parsed.text = t.text := by
  cases t <;> rfl

theorem Word.open_not_mem (w : Word) : '(' ∉ w.chars := fun h => (w.plain _ h).1 rfl

theorem Word.closes (w : Word) : Closes 0 w.chars :=
  closes_of_plain fun c hc => ⟨(w.plain c hc).1, (w.plain c hc).2.1⟩

theorem Tree.chars_ne_nil (t : Tree) : t.chars ≠ [] := by
  cases t with
  | name head => exact head.nonempty
  | applied head args tail => simp [chars]
  | function head args word rets => simp [chars]

/-! ## Written trees close what they open -/

theorem closes_parenthesized {cs rest : List Char} (h : Closes 0 cs) (hrest : Closes 0 rest) :
    Closes 0 ('(' :: (cs ++ ')' :: rest)) :=
  .opening (h.append (.closing hrest))

mutual

theorem Tree.closes_chars : (t : Tree) → Closes 0 t.chars
  | .name head => head.closes
  | .applied head args tail =>
    head.closes.append (closes_parenthesized (closes_separated args) tail.closes)
  | .function head args word rets =>
    head.closes.append (closes_parenthesized (closes_separated args)
      (word.closes.append (closes_parenthesized (closes_separated rets) .done)))

theorem closes_separated : (ts : List Tree) → Closes 0 (separated ts)
  | [] => .done
  | [t] => t.closes_chars
  | t :: u :: rest =>
    t.closes_chars.append (.other (by decide) (by decide) (closes_separated (u :: rest)))

end

/-! ## Written trees are read -/

section Scan

variable {part : List Char} {parts : List (List Char)} {more : List Char}

/-- Inside parentheses commas do not separate. -/
theorem splitParts_within {inner : List Char} {e : Nat} (h : Closes e inner) :
    splitParts (e + 1) part parts (inner ++ more) =
      splitParts 1 (inner.reverse ++ part) parts more := by
  induction h generalizing part with
  | done => rfl
  | opening _ ih =>
    rw [List.cons_append, splitParts, if_pos rfl, ih]
    simp
  | closing _ ih =>
    rw [List.cons_append, splitParts, if_neg (by decide), if_neg (Nat.succ_ne_zero _), if_pos rfl,
      Nat.add_sub_cancel, ih]
    simp
  | other hopen hclose _ ih =>
    rw [List.cons_append, splitParts, if_neg hopen, if_neg (Nat.succ_ne_zero _), if_neg hclose, ih]
    simp

theorem splitParts_word (w : Word) :
    splitParts 0 part parts (w.chars ++ more) =
      splitParts 0 (w.chars.reverse ++ part) parts more := by
  obtain ⟨cs, hplain⟩ := w
  dsimp only
  induction cs generalizing part with
  | nil => rfl
  | cons c cs ih =>
    rw [List.forall_mem_cons] at hplain
    obtain ⟨⟨hopen, hclose, hcomma⟩, hrest⟩ := hplain
    rw [List.cons_append, splitParts, if_neg hopen, if_pos rfl, if_neg hclose, if_neg hcomma, ih hrest]
    simp

theorem splitParts_parenthesized {inner : List Char} (h : Closes 0 inner) :
    splitParts 0 part parts ('(' :: (inner ++ ')' :: more)) =
      splitParts 0 (')' :: (inner.reverse ++ '(' :: part)) parts more := by
  rw [splitParts, if_pos rfl, splitParts_within h, splitParts, if_neg (by decide),
    if_neg Nat.one_ne_zero, if_pos rfl]

/-- A written tree is one part of a list. -/
theorem splitParts_tree (t : Tree) :
    splitParts 0 part parts (t.chars ++ more) =
      splitParts 0 (t.chars.reverse ++ part) parts more := by
  cases t with
  | name head => exact splitParts_word head.toWord
  | applied head args tail =>
    simp only [Tree.chars, List.append_assoc, List.cons_append]
    rw [splitParts_word head.toWord, splitParts_parenthesized (closes_separated args),
      splitParts_word tail]
    simp
  | function head args word rets =>
    simp only [Tree.chars, List.append_assoc, List.cons_append]
    rw [splitParts_word head.toWord, splitParts_parenthesized (closes_separated args),
      splitParts_word word, splitParts_parenthesized (closes_separated rets)]
    simp

/-- The parts of a written list are the texts of its trees. -/
theorem splitParts_separated (parts : List (List Char)) (more : List Char) (ts : List Tree) :
    ∃ ps, splitParts 0 [] parts (separated ts ++ ')' :: more) = some (parts.reverse ++ ps, more) ∧
      ps.filter (!·.isEmpty) = ts.map Tree.chars := by
  have hkept (t : Tree) (ps : List (List Char)) :
      (t.chars :: ps).filter (!·.isEmpty) = t.chars :: ps.filter (!·.isEmpty) :=
    List.filter_cons_of_pos (by simp [t.chars_ne_nil])
  induction ts generalizing parts with
  | nil => exact ⟨[[]], by simp [separated, splitParts], rfl⟩
  | cons t ts ih =>
    cases ts with
    | nil =>
      refine ⟨[t.chars], ?_, hkept t []⟩
      rw [separated, splitParts_tree]
      simp [splitParts]
    | cons u rest =>
      obtain ⟨ps, hps, hfilter⟩ := ih (t.chars :: parts)
      refine ⟨t.chars :: ps, ?_, by rw [hkept, hfilter]; rfl⟩
      have hcomma : splitParts 0 (t.chars.reverse ++ []) parts
          (',' :: (separated (u :: rest) ++ ')' :: more)) =
          splitParts 0 [] (t.chars :: parts) (separated (u :: rest) ++ ')' :: more) := by
        simp [splitParts]
      rw [separated, List.append_assoc, List.cons_append, splitParts_tree, hcomma, hps]
      simp

end Scan

theorem splitOpen_name (head : Name) (behind : List Char) :
    splitOpen (head.chars ++ '(' :: behind) = (head.chars, some behind) :=
  splitOpen_append behind head.open_not_mem

theorem splitOpen_word (w : Word) : splitOpen w.chars = (w.chars, none) :=
  splitOpen_of_not_mem w.open_not_mem

mutual

theorem Tree.ofChars?_chars : (t : Tree) → ofChars? t.chars = some t.parsed
  | .name head => by
    rw [ofChars?_eq, Tree.parsed, Tree.chars, splitOpen_word]
  | .applied head args tail => by
    obtain ⟨ps, hps, hfilter⟩ := splitParts_separated [] tail.chars args
    have hargs : ofParts? ps = some (parsedAll args) := by
      rw [ofParts?, hfilter]
      exact mapM_chars args
    rw [ofChars?_eq, Tree.parsed, Tree.chars, splitOpen_name]
    simp only [hps, List.reverse_nil, List.nil_append, Option.bind_some, hargs, splitOpen_word]
  | .function head args word rets => by
    obtain ⟨ps, hps, hfilter⟩ := splitParts_separated []
      (word.chars ++ '(' :: (separated rets ++ [')'])) args
    obtain ⟨ps', hps', hfilter'⟩ := splitParts_separated [] [] rets
    have hargs : ofParts? ps = some (parsedAll args) := by
      rw [ofParts?, hfilter]
      exact mapM_chars args
    have hrets : ofParts? ps' = some (parsedAll rets) := by
      rw [ofParts?, hfilter']
      exact mapM_chars rets
    rw [ofChars?_eq, Tree.parsed, Tree.chars, splitOpen_name]
    simp only [hps, hps', List.reverse_nil, List.nil_append, Option.bind_some, hargs,
      splitOpen_append _ word.open_not_mem, hrets, Option.map_some]

theorem mapM_chars : (ts : List Tree) → (ts.map Tree.chars).mapM ofChars? = some (parsedAll ts)
  | [] => rfl
  | t :: ts => by
    rw [List.map_cons, List.mapM_cons, t.ofChars?_chars, mapM_chars ts]
    rfl

end

/-- What is read for a written tree is the tree. -/
theorem Tree.read_text (t : Tree) : read t.text = .ok t.parsed := by
  rw [read, text, String.toList_ofList, t.ofChars?_chars]

/-! ## Different trees are written differently -/

theorem chars_eq_of_parsed_eq {t u : Tree} (h : t.parsed = u.parsed) : t.chars = u.chars := by
  have htext := congrArg TypeId.text h
  rw [t.text_parsed, u.text_parsed] at htext
  exact String.ofList_injective htext

mutual

theorem Tree.eq_of_parsed_eq : (t u : Tree) → t.parsed = u.parsed → t = u
  | .name head, .name head', h => by
    rw [Name.ext (chars_eq_of_parsed_eq h)]
  | .applied head args tail, .applied head' args' tail', h => by
    have hchars := chars_eq_of_parsed_eq h
    simp only [Tree.parsed, TypeId.mk.injEq, Option.some.injEq] at h
    obtain ⟨-, hhead, hargs, -⟩ := h
    obtain rfl := Name.ext (String.ofList_injective hhead)
    obtain rfl := eq_of_parsedAll_eq args args' hargs
    rw [Tree.chars, Tree.chars, List.append_cancel_left_eq, List.cons.injEq] at hchars
    have htail := List.append_cancel_left hchars.2
    rw [List.cons.injEq] at htail
    rw [Word.ext htail.2]
  | .function head args word rets, .function head' args' word' rets', h => by
    have hchars := chars_eq_of_parsed_eq h
    simp only [Tree.parsed, TypeId.mk.injEq, Option.some.injEq] at h
    obtain ⟨-, hhead, hargs, -, hrets⟩ := h
    obtain rfl := Name.ext (String.ofList_injective hhead)
    obtain rfl := eq_of_parsedAll_eq args args' hargs
    obtain rfl := eq_of_parsedAll_eq rets rets' hrets
    rw [Tree.chars, Tree.chars, List.append_cancel_left_eq, List.cons.injEq] at hchars
    have hword := List.append_cancel_left hchars.2
    rw [List.cons.injEq] at hword
    rw [Word.ext (List.append_cancel_right hword.2)]
  | .name _, .applied .., h | .name _, .function .., h | .applied .., .name _, h
  | .applied .., .function .., h | .function .., .name _, h | .function .., .applied .., h => by
    simp [Tree.parsed] at h

theorem eq_of_parsedAll_eq : (ts us : List Tree) → parsedAll ts = parsedAll us → ts = us
  | [], [], _ => rfl
  | t :: ts, u :: us, h => by
    rw [parsedAll, parsedAll, List.cons.injEq] at h
    rw [t.eq_of_parsed_eq u h.1, eq_of_parsedAll_eq ts us h.2]
  | [], _ :: _, h | _ :: _, [], h => by simp [parsedAll] at h

end

theorem Tree.text_injective : Function.Injective Tree.text := by
  intro t u h
  have hread := t.read_text
  rw [h, u.read_text, Except.ok.injEq] at hread
  exact (u.eq_of_parsed_eq t hread).symm

/-! ## Every text -/

theorem read_eq_malformed_iff {id : String} :
    read id = .error (.malformedTypeId id) ↔ ¬ ∃ t, ofChars? id.toList = some t := by
  unfold read
  split
  · rename_i t ht
    simp [ht]
  · rename_i hnone
    simp [hnone]

/-- A tree is read back from its text, so that different trees have different texts. Any other text is
read too, or it is refused: just when its first opening parenthesis has no matching one, or the first
opening parenthesis behind the matching one has none. Where the parts of a list are found, each of them
is read. -/
theorem read_trees :
    (∀ t : Tree, read t.text = .ok t.parsed) ∧
    Function.Injective Tree.text ∧
    (∀ id, (∃ t, read id = .ok t) ∨ read id = .error (.malformedTypeId id)) ∧
    (∀ id, read id = .error (.malformedTypeId id) ↔
      LeavesOpen id.toList ∨ ∃ before inner rest,
        id.toList = before ++ '(' :: (inner ++ ')' :: rest) ∧ '(' ∉ before ∧ Closes 0 inner ∧
          LeavesOpen rest) ∧
    (∀ behind ps rest, splitParts 0 [] [] behind = some (ps, rest) →
      ∃ args, ofParts? ps = some args) := by
  refine ⟨Tree.read_text, Tree.text_injective, ?_, ?_, ?_⟩
  · intro id
    unfold read
    split
    · rename_i t _
      exact Or.inl ⟨t, rfl⟩
    · exact Or.inr rfl
  · intro id
    rw [read_eq_malformed_iff, exists_ofChars?_iff]
    constructor
    · intro h
      by_cases hopen : LeavesOpen id.toList
      · exact Or.inl hopen
      · refine Or.inr ?_
        by_contra hrest
        refine h ⟨hopen, ?_⟩
        intro before inner rest heq hbefore hinner hleft
        exact hrest ⟨before, inner, rest, heq, hbefore, hinner, hleft⟩
    · rintro (hopen | ⟨before, inner, rest, heq, hbefore, hinner, hleft⟩) ⟨hclosed, hrets⟩
      · exact hclosed hopen
      · exact hrets before inner rest heq hbefore hinner hleft
  · intro behind ps rest hsplit
    exact exists_ofParts? hsplit fun p _ hp => exists_ofChars?_of_closes hp

end UpgradeSafety.TypeId
