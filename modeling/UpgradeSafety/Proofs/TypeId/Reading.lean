import UpgradeSafety.Proofs.Runs
import UpgradeSafety.TypeId.Basic

/-!
# Reading type ids

What a type id that was read says about its text (`text_of_read`, `parts_of_read`): its arguments
and its return types are type ids themselves (`read_text_of_part`).

Reading fails just when a parenthesis is left open (`exists_ofChars?_iff`): when the first opening
parenthesis has no matching closing one, or the first one behind the matching one has none. A part
of a list in parentheses closes what it opens, so that reading it cannot fail on its own
(`exists_ofChars?_of_closes`).

Whether a text closes what it opens is a property of the text alone (`Closes`), with the number of
parentheses that are open before it; splitting a text at its commas counts the same number. So the
two are tied together by one induction over the characters (`exists_splitParts`,
`closes_of_splitParts`), and the recursion into the parts is an induction on the length of the
text.

At the end are the lengths of arrays that are written with more digits than can be read.
-/

namespace UpgradeSafety.TypeId

theorem text_of_ofChars? {cs : List Char} {t : TypeId} (h : ofChars? cs = some t) :
    t.text = String.ofList cs := by
  unfold ofChars? at h
  split at h
  · cases h
    rfl
  · split at h
    · cases h
    · obtain ⟨args, -, h⟩ := Option.bind_eq_some_iff.mp h
      split at h
      · cases h
        rfl
      · split at h
        · cases h
        · obtain ⟨rets, -, h⟩ := Option.bind_eq_some_iff.mp h
          cases h
          rfl

/-- A type id has the text it was read from. -/
theorem text_of_read {id : String} {t : TypeId} (h : read id = .ok t) : t.text = id := by
  unfold read at h
  split at h
  · rename_i t' ht
    cases h
    rw [text_of_ofChars? ht, String.ofList_toList]
  · cases h

theorem splitOpen_of_not_mem {cs : List Char} (h : '(' ∉ cs) : splitOpen cs = (cs, none) := by
  induction cs with
  | nil => rfl
  | cons c cs ih =>
    obtain ⟨hc, hcs⟩ := not_or.mp (mt List.mem_cons.mpr h)
    rw [splitOpen, if_neg (Ne.symm hc), ih hcs]

theorem splitOpen_append {head : List Char} (behind : List Char) (h : '(' ∉ head) :
    splitOpen (head ++ '(' :: behind) = (head, some behind) := by
  induction head with
  | nil => rfl
  | cons c head ih =>
    obtain ⟨hc, hhead⟩ := not_or.mp (mt List.mem_cons.mpr h)
    rw [List.cons_append, splitOpen, if_neg (Ne.symm hc), ih hhead]

/-- A text without parentheses is the head of a type id. -/
theorem read_of_not_mem {cs : List Char} (h : '(' ∉ cs) :
    read (String.ofList cs) = .ok ⟨String.ofList cs, String.ofList cs, none, none, none⟩ := by
  have hsplit := splitOpen_of_not_mem h
  have hparts : ofChars? cs = some ⟨String.ofList cs, String.ofList cs, none, none, none⟩ := by
    unfold ofChars?
    split
    · rename_i heq
      rw [hsplit] at heq
      cases heq
      rfl
    · rename_i heq
      rw [hsplit] at heq
      cases heq
  rw [read, String.toList_ofList, hparts]

theorem read_text_of_ofChars? {cs : List Char} {t : TypeId} (h : ofChars? cs = some t) :
    read t.text = .ok t := by
  rw [read, text_of_ofChars? h, String.toList_ofList, h]

theorem read_text_of_mem_attach {ps : List (List Char)} {f : { p // p ∈ ps } → Option TypeId}
    (hf : ∀ p, f p = ofChars? p.1) {ts : List TypeId} (h : ps.attach.mapM f = some ts)
    {t : TypeId} (ht : t ∈ ts) : read t.text = .ok t := by
  obtain ⟨k, hk⟩ := List.mem_iff_getElem?.mp ht
  obtain ⟨p, -, hp⟩ := getElem?_of_forall₂ (mapM_eq_some_iff.mp h).flip hk
  exact read_text_of_ofChars? ((hf p).symm.trans hp)

/-- The arguments and the return types of a type id are type ids themselves. -/
theorem read_text_of_part {cs : List Char} {t : TypeId} (h : ofChars? cs = some t) {s : TypeId}
    (hs : s ∈ t.args.getD [] ∨ s ∈ t.rets.getD []) : read s.text = .ok s := by
  have hnone {x : TypeId} (hx : x ∈ ([] : List TypeId)) : read x.text = .ok x := by cases hx
  unfold ofChars? at h
  split at h
  · cases h
    exact hs.elim hnone hnone
  · split at h
    · cases h
    · obtain ⟨args, hargs, h⟩ := Option.bind_eq_some_iff.mp h
      split at h
      · cases h
        exact hs.elim (read_text_of_mem_attach (fun _ => rfl) hargs) hnone
      · split at h
        · cases h
        · obtain ⟨rets, hrets, h⟩ := Option.bind_eq_some_iff.mp h
          cases h
          exact hs.elim (read_text_of_mem_attach (fun _ => rfl) hargs)
            (read_text_of_mem_attach (fun _ => rfl) hrets)

theorem ofChars?_of_read {id : String} {t : TypeId} (h : read id = .ok t) :
    ofChars? id.toList = some t := by
  unfold read at h
  split at h
  · rename_i ht
    cases h
    exact ht
  · cases h

theorem parts_of_ofChars? {cs head behind : List Char} {t : TypeId}
    (hsplit : splitOpen cs = (head, some behind)) (h : ofChars? cs = some t) :
    t.head = String.ofList head ∧ ∃ args, t.args = some args := by
  unfold ofChars? at h
  split at h
  · rename_i hnone
    rw [hsplit] at hnone
    cases hnone
  · rename_i hsome
    rw [hsplit] at hsome
    cases hsome
    split at h
    · cases h
    · obtain ⟨args, -, h⟩ := Option.bind_eq_some_iff.mp h
      split at h
      · cases h
        exact ⟨rfl, args, rfl⟩
      · split at h
        · cases h
        · obtain ⟨rets, -, h⟩ := Option.bind_eq_some_iff.mp h
          cases h
          exact ⟨rfl, args, rfl⟩

/-- What stands before the first parenthesis of a type id is its head, and the id has arguments. -/
theorem parts_of_read {head behind : String} {t : TypeId} (hhead : '(' ∉ head.toList)
    (h : read (head ++ "(" ++ behind) = .ok t) : t.head = head ∧ ∃ args, t.args = some args := by
  have hsplit : splitOpen (head ++ "(" ++ behind).toList = (head.toList, some behind.toList) := by
    rw [String.toList_append, String.toList_append, List.append_assoc]
    exact splitOpen_append _ hhead
  have hparts := parts_of_ofChars? hsplit (ofChars?_of_read h)
  rwa [String.ofList_toList] at hparts

/-! ## The parts of a text -/

/-- Reads the parts of a list in parentheses. Empty ones are dropped. -/
def ofParts? (ps : List (List Char)) : Option (List TypeId) :=
  (ps.filter (!·.isEmpty)).mapM ofChars?

theorem mapM_attach_ofChars? {ps : List (List Char)} {f : { p // p ∈ ps } → Option TypeId}
    (hf : ∀ p, f p = ofChars? p.1) : ps.attach.mapM f = ps.mapM ofChars? := by
  have hcomp : f = ofChars? ∘ Subtype.val := funext hf
  rw [hcomp, ← List.mapM_map, List.attach_map_subtype_val]

theorem splitParts_of_parts?_none {cs : List Char} (h : parts? cs = none) :
    splitParts 0 [] [] cs = none := by
  unfold parts? at h
  split at h
  · assumption
  · cases h

theorem splitParts_of_parts?_some {cs rest : List Char} {ps : List (List Char)} {hps hrest}
    (h : parts? cs = some (⟨ps, hps⟩, ⟨rest, hrest⟩)) :
    ∃ ps', splitParts 0 [] [] cs = some (ps', rest) ∧ ps'.filter (!·.isEmpty) = ps := by
  unfold parts? at h
  split at h
  · cases h
  · rename_i ps' rest' hsplit
    cases h
    exact ⟨ps', hsplit, rfl⟩

/-- How a text is read: what stands before its first parenthesis, the parts behind that one, and what
follows them. -/
theorem ofChars?_eq (cs : List Char) : ofChars? cs =
    match splitOpen cs with
    | (head, none) => some ⟨String.ofList cs, String.ofList head, none, none, none⟩
    | (head, some behind) =>
      (splitParts 0 [] [] behind).bind fun (ps, rest) =>
        (ofParts? ps).bind fun args =>
          match splitOpen rest with
          | (tail, none) =>
            some ⟨String.ofList cs, String.ofList head, some args,
              if tail.isEmpty then none else some (String.ofList tail), none⟩
          | (_, some behind') =>
            (splitParts 0 [] [] behind').bind fun (ps', _) =>
              (ofParts? ps').map fun rets =>
                ⟨String.ofList cs, String.ofList head, some args, none, some rets⟩ := by
  rw [ofChars?]
  split
  · rename_i head h
    rw [h]
  · rename_i head behind h
    conv_rhs => rw [h]
    dsimp only
    split
    · rename_i hnone
      rw [splitParts_of_parts?_none hnone, Option.bind_none]
    · rename_i args hargs rest hrest hsome
      obtain ⟨ps, hsplit, rfl⟩ := splitParts_of_parts?_some hsome
      rw [hsplit, Option.bind_some, mapM_attach_ofChars? fun _ => rfl]
      refine congrArg _ (funext fun args => ?_)
      split
      · rename_i tail h'
        rw [h']
      · rename_i _ behind' h'
        conv_rhs => rw [h']
        dsimp only
        split
        · rename_i hnone
          rw [splitParts_of_parts?_none hnone, Option.bind_none]
        · rename_i rets hrets _ hsome'
          obtain ⟨ps', hsplit', rfl⟩ := splitParts_of_parts?_some hsome'
          rw [hsplit', Option.bind_some, mapM_attach_ofChars? fun _ => rfl]
          exact (Option.map_eq_bind ..).symm

/-! ## Matching parentheses -/

/-- A text that closes `d` parentheses that are open before it and all that it opens itself, and
nothing else. -/
inductive Closes : Nat → List Char → Prop where
  | done : Closes 0 []
  | opening {d cs} (h : Closes (d + 1) cs) : Closes d ('(' :: cs)
  | closing {d cs} (h : Closes d cs) : Closes (d + 1) (')' :: cs)
  | other {d c cs} (hopen : c ≠ '(') (hclose : c ≠ ')') (h : Closes d cs) : Closes d (c :: cs)

variable {cs inner rest : List Char} {d e : Nat} {part : List Char} {parts ps : List (List Char)}

theorem Closes.append {cs' : List Char} (h : Closes d cs) (h' : Closes e cs') :
    Closes (d + e) (cs ++ cs') := by
  induction h with
  | done => rwa [Nat.zero_add]
  | opening _ ih => exact .opening (by rwa [Nat.add_right_comm])
  | closing _ ih => exact Nat.add_right_comm .. ▸ .closing ih
  | other hopen hclose _ ih => exact .other hopen hclose ih

/-- What follows a text that closes what it may has to close the rest. -/
theorem Closes.of_append {n : Nat} {cs' : List Char} (h : Closes e cs) (hn : n = e + d)
    (h' : Closes n (cs ++ cs')) : Closes d cs' := by
  induction h generalizing n with
  | done =>
    rw [Nat.zero_add] at hn
    exact hn ▸ h'
  | opening _ ih =>
    cases h' with
    | opening h' => exact ih (by omega) h'
    | other hopen => exact absurd rfl hopen
  | closing _ ih =>
    cases h' with
    | closing h' => exact ih (by omega) h'
    | other _ hclose => exact absurd rfl hclose
  | other hopen hclose _ ih =>
    cases h' with
    | opening => exact absurd rfl hopen
    | closing => exact absurd rfl hclose
    | other _ _ h' => exact ih hn h'

/-- A text of other characters closes nothing. -/
theorem closes_of_plain (h : ∀ c ∈ cs, c ≠ '(' ∧ c ≠ ')') : Closes 0 cs := by
  induction cs with
  | nil => exact .done
  | cons c cs ih =>
    rw [List.forall_mem_cons] at h
    exact .other h.1.1 h.1.2 (ih h.2)

/-- Where one of the open parentheses is closed. -/
theorem Closes.split {n : Nat} (h : Closes n cs) (hn : n = e + (d + 1)) :
    ∃ inner rest, cs = inner ++ ')' :: rest ∧ Closes e inner ∧ Closes d rest := by
  induction h generalizing e with
  | done => omega
  | opening _ ih =>
    obtain ⟨inner, rest, rfl, hinner, hrest⟩ := ih (e := e + 1) (by omega)
    exact ⟨'(' :: inner, rest, rfl, .opening hinner, hrest⟩
  | @closing n cs h ih =>
    cases e with
    | zero =>
      obtain rfl : n = d := by omega
      exact ⟨[], cs, rfl, .done, h⟩
    | succ e =>
      obtain ⟨inner, rest, rfl, hinner, hrest⟩ := ih (e := e) (by omega)
      exact ⟨')' :: inner, rest, rfl, .closing hinner, hrest⟩
  | @other n c cs hopen hclose _ ih =>
    obtain ⟨inner, rest, rfl, hinner, hrest⟩ := ih hn
    exact ⟨c :: inner, rest, rfl, .other hopen hclose hinner, hrest⟩

/-- Before the first opening parenthesis nothing can be closed. -/
theorem Closes.behind_open {before behind : List Char} (h : Closes 0 (before ++ '(' :: behind))
    (hbefore : '(' ∉ before) : Closes 1 behind := by
  induction before with
  | nil =>
    rw [List.nil_append] at h
    cases h with
    | opening h => exact h
    | other hopen => exact absurd rfl hopen
  | cons c before ih =>
    obtain ⟨hc, hbefore⟩ := not_or.mp (mt List.mem_cons.mpr hbefore)
    rw [List.cons_append] at h
    cases h with
    | opening => exact absurd rfl hc
    | other _ _ h => exact ih h hbefore

/-- The parts of a list are found when the parenthesis before it has a matching one. -/
theorem exists_splitParts (h : Closes d inner) (part : List Char) (parts : List (List Char))
    (rest : List Char) : ∃ ps, splitParts d part parts (inner ++ ')' :: rest) = some (ps, rest) := by
  induction h generalizing part parts with
  | done => exact ⟨_, by rw [List.nil_append, splitParts, if_neg (by decide), if_pos rfl, if_pos rfl]⟩
  | opening _ ih =>
    rw [List.cons_append, splitParts, if_pos rfl]
    exact ih _ _
  | closing _ ih =>
    rw [List.cons_append, splitParts, if_neg (by decide), if_neg (Nat.succ_ne_zero _), if_pos rfl]
    exact ih _ _
  | other hopen hclose _ ih =>
    rw [List.cons_append, splitParts, if_neg hopen, if_neg hclose, if_neg hclose]
    split
    · rename_i hd
      subst hd
      split
      · exact ih _ _
      · exact ih _ _
    · exact ih _ _

/-- Where the parts of a list are found, the parenthesis before it has a matching one, and every part
closes what it opens. `part` is what was read of the current part. -/
theorem closes_of_splitParts (h : splitParts d part parts cs = some (ps, rest))
    (hpart : ∀ w, Closes d w → Closes 0 (part.reverse ++ w)) (hparts : ∀ p ∈ parts, Closes 0 p) :
    (∃ inner, cs = inner ++ ')' :: rest ∧ Closes d inner) ∧ ∀ p ∈ ps, Closes 0 p := by
  have hpush {d d' : Nat} {c : Char} {part : List Char}
      (hpart : ∀ w, Closes d w → Closes 0 (part.reverse ++ w))
      (hc : ∀ w, Closes d' w → Closes d (c :: w)) (w : List Char) (hw : Closes d' w) :
      Closes 0 ((c :: part).reverse ++ w) := by
    rw [List.reverse_cons, List.append_assoc]
    exact hpart _ (hc w hw)
  have hdone {part : List Char} (hpart : ∀ w, Closes 0 w → Closes 0 (part.reverse ++ w))
      {parts : List (List Char)} (hparts : ∀ p ∈ parts, Closes 0 p) :
      ∀ p ∈ part.reverse :: parts, Closes 0 p :=
    List.forall_mem_cons.mpr ⟨List.append_nil part.reverse ▸ hpart [] .done, hparts⟩
  induction cs generalizing d part parts with
  | nil => simp [splitParts] at h
  | cons c cs ih =>
    rw [splitParts] at h
    split at h
    · rename_i hopen
      subst hopen
      obtain ⟨⟨inner, rfl, hinner⟩, hps⟩ := ih h (hpush hpart fun _ => .opening) hparts
      exact ⟨⟨'(' :: inner, rfl, .opening hinner⟩, hps⟩
    · rename_i hopen
      split at h
      · rename_i hd
        subst hd
        split at h
        · rename_i hclose
          subst hclose
          cases h
          refine ⟨⟨[], rfl, .done⟩, fun p hp => ?_⟩
          exact hdone hpart hparts p (List.mem_reverse.mp hp)
        · rename_i hclose
          split at h
          · obtain ⟨⟨inner, rfl, hinner⟩, hps⟩ := ih h (fun w hw => hw) (hdone hpart hparts)
            exact ⟨⟨c :: inner, rfl, .other hopen hclose hinner⟩, hps⟩
          · obtain ⟨⟨inner, rfl, hinner⟩, hps⟩ := ih h (hpush hpart fun _ => .other hopen hclose) hparts
            exact ⟨⟨c :: inner, rfl, .other hopen hclose hinner⟩, hps⟩
      · rename_i hd
        obtain ⟨d, rfl⟩ := Nat.exists_eq_succ_of_ne_zero hd
        split at h
        · rename_i hclose
          subst hclose
          obtain ⟨⟨inner, rfl, hinner⟩, hps⟩ := ih h (hpush hpart fun _ => .closing) hparts
          exact ⟨⟨')' :: inner, rfl, .closing hinner⟩, hps⟩
        · rename_i hclose
          obtain ⟨⟨inner, rfl, hinner⟩, hps⟩ := ih h (hpush hpart fun _ => .other hopen hclose) hparts
          exact ⟨⟨c :: inner, rfl, .other hopen hclose hinner⟩, hps⟩

/-! ## When a text can be read -/

/-- The first opening parenthesis of a text has no matching closing one. -/
def LeavesOpen (cs : List Char) : Prop :=
  ∃ before behind, cs = before ++ '(' :: behind ∧ '(' ∉ before ∧
    ∀ inner rest, behind = inner ++ ')' :: rest → ¬ Closes 0 inner

/-- A text without an opening parenthesis, or with its first one split off. -/
theorem splitOpen_cases (cs : List Char) : splitOpen cs = (cs, none) ∨
    ∃ before behind, cs = before ++ '(' :: behind ∧ '(' ∉ before ∧
      splitOpen cs = (before, some behind) := by
  by_cases h : '(' ∈ cs
  · obtain ⟨before, behind, rfl, hbefore⟩ := List.eq_append_cons_of_mem h
    exact Or.inr ⟨before, behind, rfl, hbefore, splitOpen_append _ hbefore⟩
  · exact Or.inl (splitOpen_of_not_mem h)

theorem exists_of_not_leavesOpen {before behind : List Char}
    (h : ¬ LeavesOpen (before ++ '(' :: behind)) (hbefore : '(' ∉ before) :
    ∃ inner rest, behind = inner ++ ')' :: rest ∧ Closes 0 inner := by
  by_contra hnone
  exact h ⟨before, behind, rfl, hbefore, fun inner rest heq hinner => hnone ⟨inner, rest, heq, hinner⟩⟩

theorem not_leavesOpen_of_closes (h : Closes 0 cs) : ¬ LeavesOpen cs := by
  rintro ⟨before, behind, rfl, hbefore, hnone⟩
  obtain ⟨inner, rest, heq, hinner, -⟩ := (h.behind_open hbefore).split (e := 0) (d := 0) rfl
  exact hnone inner rest heq hinner

theorem splitParts_of_leavesOpen {before behind : List Char}
    (h : LeavesOpen (before ++ '(' :: behind)) (hbefore : '(' ∉ before) :
    splitParts 0 [] [] behind = none := by
  obtain ⟨before', behind', heq, hbefore', hnone⟩ := h
  have hsplit := splitOpen_append behind hbefore
  rw [heq, splitOpen_append _ hbefore'] at hsplit
  cases hsplit
  refine Option.eq_none_iff_forall_ne_some.mpr ?_
  rintro ⟨ps, rest⟩ hsome
  obtain ⟨⟨inner, heq, hinner⟩, -⟩ := closes_of_splitParts hsome (fun w hw => hw) nofun
  exact hnone inner rest heq hinner

/-- The parts of a list are read when each of them is. -/
theorem exists_ofParts? {behind : List Char} (hsplit : splitParts 0 [] [] behind = some (ps, rest))
    (hread : ∀ p, p.length < behind.length → Closes 0 p → ∃ t, ofChars? p = some t) :
    ∃ ts, ofParts? ps = some ts := by
  have hshort := (length_lt_of_splitParts hsplit (by simp : _ ≤ behind.length) nofun).1
  have hcloses := (closes_of_splitParts hsplit (fun w hw => hw) nofun).2
  obtain ⟨ts, hts⟩ := exists_forall₂ (R := fun p t => ofChars? p = some t)
    (l := ps.filter (!·.isEmpty)) fun p hp =>
      have hp := (List.mem_filter.mp hp).1
      hread p (hshort p hp) (hcloses p hp)
  exact ⟨ts, mapM_eq_some_iff.mpr hts⟩

theorem exists_ofChars?_of_parts
    (hread : ∀ p, p.length < cs.length → Closes 0 p → ∃ t, ofChars? p = some t)
    (hopen : ¬ LeavesOpen cs)
    (hrets : ∀ before inner rest, cs = before ++ '(' :: (inner ++ ')' :: rest) → '(' ∉ before →
      Closes 0 inner → ¬ LeavesOpen rest) : ∃ t, ofChars? cs = some t := by
  rcases splitOpen_cases cs with hplain | ⟨before, behind, rfl, hbefore, hsplit⟩
  · exact ⟨_, by rw [ofChars?_eq, hplain]⟩
  · obtain ⟨inner, rest, rfl, hinner⟩ := exists_of_not_leavesOpen hopen hbefore
    obtain ⟨ps, hps⟩ := exists_splitParts hinner [] [] rest
    obtain ⟨args, hargs⟩ := exists_ofParts? hps fun p hp => hread p (by simp; simp at hp; omega)
    rw [ofChars?_eq, hsplit]
    simp only [hps, hargs, Option.bind_some]
    rcases splitOpen_cases rest with hplain' | ⟨before', behind', rfl, hbefore', hsplit'⟩
    · exact ⟨_, by rw [hplain']⟩
    · obtain ⟨inner', rest', rfl, hinner'⟩ :=
        exists_of_not_leavesOpen (hrets before inner _ rfl hbefore hinner) hbefore'
      obtain ⟨ps', hps'⟩ := exists_splitParts hinner' [] [] rest'
      obtain ⟨rets, hrets'⟩ := exists_ofParts? hps' fun p hp => hread p (by simp; simp at hp; omega)
      exact ⟨_, by rw [hsplit']; simp only [hps', hrets', Option.bind_some, Option.map_some]; rfl⟩

/-- A text that closes what it opens can be read. -/
theorem exists_ofChars?_of_closes (h : Closes 0 cs) : ∃ t, ofChars? cs = some t := by
  induction hn : cs.length using Nat.strongRecOn generalizing cs with
  | _ n ih =>
    refine exists_ofChars?_of_parts (fun p hp hcloses => ih _ (hn ▸ hp) hcloses rfl)
      (not_leavesOpen_of_closes h) fun before inner rest heq hbefore hinner => ?_
    subst heq
    have hrest := hinner.of_append (d := 1) rfl (h.behind_open hbefore)
    cases hrest with
    | closing hrest => exact not_leavesOpen_of_closes hrest
    | other _ hclose => exact absurd rfl hclose

/-- A text can be read just when its first opening parenthesis has a matching one, and so has the first
one behind that. -/
theorem exists_ofChars?_iff : (∃ t, ofChars? cs = some t) ↔ ¬ LeavesOpen cs ∧
    ∀ before inner rest, cs = before ++ '(' :: (inner ++ ')' :: rest) → '(' ∉ before →
      Closes 0 inner → ¬ LeavesOpen rest := by
  constructor
  · rintro ⟨t, ht⟩
    refine ⟨?_, ?_⟩
    · rintro hopen
      obtain ⟨before, behind, rfl, hbefore, -⟩ := id hopen
      rw [ofChars?_eq, splitOpen_append _ hbefore] at ht
      simp only [splitParts_of_leavesOpen hopen hbefore, Option.bind_none] at ht
      cases ht
    · rintro before inner rest rfl hbefore hinner hopen
      obtain ⟨ps, hps⟩ := exists_splitParts hinner [] [] rest
      obtain ⟨before', behind', rfl, hbefore', -⟩ := id hopen
      rw [ofChars?_eq, splitOpen_append _ hbefore] at ht
      simp only [hps, Option.bind_some, splitOpen_append _ hbefore',
        splitParts_of_leavesOpen hopen hbefore', Option.bind_none, Option.bind_fun_none] at ht
      cases ht
  · rintro ⟨hopen, hrets⟩
    exact exists_ofChars?_of_parts (fun p _ hp => exists_ofChars?_of_closes hp) hopen hrets

/-! ## Lengths of many digits -/

theorem takeWhile_storage (digits : Nat) :
    (List.replicate digits '1' ++ "_storage".toList).takeWhile Text.isDecimalDigit =
      List.replicate digits '1' := by
  have hdigit : ∀ c ∈ List.replicate digits '1', Text.isDecimalDigit c = true := by
    intro c hc
    rw [List.eq_of_mem_replicate hc]
    decide
  have hrest : "_storage".toList.takeWhile Text.isDecimalDigit = [] := by decide +kernel
  rw [List.takeWhile_append_of_pos hdigit, hrest, List.append_nil]

/-- The length of a stored array has more digits than are read. -/
theorem lengthExcess?_storage {digits : Nat} (h : Numeral.maxDecimalDigits < digits) :
    lengthExcess? "t_array"
      (some (String.ofList (List.replicate digits '1' ++ "_storage".toList))) = some digits := by
  rw [lengthExcess?, if_pos (Eq.refl "t_array"), Option.bind_some, String.toList_ofList,
    takeWhile_storage, excess?, List.length_replicate, if_pos h]

end UpgradeSafety.TypeId
