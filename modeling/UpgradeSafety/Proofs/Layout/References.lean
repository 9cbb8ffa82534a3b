import UpgradeSafety.Layout.Resolution
import UpgradeSafety.Proofs.Tables
import UpgradeSafety.Proofs.TypeId.Trees

/-!
# Required references

Where the type ids of a layout stand, and what the places say about resolving them. A type id is
*required* where it is the type of a variable, the type of a member of a struct, or an argument of
a required id whose arguments are types; in every other place it is *optional* (`Stands`).

A graph is extended by one type id at a time, and the ids that are not in it yet bound the depth of
the search (`resolve_settles`, `length_mentioned`). Resolving a layout fails when a required id is
not in the types table, and only then; except that an id which stands in a required and in an
optional place may be met in the optional one first, and then it is not missed
(`resolveStorage_required`).
-/

namespace UpgradeSafety

/-! ## The ids inside a type id -/

namespace TypeId

mutual

/-- A type id and everything that stands in its parts. -/
def ids : TypeId → List String
  | ⟨text, _, args, _, rets⟩ => text :: (idsOf? args ++ idsOf? rets)

/-- The type ids in a list that may be absent. -/
def idsOf? : Option (List TypeId) → List String
  | none => []
  | some ts => idsOf ts

/-- The type ids in a list. -/
def idsOf : List TypeId → List String
  | [] => []
  | t :: ts => t.ids ++ idsOf ts

end

/-- The arguments and the return types of a type id. -/
def inside (t : TypeId) : List TypeId := t.args.getD [] ++ t.rets.getD []

theorem text_mem_ids (t : TypeId) : t.text ∈ t.ids := by
  cases t
  exact List.mem_cons_self

theorem ids_subset_idsOf {t : TypeId} {ts : List TypeId} (h : t ∈ ts) : t.ids ⊆ idsOf ts := by
  induction ts with
  | nil => cases h
  | cons u ts ih =>
    rw [idsOf]
    rcases List.mem_cons.mp h with rfl | h
    · exact List.subset_append_left _ _
    · exact List.Subset.trans (ih h) (List.subset_append_right _ _)

theorem ids_subset_of_inside {t s : TypeId} (h : s ∈ t.inside) : s.ids ⊆ t.ids := by
  have hlist {ts : Option (List TypeId)} (hs : s ∈ ts.getD []) : s.ids ⊆ idsOf? ts := by
    cases ts with
    | none => cases hs
    | some ts => exact ids_subset_idsOf hs
  obtain ⟨text, head, args, tail, rets⟩ := t
  rw [ids]
  rcases List.mem_append.mp h with hs | hs
  · exact fun id hid => List.mem_cons_of_mem _ (List.mem_append_left _ (hlist hs hid))
  · exact fun id hid => List.mem_cons_of_mem _ (List.mem_append_right _ (hlist hs hid))

theorem read_of_inside {t s : TypeId} (ht : read t.text = .ok t) (h : s ∈ t.inside) :
    read s.text = .ok s :=
  read_text_of_part (ofChars?_of_read ht) (List.mem_append.mp h)

/-- The length of parts, with one character behind each. -/
def lengthOf (ps : List (List Char)) : Nat := (ps.map fun p => p.length + 1).sum

/-- Nothing of a text is lost when it is split. -/
theorem lengthOf_splitParts {cs rest part : List Char} {parts ps : List (List Char)} {d : Nat}
    (h : splitParts d part parts cs = some (ps, rest)) :
    lengthOf ps + rest.length = cs.length + part.length + lengthOf parts := by
  induction cs generalizing d part parts with
  | nil => simp [splitParts] at h
  | cons c cs ih =>
    rw [splitParts] at h
    split at h
    · have hrest := ih h
      simp only [List.length_cons] at hrest ⊢
      omega
    · split at h
      · split at h
        · cases h
          simp [lengthOf, List.sum_append]
          omega
        · split at h
          · have hrest := ih h
            simp only [lengthOf, List.map_cons, List.sum_cons, List.length_reverse, List.length_nil,
              List.length_cons] at hrest ⊢
            omega
          · have hrest := ih h
            simp only [List.length_cons] at hrest ⊢
            omega
      · split at h
        · have hrest := ih h
          simp only [List.length_cons] at hrest ⊢
          omega
        · have hrest := ih h
          simp only [List.length_cons] at hrest ⊢
          omega

theorem lengthOf_filter_le (keep : List Char → Bool) (ps : List (List Char)) :
    lengthOf (ps.filter keep) ≤ lengthOf ps := by
  induction ps with
  | nil => exact Nat.le_refl 0
  | cons p ps ih =>
    simp only [lengthOf, List.filter_cons] at ih ⊢
    split
    · simp only [List.map_cons, List.sum_cons]
      omega
    · simp only [List.map_cons, List.sum_cons]
      omega

theorem length_idsOf_le {ps : List (List Char)} {ts : List TypeId} (h : ofParts? ps = some ts)
    (hids : ∀ p ∈ ps, ∀ t, ofChars? p = some t → t.ids.length ≤ p.length + 1) :
    (idsOf ts).length ≤ lengthOf ps := by
  refine Nat.le_trans ?_ (lengthOf_filter_le (!·.isEmpty) ps)
  have hmem : ∀ p ∈ ps.filter (!·.isEmpty), p ∈ ps := fun p hp => (List.mem_filter.mp hp).1
  rw [ofParts?] at h
  generalize ps.filter (!·.isEmpty) = qs at h hmem ⊢
  have hread := mapM_eq_some_iff.mp h
  clear h
  induction hread with
  | nil => exact Nat.le_refl 0
  | @cons p t qs ts hp _ ih =>
    have hhead := hids p (hmem p List.mem_cons_self) t hp
    have htail := ih fun q hq => hmem q (List.mem_cons_of_mem p hq)
    rw [idsOf, List.length_append, lengthOf, List.map_cons, List.sum_cons]
    exact Nat.add_le_add hhead htail

/-- A type id has no more parts than characters. -/
theorem length_ids_le {cs : List Char} {t : TypeId} (h : ofChars? cs = some t) :
    t.ids.length ≤ cs.length + 1 := by
  induction hn : cs.length using Nat.strongRecOn generalizing cs t with
  | _ n ih =>
    subst hn
    rw [ofChars?_eq] at h
    rcases splitOpen_cases cs with hplain | ⟨before, behind, rfl, -, hsplit⟩
    · rw [hplain] at h
      cases h
      simp [ids, idsOf?]
    · rw [hsplit] at h
      obtain ⟨⟨ps, rest⟩, hps, h⟩ := Option.bind_eq_some_iff.mp h
      obtain ⟨args, hargs, h⟩ := Option.bind_eq_some_iff.mp h
      have hlength := lengthOf_splitParts hps
      have hshort := length_lt_of_splitParts hps (by simp : _ ≤ behind.length) nofun
      have hargs' := length_idsOf_le hargs fun p hp t ht =>
        ih p.length (by simp; have := hshort.1 p hp; omega) ht rfl
      simp only [lengthOf, List.map_nil, List.sum_nil, List.length_nil] at hlength
      simp only [List.length_append, List.length_cons]
      rcases splitOpen_cases rest with hplain' | ⟨before', behind', rfl, -, hsplit'⟩
      · rw [hplain'] at h
        cases h
        simp only [ids, idsOf?, List.length_cons, List.length_append, List.length_nil]
        simp only [lengthOf] at hargs'
        omega
      · rw [hsplit'] at h
        obtain ⟨⟨ps', rest'⟩, hps', h⟩ := Option.bind_eq_some_iff.mp h
        obtain ⟨rets, hrets, h⟩ := Option.map_eq_some_iff.mp h
        cases h
        have hlength' := lengthOf_splitParts hps'
        have hshort' := length_lt_of_splitParts hps' (by simp : _ ≤ behind'.length) nofun
        have hlt := hshort.2
        simp only [List.length_append, List.length_cons] at hlt hlength
        have hrets' := length_idsOf_le hrets fun p hp t ht =>
          ih p.length (by simp; have := hshort'.1 p hp; omega) ht rfl
        simp only [lengthOf, List.map_nil, List.sum_nil, List.length_nil] at hlength' hargs' hrets'
        simp only [ids, idsOf?, List.length_cons, List.length_append]
        omega

end TypeId

/-! ## Places -/

/-- The variables among the members of a type. -/
def TypeEntry.variables (entry : TypeEntry) : List Item :=
  match entry.members with
  | some (.items is) => is
  | _ => []

namespace Resolution

/-- A type id stands in a required place (`true`) or in an optional one, for some variables and a
table of types. -/
inductive Stands (types : TypeTable) (items : List Item) : Bool → TypeId → Prop where
  | item {i t} (hi : i ∈ items) (ht : TypeId.read i.type = .ok t) : Stands types items true t
  | argument {required t a} (h : Stands types items required t) (ha : a ∈ t.args.getD []) :
    Stands types items (required && listsArguments (TypeId.kindOfHead t.head)) a
  | result {required t r} (h : Stands types items required t) (hr : r ∈ t.rets.getD []) :
    Stands types items false r
  | member {required t entry m u} (h : Stands types items required t)
    (hentry : types.lookup t.text = some entry) (hm : m ∈ entry.variables)
    (hu : TypeId.read m.type = .ok u) : Stands types items true u

/-- Every id that a list of variables or the members of a table have for a type can be read. -/
structure Readable (types : TypeTable) (items : List Item) : Prop where
  items : ∀ i ∈ items, ∃ t, TypeId.read i.type = .ok t
  members : ∀ e ∈ types, ∀ m ∈ e.2.variables, ∃ t, TypeId.read m.type = .ok t

variable {types : TypeTable} {items : List Item} {required : Bool} {t : TypeId}

theorem Stands.read (h : Stands types items required t) : TypeId.read t.text = .ok t := by
  have hself {id : String} {t : TypeId} (ht : TypeId.read id = .ok t) :
      TypeId.read t.text = .ok t := by rwa [TypeId.text_of_read ht]
  induction h with
  | item _ ht => exact hself ht
  | argument _ ha ih => exact TypeId.read_of_inside ih (List.mem_append_left _ ha)
  | result _ hr ih => exact TypeId.read_of_inside ih (List.mem_append_right _ hr)
  | member _ _ _ hu _ => exact hself hu

/-- The order of the variables does not matter to the places. -/
theorem Stands.of_perm {items' : List Item} (hperm : items.Perm items')
    (h : Stands types items required t) : Stands types items' required t := by
  induction h with
  | item hi ht => exact .item (hperm.mem_iff.mp hi) ht
  | argument _ ha ih => exact .argument ih ha
  | result _ hr ih => exact .result ih hr
  | member _ hentry hm hu ih => exact .member ih hentry hm hu

/-- An id that is met when variables are resolved, whether it can be read or not. -/
inductive Reached (types : TypeTable) (items : List Item) : String → Prop where
  | item {i : Item} (hi : i ∈ items) : Reached types items i.type
  | part {id : String} {t s : TypeId} (h : Reached types items id) (ht : TypeId.read id = .ok t)
    (hs : s ∈ t.inside) : Reached types items s.text
  | member {id : String} {t : TypeId} {entry : TypeEntry} {m : Item} (h : Reached types items id)
    (ht : TypeId.read id = .ok t) (hentry : types.lookup id = some entry) (hm : m ∈ entry.variables) :
    Reached types items m.type

theorem Stands.reached (h : Stands types items required t) : Reached types items t.text := by
  induction h with
  | item hi ht => exact TypeId.text_of_read ht ▸ .item hi
  | argument h ha ih => exact .part ih h.read (List.mem_append_left _ ha)
  | result h hr ih => exact .part ih h.read (List.mem_append_right _ hr)
  | member h hentry hm hu ih => exact TypeId.text_of_read hu ▸ .member ih h.read hentry hm

/-- An id that is met and can be read stands somewhere. -/
theorem Reached.stands {id : String} (h : Reached types items id) :
    ∀ {t}, TypeId.read id = .ok t → ∃ required, Stands types items required t := by
  induction h with
  | item hi => exact fun ht => ⟨true, .item hi ht⟩
  | part _ ht hs ih =>
    intro u hu
    obtain ⟨required, hstands⟩ := ih ht
    rw [TypeId.read_of_inside hstands.read hs] at hu
    cases hu
    rcases List.mem_append.mp hs with ha | hr
    · exact ⟨_, .argument hstands ha⟩
    · exact ⟨false, .result hstands hr⟩
  | member _ ht hentry hm ih =>
    intro u hu
    obtain ⟨required, hstands⟩ := ih ht
    exact ⟨true, .member hstands (TypeId.text_of_read ht ▸ hentry) hm hu⟩

theorem Reached.readable (hread : Readable types items) {id : String} (h : Reached types items id) :
    ∃ t, TypeId.read id = .ok t := by
  induction h with
  | item hi => exact hread.items _ hi
  | part h ht hs =>
    obtain ⟨required, hstands⟩ := h.stands ht
    exact ⟨_, TypeId.read_of_inside hstands.read hs⟩
  | member _ _ hentry hm => exact hread.members _ (mem_of_lookup_eq_some hentry) _ hm

/-! ## The ids that can be met -/

/-- The ids inside the type of a variable. -/
def idsOfItem (i : Item) : List String :=
  match TypeId.read i.type with
  | .ok t => t.ids
  | .error _ => []

/-- All ids that can be met when variables are resolved. -/
def mentioned (types : TypeTable) (items : List Item) : List String :=
  items.flatMap idsOfItem ++ types.flatMap fun e => e.2.variables.flatMap idsOfItem

theorem length_idsOfItem_le (i : Item) : (idsOfItem i).length ≤ i.type.length + 1 := by
  unfold idsOfItem
  split
  · rename_i t ht
    exact TypeId.length_ids_le (TypeId.ofChars?_of_read ht)
  · exact Nat.zero_le _

theorem length_flatMap_le_foldl {α : Type} {f : α → List String} {g : Nat → α → Nat}
    (hg : ∀ n a, n + (f a).length ≤ g n a) (l : List α) (n : Nat) :
    n + (l.flatMap f).length ≤ l.foldl g n := by
  induction l generalizing n with
  | nil => simp
  | cons a l ih =>
    have hstep := hg n a
    have hrest := ih (g n a)
    rw [List.flatMap_cons, List.length_append, List.foldl_cons]
    omega

theorem length_mentioned (types : TypeTable) (items : List Item) :
    (mentioned types items).length < mentions types items := by
  have hitems (is : List Item) (n : Nat) :
      n + (is.flatMap idsOfItem).length ≤ is.foldl (fun n i => n + i.type.length + 1) n :=
    length_flatMap_le_foldl (fun n i => by have := length_idsOfItem_le i; omega) is n
  have htypes := length_flatMap_le_foldl (f := fun e : String × TypeEntry =>
      e.2.variables.flatMap idsOfItem)
    (g := fun n e => n + match e.2.members with
      | some (.items is) => is.foldl (fun n i => n + i.type.length + 1) 0
      | _ => 0)
    (fun n e => by
      unfold TypeEntry.variables
      split
      · rename_i is _
        have := hitems is 0
        omega
      · simp) types
    (items.foldl (fun n i => n + i.type.length + 1) 0)
  have hall := hitems items 0
  rw [mentioned, List.length_append, mentions]
  refine Nat.lt_succ_of_le (Nat.le_trans ?_ htypes)
  omega

theorem Stands.ids_subset (h : Stands types items required t) : t.ids ⊆ mentioned types items := by
  have hitem {i : Item} {t : TypeId} (ht : TypeId.read i.type = .ok t) : t.ids = idsOfItem i := by
    rw [idsOfItem, ht]
  induction h with
  | @item i t hi ht =>
    rw [hitem ht]
    exact fun id hid => List.mem_append_left _ (List.mem_flatMap.mpr ⟨i, hi, hid⟩)
  | argument _ ha ih => exact List.Subset.trans (TypeId.ids_subset_of_inside (List.mem_append_left _ ha)) ih
  | result _ hr ih => exact List.Subset.trans (TypeId.ids_subset_of_inside (List.mem_append_right _ hr)) ih
  | @member _ t entry m u _ hentry hm hu _ =>
    rw [hitem hu]
    refine fun id hid => List.mem_append_right _ (List.mem_flatMap.mpr ?_)
    exact ⟨_, mem_of_lookup_eq_some hentry, List.mem_flatMap.mpr ⟨m, hm, hid⟩⟩

/-- How many of some ids are not in a graph yet. -/
def pending (ids : List String) (g : TypeGraph) : Nat := ids.countP fun id => (g.lookup id).isNone

variable {g g' g'' : TypeGraph} {ids : List String} {id : String}

theorem pending_le (ids : List String) (hkeeps : ∀ id, g.lookup id ≠ none → g'.lookup id ≠ none) :
    pending ids g' ≤ pending ids g := by
  refine List.countP_mono_left fun id _ hnone => ?_
  rw [Option.isNone_iff_eq_none] at hnone ⊢
  by_contra hsome
  exact hkeeps id hsome hnone

theorem pending_lt (hkeeps : ∀ id, g.lookup id ≠ none → g'.lookup id ≠ none) (hid : id ∈ ids)
    (hnew : g.lookup id = none) (hadded : g'.lookup id ≠ none) : pending ids g' < pending ids g := by
  obtain ⟨before, behind, rfl⟩ := List.append_of_mem hid
  have hbefore := pending_le before hkeeps
  have hbehind := pending_le behind hkeeps
  have hadded' : (g'.lookup id).isNone = false := by
    rwa [Option.isNone_eq_false_iff, ← Option.ne_none_iff_isSome]
  simp only [pending] at hbefore hbehind
  simp only [pending, List.countP_append, List.countP_cons, hnew, hadded', Option.isNone_none]
  simp only [if_true, Bool.false_eq_true, if_false]
  omega

/-! ## One search -/

/-- What resolving does to a graph: what was in it stays, and of every id that is added the parts are
in the graph too. Only an id that stands in an optional place is added without an entry. -/
structure Grows (types : TypeTable) (items : List Item) (g g' : TypeGraph) : Prop where
  keeps : ∀ id, g.lookup id ≠ none → g'.lookup id ≠ none
  adds : ∀ t, TypeId.read t.text = .ok t → g.lookup t.text = none → g'.lookup t.text ≠ none →
    (∀ s ∈ t.inside, g'.lookup s.text ≠ none) ∧
    (∀ entry, types.lookup t.text = some entry → ∀ m ∈ entry.variables, g'.lookup m.type ≠ none) ∧
    (types.lookup t.text = none → Stands types items false t)

theorem Grows.refl (types : TypeTable) (items : List Item) (g : TypeGraph) :
    Grows types items g g :=
  ⟨fun _ h => h, fun _ _ hnew hadded => absurd hnew hadded⟩

theorem Grows.trans (h : Grows types items g g') (h' : Grows types items g' g'') :
    Grows types items g g'' where
  keeps id hid := h'.keeps id (h.keeps id hid)
  adds t ht hnew hadded := by
    by_cases hearlier : g'.lookup t.text = none
    · exact h'.adds t ht hearlier hadded
    · obtain ⟨hinside, hmembers, hentry⟩ := h.adds t ht hnew hearlier
      exact ⟨fun s hs => h'.keeps _ (hinside s hs),
        fun entry he m hm => h'.keeps _ (hmembers entry he m hm), hentry⟩

/-- What resolving may be refused for: an id that cannot be read, and a required one that the table does not
list. -/
inductive Refuses (types : TypeTable) (items : List Item) : Refusal → Prop where
  | unreadable {id : String} {e : Refusal} (h : Reached types items id) (hread : TypeId.read id = .error e) :
    Refuses types items e
  | missing {t : TypeId} (h : Stands types items true t) (hnone : types.lookup t.text = none) :
    Refuses types items (.unresolvableType t.text)

/-- What resolving comes to under every bound above `n`: it adds ids to a graph, or is refused. -/
inductive Settles (types : TypeTable) (items : List Item) (n : Nat) (g : TypeGraph) (ids : List String)
    (run : Nat → Except Refusal TypeGraph) : Prop where
  | grows {g' : TypeGraph} (h : ∀ bound, n < bound → run bound = .ok g') (hgrows : Grows types items g g')
    (hids : ∀ id ∈ ids, g'.lookup id ≠ none)
  | refused {e : Refusal} (h : ∀ bound, n < bound → run bound = .error e) (he : Refuses types items e)

section Settles

variable {n : Nat} {ids' : List String} {run : Nat → Except Refusal TypeGraph}

/-- One thing is resolved after another. -/
theorem Settles.bind {f : Nat → TypeGraph → Except Refusal TypeGraph}
    (h : Settles types items n g ids run)
    (hf : ∀ g', Grows types items g g' → Settles types items n g' ids' fun bound => f bound g') :
    Settles types items n g (ids ++ ids') fun bound => run bound >>= f bound := by
  cases h with
  | refused hrun he => exact .refused (fun bound hbound => by rw [hrun bound hbound]; rfl) he
  | @grows g' hrun hgrows hids =>
    cases hf g' hgrows with
    | refused hrun' he =>
      exact .refused (fun bound hbound => by rw [hrun bound hbound, ok_bind, hrun' bound hbound]) he
    | grows hrun' hgrows' hids' =>
      refine .grows (fun bound hbound => by rw [hrun bound hbound, ok_bind, hrun' bound hbound])
        (hgrows.trans hgrows') fun id hid => ?_
      rcases List.mem_append.mp hid with hid | hid
      · exact hgrows'.keeps id (hids id hid)
      · exact hids' id hid

/-- What one step of a fold comes to, the whole fold comes to. -/
theorem Settles.foldlM {α : Type} (key : α → String)
    {f : Nat → TypeGraph → α → Except Refusal TypeGraph} {l : List α}
    (hf : ∀ a ∈ l, ∀ g, pending ids g ≤ n → Settles types items n g [key a] fun bound => f bound g a)
    (hg : pending ids g ≤ n) :
    Settles types items n g (l.map key) fun bound => l.foldlM (f bound) g := by
  induction l generalizing g with
  | nil => exact .grows (fun _ _ => rfl) (.refl types items g) nofun
  | cons a l ih =>
    obtain ⟨ha, hl⟩ := List.forall_mem_cons.mp hf
    refine (ha g hg).bind fun g' hgrows => ih hl ?_
    exact Nat.le_trans (pending_le ids hgrows.keeps) hg

/-- The type of a variable is read before it is resolved. -/
theorem Settles.item {i : Item} {f : Nat → TypeId → Except Refusal TypeGraph}
    (hreached : Reached types items i.type)
    (hf : ∀ u, TypeId.read i.type = .ok u → Settles types items n g [u.text] fun bound => f bound u) :
    Settles types items n g [i.type] fun bound => TypeId.read i.type >>= f bound := by
  cases hread : TypeId.read i.type with
  | error e => exact .refused (fun _ _ => rfl) (.unreadable hreached hread)
  | ok u => exact TypeId.text_of_read hread ▸ hf u hread

/-- A bound above another is one more than a bound that is not below it. -/
theorem exists_succ_of_lt {bound : Nat} (h : n < bound) : ∃ bound', bound = bound' + 1 ∧ n ≤ bound' :=
  ⟨bound - 1, by omega, by omega⟩

end Settles

/-- Resolves what is in a type id: its arguments, its return types and the members of its entry. -/
def resolveInside (types : TypeTable) (bound : Nat) (t : TypeId) (required : Bool) (g : TypeGraph) :
    Except Refusal TypeGraph :=
  (t.args.getD []).foldlM (fun g a => resolve types bound g a
      (required && listsArguments (TypeId.kindOfHead t.head))) g >>= fun g =>
  (t.rets.getD []).foldlM (fun g r => resolve types bound g r false) g >>= fun g =>
  ((types.lookup t.text).elim [] TypeEntry.variables).foldlM
    (fun g m => do resolve types bound g (← TypeId.read m.type) true) g

/-- How an id that is not in the graph yet is resolved. -/
theorem resolve_new {bound : Nat} (hnew : g.lookup t.text = none)
    (hlisted : ((types.lookup t.text).isNone && required) = false) :
    resolve types (bound + 1) g t required = resolveInside types bound t required
      (g ++ [(t.text, TypeNode.ofEntry t (types.lookup t.text))]) := by
  rw [resolve, hnew]
  dsimp only
  rw [hlisted, if_neg Bool.false_ne_true]
  refine congrArg _ (funext fun g₁ => congrArg _ (funext fun g₂ => ?_))
  cases types.lookup t.text with
  | none => rfl
  | some entry =>
    cases hmembers : entry.members with
    | none => simp [TypeEntry.variables, hmembers]; rfl
    | some members => cases members <;> simp [TypeEntry.variables, hmembers] <;> rfl

theorem lookup_enter (g : TypeGraph) (id : String) (n : TypeNode) (other : String) :
    (g ++ [(id, n)]).lookup other ≠ none ↔ g.lookup other ≠ none ∨ other = id := by
  rw [List.lookup_append, Ne, Option.or_eq_none_iff, lookup_cons_eq, List.lookup_nil]
  by_cases h : other = id
  · simp [h]
  · simp [h]

/-- What a graph gains when an id is entered and everything in it is resolved. -/
theorem Grows.of_enter {n : TypeNode} (ht : TypeId.read t.text = .ok t)
    (h : Grows types items (g ++ [(t.text, n)]) g')
    (hinside : ∀ s ∈ t.inside, g'.lookup s.text ≠ none)
    (hmembers : ∀ entry, types.lookup t.text = some entry →
      ∀ m ∈ entry.variables, g'.lookup m.type ≠ none)
    (hentry : types.lookup t.text = none → Stands types items false t) : Grows types items g g' where
  keeps id hid := h.keeps id ((lookup_enter g _ n id).mpr (Or.inl hid))
  adds u hu hnew hadded := by
    by_cases heq : u.text = t.text
    · rw [heq, ht] at hu
      cases hu
      exact ⟨hinside, hmembers, hentry⟩
    · refine h.adds u hu ?_ hadded
      by_contra hearlier
      exact ((lookup_enter g _ n _).mp hearlier).elim (fun hsome => hsome hnew) heq

/-- What is in a type id is resolved or refused when every id that stands in it is. -/
theorem resolveInside_settles {n : Nat}
    (hids : ∀ {g : TypeGraph} {s : TypeId} {required : Bool}, Stands types items required s →
      pending (mentioned types items) g ≤ n →
      Settles types items n g [s.text] fun bound => resolve types bound g s required)
    (h : Stands types items required t) (hn : pending (mentioned types items) g ≤ n) :
    Settles types items n g (t.inside.map TypeId.text ++
      ((types.lookup t.text).elim [] TypeEntry.variables).map Item.type)
      fun bound => resolveInside types bound t required g := by
  rw [TypeId.inside, List.map_append, List.append_assoc]
  refine (Settles.foldlM TypeId.text (fun a ha g hg => hids (h.argument ha) hg) hn).bind
    fun g₁ hgrows₁ => ?_
  have hn₁ := Nat.le_trans (pending_le _ hgrows₁.keeps) hn
  refine (Settles.foldlM TypeId.text (fun r hr g hg => hids (h.result hr) hg) hn₁).bind
    fun g₂ hgrows₂ => ?_
  have hn₂ := Nat.le_trans (pending_le _ hgrows₂.keeps) hn₁
  refine Settles.foldlM Item.type (fun m hm g hg => ?_) hn₂
  cases hentry : types.lookup t.text with
  | none =>
    rw [hentry] at hm
    cases hm
  | some entry =>
    rw [hentry] at hm
    exact .item (.member h.reached h.read hentry hm) fun u hu => hids (h.member hentry hm hu) hg

/-- A type id that stands somewhere is resolved with everything in it, or refused. The ids that are not in the
graph yet bound the depth. -/
theorem resolve_settles {n : Nat} (h : Stands types items required t)
    (hn : pending (mentioned types items) g ≤ n) :
    Settles types items n g [t.text] fun bound => resolve types bound g t required := by
  induction n using Nat.strongRecOn generalizing g t required with
  | ind n ih =>
    cases hlookup : g.lookup t.text with
    | some node =>
      refine .grows (fun bound hbound => ?_) (.refl types items g) (List.forall_mem_singleton.mpr ?_)
      · obtain ⟨bound, rfl, -⟩ := exists_succ_of_lt hbound
        rw [resolve, hlookup]
      · rw [hlookup]
        exact Option.some_ne_none node
    | none =>
      cases hlisted : (types.lookup t.text).isNone && required with
      | true =>
        rw [Bool.and_eq_true, Option.isNone_iff_eq_none] at hlisted
        obtain ⟨hnone, rfl⟩ := hlisted
        refine .refused (fun bound hbound => ?_) (.missing h hnone)
        obtain ⟨bound, rfl, -⟩ := exists_succ_of_lt hbound
        rw [resolve, hlookup, hnone]
        rfl
      | false =>
        have hself := lookup_enter g t.text (.ofEntry t (types.lookup t.text))
        have hpending : pending (mentioned types items)
            (g ++ [(t.text, .ofEntry t (types.lookup t.text))]) < pending (mentioned types items) g :=
          pending_lt (fun id hid => (hself id).mpr (Or.inl hid)) (h.ids_subset t.text_mem_ids) hlookup
            ((hself _).mpr (Or.inr rfl))
        obtain ⟨m, rfl, hm⟩ := exists_succ_of_lt (Nat.lt_of_lt_of_le hpending hn)
        cases resolveInside_settles (ih m m.lt_succ_self) h hm with
        | refused hrun he =>
          refine .refused (fun bound hbound => ?_) he
          obtain ⟨bound, rfl, hlt⟩ := exists_succ_of_lt hbound
          rw [resolve_new hlookup hlisted]
          exact hrun bound hlt
        | grows hrun hgrows hids =>
          refine .grows (fun bound hbound => ?_) (.of_enter h.read hgrows ?_ ?_ ?_)
            (List.forall_mem_singleton.mpr (hgrows.keeps _ ((hself _).mpr (Or.inr rfl))))
          · obtain ⟨bound, rfl, hlt⟩ := exists_succ_of_lt hbound
            rw [resolve_new hlookup hlisted]
            exact hrun bound hlt
          · exact fun s hs => hids _ (List.mem_append_left _ (List.mem_map_of_mem hs))
          · intro entry hentry m hm
            rw [hentry] at hids
            exact hids _ (List.mem_append_right _ (List.mem_map_of_mem hm))
          · intro hnone
            rw [hnone, Option.isNone_none, Bool.true_and] at hlisted
            exact hlisted ▸ h

/-- The types of variables are resolved or refused, and every bound above the ids that can be met will do. -/
theorem resolveItems_settles (types : TypeTable) (items : List Item) :
    Settles types items (mentioned types items).length [] (items.map Item.type) fun bound =>
      resolveItems types bound [] items :=
  .foldlM Item.type (fun _ hi _ hg => .item (.item hi) fun _ hu => resolve_settles (.item hi hu) hg)
    List.countP_le_length

/-- Resolving is refused for a required id that the table does not list. -/
def Misses (types : TypeTable) (items : List Item) (x : Except Refusal TypeGraph) : Prop :=
  ∃ t, Stands types items true t ∧ types.lookup t.text = none ∧ x = .error (.unresolvableType t.text)

/-- The types of variables are resolved, or a required id is missing. -/
theorem resolveItems_grows (hread : Readable types items) :
    (∃ g, resolveItems types (mentions types items) [] items = .ok g ∧ Grows types items [] g ∧
      ∀ i ∈ items, g.lookup i.type ≠ none) ∨
      Misses types items (resolveItems types (mentions types items) [] items) := by
  cases resolveItems_settles types items with
  | @grows g hrun hgrows hids =>
    refine Or.inl ⟨g, hrun _ (length_mentioned types items), hgrows, fun i hi => ?_⟩
    exact hids _ (List.mem_map_of_mem hi)
  | refused hrun he =>
    cases he with
    | missing h hnone => exact Or.inr ⟨_, h, hnone, hrun _ (length_mentioned types items)⟩
    | unreadable h herror =>
      obtain ⟨t, ht⟩ := h.readable hread
      rw [ht] at herror
      cases herror

/-- A graph that holds the types of the variables holds every id that stands somewhere. -/
theorem Stands.mem_graph (hgrows : Grows types items [] g)
    (hitems : ∀ i ∈ items, g.lookup i.type ≠ none) (h : Stands types items required t) :
    g.lookup t.text ≠ none := by
  induction h with
  | item hi ht => exact TypeId.text_of_read ht ▸ hitems _ hi
  | argument h ha ih => exact (hgrows.adds _ h.read rfl ih).1 _ (List.mem_append_left _ ha)
  | result h hr ih => exact (hgrows.adds _ h.read rfl ih).1 _ (List.mem_append_right _ hr)
  | member h hentry hm hu ih =>
    exact TypeId.text_of_read hu ▸ (hgrows.adds _ h.read rfl ih).2.1 _ hentry _ hm

end Resolution

namespace Layout

open Resolution

variable {layout : Layout}

theorem resolveStorage_eq_ok_iff : (∃ r, layout.resolveStorage = .ok r) ↔
    ∃ g, resolveItems layout.types (mentions layout.types layout.storage) [] layout.storage = .ok g := by
  constructor
  · rintro ⟨r, h⟩
    obtain ⟨g, hg, -⟩ := bind_eq_ok_iff.mp h
    exact ⟨g, hg⟩
  · rintro ⟨g, hg⟩
    exact ⟨⟨g, layout.storage⟩, bind_eq_ok_iff.mpr ⟨g, hg, rfl⟩⟩

/-- A layout is resolved when every required id is in the types table. -/
theorem resolveStorage_of_listed (hread : Readable layout.types layout.storage)
    (hlisted : ∀ t, Stands layout.types layout.storage true t →
      (layout.types.lookup t.text).isSome) : ∃ r, layout.resolveStorage = .ok r := by
  rw [resolveStorage_eq_ok_iff]
  rcases resolveItems_grows hread with ⟨g, hg, -⟩ | ⟨t, ht, hnone, -⟩
  · exact ⟨g, hg⟩
  · have hsome := hlisted t ht
    rw [hnone] at hsome
    cases hsome

/-- Where a layout is resolved, a required id that the types table lacks stands in an optional place
as well. -/
theorem stands_optional_of_resolveStorage (hread : Readable layout.types layout.storage)
    (hresolved : ∃ r, layout.resolveStorage = .ok r) {t : TypeId}
    (ht : Stands layout.types layout.storage true t) (hnone : layout.types.lookup t.text = none) :
    Stands layout.types layout.storage false t := by
  obtain ⟨g, hg⟩ := resolveStorage_eq_ok_iff.mp hresolved
  rcases resolveItems_grows hread with ⟨g', hg', hgrows, hitems⟩ | ⟨_, _, _, herror⟩
  · exact (hgrows.adds t ht.read rfl (ht.mem_graph hgrows hitems)).2.2 hnone
  · rw [hg] at herror
    cases herror

/-- Where no missing id stands in places of both sorts, a layout that is resolved misses none. -/
theorem listed_of_resolveStorage (layout : Layout) (hread : Readable layout.types layout.storage)
    (hboth : ∀ t, Stands layout.types layout.storage true t →
      Stands layout.types layout.storage false t → (layout.types.lookup t.text).isSome)
    (hresolved : ∃ r, layout.resolveStorage = .ok r) (t : TypeId)
    (ht : Stands layout.types layout.storage true t) : (layout.types.lookup t.text).isSome := by
  by_contra hnone
  rw [Bool.not_eq_true, Option.isSome_eq_false_iff, Option.isNone_iff_eq_none] at hnone
  have hsome := hboth t ht (stands_optional_of_resolveStorage hread hresolved ht hnone)
  rw [hnone] at hsome
  cases hsome

/-- A layout whose ids can be read is resolved when every required id is in the types table, and
otherwise it is refused for one that is not, unless all of these stand in optional places as well. So
when no missing id stands in places of both sorts, resolving succeeds just when every required id is in
the table, in whichever order the variables are listed. -/
theorem resolveStorage_required (layout : Layout) (hread : Readable layout.types layout.storage) :
    ((∀ t, Stands layout.types layout.storage true t → (layout.types.lookup t.text).isSome) →
      ∃ r, layout.resolveStorage = .ok r) ∧
    ((∃ r, layout.resolveStorage = .ok r) → ∀ t, Stands layout.types layout.storage true t →
      layout.types.lookup t.text = none → Stands layout.types layout.storage false t) ∧
    (∀ e, layout.resolveStorage = .error e → ∃ t, Stands layout.types layout.storage true t ∧
      layout.types.lookup t.text = none ∧ e = .unresolvableType t.text) ∧
    ((∀ t, Stands layout.types layout.storage true t → Stands layout.types layout.storage false t →
        (layout.types.lookup t.text).isSome) →
      ((∃ r, layout.resolveStorage = .ok r) ↔
        ∀ t, Stands layout.types layout.storage true t → (layout.types.lookup t.text).isSome) ∧
      ∀ storage, layout.storage.Perm storage → ((∃ r, layout.resolveStorage = .ok r) ↔
        ∃ r, { layout with storage }.resolveStorage = .ok r)) := by
  refine ⟨resolveStorage_of_listed hread, fun hresolved t => stands_optional_of_resolveStorage hread
    hresolved, ?_, fun hboth => ⟨⟨listed_of_resolveStorage layout hread hboth, resolveStorage_of_listed hread⟩, ?_⟩⟩
  · intro e he
    rcases resolveItems_grows hread with ⟨g, hg, -⟩ | ⟨t, ht, hnone, herror⟩
    · rw [resolveStorage, hg] at he
      cases he
    · rw [resolveStorage, herror] at he
      cases he
      exact ⟨t, ht, hnone, rfl⟩
  · intro storage hperm
    have hread' : Readable layout.types storage :=
      ⟨fun i hi => hread.items i (hperm.mem_iff.mpr hi), hread.members⟩
    constructor
    · intro hresolved
      refine resolveStorage_of_listed hread' fun t ht => ?_
      exact listed_of_resolveStorage layout hread hboth hresolved t (ht.of_perm hperm.symm)
    · intro hresolved
      refine resolveStorage_of_listed hread fun t ht => ?_
      exact listed_of_resolveStorage { layout with storage } hread'
        (fun t ht hf => hboth t (ht.of_perm hperm.symm) (hf.of_perm hperm.symm)) hresolved t
        (ht.of_perm hperm)

/-- The id of a word. -/
def word : TypeId.Tree :=
  .name ⟨⟨['t', '_', 'u', 'i', 'n', 't', '2', '5', '6'], by simp [TypeId.IsPlain]⟩, nofun⟩

/-- The id of a function of a word. -/
def check : TypeId.Tree :=
  .function ⟨⟨['t', '_', 'f', 'u', 'n', 'c', 't', 'i', 'o', 'n'], by simp [TypeId.IsPlain]⟩, nofun⟩
    [word] ⟨['r', 'e', 't', 'u', 'r', 'n', 's'], by simp [TypeId.IsPlain]⟩ [word]

/-- Variables of a type each, where the table lists nothing but the function. -/
def dangling (trees : List TypeId.Tree) : Layout where
  layoutVersion := some currentVersion
  storage := trees.map fun t => { label := t.text, type := t.text }
  types := [(check.text, { label := "function (uint256) pure returns (uint256)" })]

theorem readable_dangling (trees : List TypeId.Tree) :
    Readable (dangling trees).types (dangling trees).storage where
  items i hi := by
    obtain ⟨t, -, rfl⟩ := List.mem_map.mp hi
    exact ⟨t.parsed, t.read_text⟩
  members e he m hm := by
    obtain rfl := List.mem_singleton.mp he
    cases hm

theorem eq_check_of_required {required : Bool} {t : TypeId} (hrequired : required = true)
    (h : Stands (dangling [check]).types (dangling [check]).storage required t) : t = check.parsed := by
  induction h with
  | item hi ht =>
    obtain rfl := List.mem_singleton.mp hi
    rw [check.read_text] at ht
    cases ht
    rfl
  | argument _ ha ih =>
    rw [Bool.and_eq_true] at hrequired
    obtain rfl := ih hrequired.1
    exact absurd hrequired.2 (by decide +kernel)
  | result => cases hrequired
  | member _ hentry hm =>
    obtain rfl := Prod.mk.inj (List.mem_singleton.mp (mem_of_lookup_eq_some hentry)) |>.2
    cases hm

theorem resolveStorage_required_function : ∃ r, (dangling [check]).resolveStorage = .ok r := by
  refine (resolveStorage_required _ (readable_dangling [check])).1 fun t ht => ?_
  rw [eq_check_of_required rfl ht]
  decide

/-- A word that the table does not list is missed when it is met as a variable, but not when it was met
as an argument of a function before. -/
theorem resolveStorage_dangling :
    Stands (dangling [check, word]).types (dangling [check, word]).storage true word.parsed ∧
    (dangling [check, word]).types.lookup word.text = none ∧
    (∃ r, (dangling [check, word]).resolveStorage = .ok r) ∧
    (dangling [word, check]).resolveStorage = .error (.unresolvableType word.text) := by
  refine ⟨.item (List.mem_cons_of_mem _ List.mem_cons_self) word.read_text, by decide, ?_, ?_⟩
  · have hsome : (dangling [check, word]).resolveStorage.toOption.isSome = true := by decide +kernel
    obtain ⟨r, hr⟩ := Option.isSome_iff_exists.mp hsome
    exact ⟨r, eq_ok_of_toOption hr⟩
  · have hmissing : (resolveItems (dangling [word, check]).types
        (mentions (dangling [word, check]).types (dangling [word, check]).storage) []
        (dangling [word, check]).storage) = .error (.unresolvableType word.text) := by
      change (TypeId.read word.text >>= fun t => resolve _ _ [] t true) >>= _ = _
      rw [word.read_text]
      rfl
    rw [resolveStorage, hmissing]
    rfl

end Layout

end UpgradeSafety
