import UpgradeSafety.Manifest.Store
import UpgradeSafety.Proofs.Files.Locations
import UpgradeSafety.Proofs.Numeral.Decimal

/-!
# Names of files

The files of a network are named after it or have its number in their names, those of a development
chain have its chain and its instance in theirs. No file can have a name for two networks or
instances (`eq_of_mem_fileNames`), and no two locks have the same name (`lockName_inj`).

All names are put together from texts, so this has to be read off the characters. The digits of a
number end where the hyphen or the ending begins, so a name with a number determines the number,
and what follows is the instance (`scope_inj`); an instance may be any text, and may hold hyphens,
digits or the endings of file names. The names of the well-known networks are a table, in which no
two are alike. None of them begins like a numbered name or like that of a development chain, which
the first characters tell.

Names are joined to the path of a folder. Without slashes in an instance this leads into the folder
itself (`join_scope`).
-/

namespace UpgradeSafety.Manifest

open Files

/-! ## Networks -/

theorem head?_networks :
    ∀ e ∈ networks, (e.2.toList.head?.any fun c => c != 'u' && c != 'd') = true := by decide +kernel

theorem networks_inj : ∀ e ∈ networks, ∀ f ∈ networks, e.2 = f.2 → e.1 = f.1 := by decide +kernel

theorem mem_networks {chainId : Int} {name : String} (h : networkName? chainId = some name) :
    (chainId, name) ∈ networks := by
  obtain ⟨front, back, heq, -⟩ := List.lookup_eq_some_iff.mp h
  rw [heq]
  exact List.mem_append_right _ List.mem_cons_self

/-- A network has the name of a well-known network, or its numbered name. -/
theorem networkName_cases (chainId : Int) :
    (chainId, networkName chainId) ∈ networks ∨ networkName chainId = numberedName chainId := by
  unfold networkName
  cases hname : networkName? chainId with
  | none => exact Or.inr rfl
  | some name => exact Or.inl (mem_networks hname)

theorem numberedName_inj {a b : Int} (h : numberedName a = numberedName b) : a = b :=
  Int.repr_injective ((String.append_right_inj _).mp h)

theorem head?_numberedName (chainId : Int) : (numberedName chainId).toList.head? = some 'u' := by
  rw [numberedName, String.toList_append]
  rfl

theorem head?_networkName (chainId : Int) : (networkName chainId).toList.head? ≠ some 'd' := by
  rcases networkName_cases chainId with hmem | heq
  · intro hhead
    have hknown := head?_networks _ hmem
    rw [hhead] at hknown
    cases hknown
  · rw [heq, head?_numberedName]
    decide

theorem eq_of_networkName_eq_numberedName {a b : Int} (h : networkName a = numberedName b) : a = b := by
  rcases networkName_cases a with hmem | heq
  · have hknown := head?_networks _ hmem
    rw [h, head?_numberedName] at hknown
    cases hknown
  · exact numberedName_inj (heq.symm.trans h)

theorem networkName_inj {a b : Int} (h : networkName a = networkName b) : a = b := by
  rcases networkName_cases b with hb | hb
  · rcases networkName_cases a with ha | ha
    · exact networks_inj _ ha _ hb h
    · exact (eq_of_networkName_eq_numberedName (h.symm.trans ha)).symm
  · exact eq_of_networkName_eq_numberedName (h.trans hb)

/-- The name of a well-known network is not its numbered name. -/
theorem networkName_ne_numberedName {chainId : Int} (h : (networkName? chainId).isSome = true) :
    networkName chainId ≠ numberedName chainId := by
  obtain ⟨name, hname⟩ := Option.isSome_iff_exists.mp h
  intro heq
  have hknown := head?_networks _ (mem_networks hname)
  rw [networkName, hname, Option.getD_some] at heq
  rw [heq, head?_numberedName] at hknown
  cases hknown

/-! ## Chains and instances -/

/-- A chain and, if it is a development chain, its instance, as they stand in file names. -/
def scope : Int × Option String → String
  | (chainId, none) => toString chainId
  | (chainId, some id) => toString chainId ++ "-" ++ id

/-- What stands behind the digits of the chain. -/
def scopeEnd : Option String → List Char
  | none => []
  | some id => '-' :: id.toList

theorem toList_scope (o : Int × Option String) : (scope o).toList =
    (if o.1 < 0 then ['-'] else []) ++ (Nat.toDigits 10 o.1.natAbs ++ scopeEnd o.2) := by
  obtain ⟨chainId, id⟩ := o
  cases id with
  | none => rw [scope, Numeral.toList_toString, scopeEnd, List.append_nil]
  | some id =>
    rw [scope, String.toList_append, String.toList_append, Numeral.toList_toString, List.append_assoc,
      List.append_assoc]
    rfl

theorem scope_inj {o o' : Int × Option String} (h : scope o = scope o') : o = o' := by
  obtain ⟨a, i⟩ := o
  obtain ⟨b, j⟩ := o'
  have hlist := congrArg String.toList h
  rw [toList_scope, toList_scope] at hlist
  have hdigits : ∀ n : Nat, ∀ c ∈ Nat.toDigits 10 n, c.isDigit = true :=
    fun n c hc => Numeral.isDigit_of_mem_decimal hc
  have hend : ∀ k, ∀ c ∈ (scopeEnd k).head?, c.isDigit = false := by
    rintro (_ | id) c hc
    · cases hc
    · cases hc
      rfl
  -- a minus sign is no digit, so both are negative or neither
  have hfront : ∀ (n : Nat) (k : Option String) (l : List Char),
      '-' :: l ≠ Nat.toDigits 10 n ++ scopeEnd k := by
    intro n k l heq
    obtain ⟨d, ds, hds⟩ := List.exists_cons_of_ne_nil (Nat.toDigits_ne_nil (b := 10) (n := n))
    rw [hds, List.cons_append] at heq
    have hd := hdigits n d (hds ▸ List.mem_cons_self)
    rw [← (List.cons.inj heq).1] at hd
    cases hd
  have hparts : ∀ {m n : Nat}, Nat.toDigits 10 m ++ scopeEnd i = Nat.toDigits 10 n ++ scopeEnd j →
      m = n ∧ i = j := by
    intro m n heq
    obtain ⟨htake, hdrop⟩ := Numeral.takeWhile_digits (hdigits m) (hend i)
    obtain ⟨htake', hdrop'⟩ := Numeral.takeWhile_digits (hdigits n) (hend j)
    refine ⟨?_, ?_⟩
    · have hsame : Nat.toDigits 10 m = Nat.toDigits 10 n := by rw [← htake, heq, htake']
      rw [← Nat.ofDigitChars_ten_toDigits (n := m), hsame, Nat.ofDigitChars_ten_toDigits]
    · have hsame : scopeEnd i = scopeEnd j := by rw [← hdrop, heq, hdrop']
      cases i <;> cases j
      · rfl
      · cases hsame
      · cases hsame
      · exact congrArg some (String.toList_inj.mp (List.cons.inj hsame).2)
  by_cases ha : a < 0 <;> by_cases hb : b < 0 <;>
    simp only [ha, hb, if_true, if_false, List.singleton_append, List.nil_append] at hlist
  · obtain ⟨habs, rfl⟩ := hparts (List.cons.inj hlist).2
    rw [show a = b by omega]
  · exact absurd hlist (hfront _ _ _)
  · exact absurd hlist.symm (hfront _ _ _)
  · obtain ⟨habs, rfl⟩ := hparts hlist
    rw [show a = b by omega]

/-! ## Files and locks -/

/-- The names that files of records can have. -/
def fileNames : Int × Option String → List String
  | (chainId, none) => [networkName chainId ++ ".json", numberedName chainId ++ ".json"]
  | (chainId, some id) => ["dev-" ++ scope (chainId, some id) ++ ".json"]

/-- The name of a lock. -/
def lockName (o : Int × Option String) : String := "chain-" ++ scope o ++ ".lock"

theorem lockName_inj {o o' : Int × Option String} (h : lockName o = lockName o') : o = o' :=
  scope_inj ((String.append_right_inj _).mp ((String.append_left_inj _).mp h))

theorem development_ne_network (o : Int × Option String) {chainId : Int} {name : String}
    (h : name ∈ fileNames (chainId, none)) : "dev-" ++ scope o ++ ".json" ≠ name := by
  have hhead : ("dev-" ++ scope o).toList.head? = some 'd' := by
    rw [String.toList_append]
    rfl
  intro heq
  rcases List.mem_pair.mp h with rfl | rfl
  · rw [(String.append_left_inj _).mp heq] at hhead
    exact head?_networkName chainId hhead
  · rw [(String.append_left_inj _).mp heq, head?_numberedName] at hhead
    cases hhead

/-- No file can have a name for two networks or instances. -/
theorem eq_of_mem_fileNames {o o' : Int × Option String} {name : String} (h : name ∈ fileNames o)
    (h' : name ∈ fileNames o') : o = o' := by
  obtain ⟨a, i⟩ := o
  obtain ⟨b, j⟩ := o'
  cases i with
  | none =>
    cases j with
    | none =>
      rcases List.mem_pair.mp h with rfl | rfl <;> rcases List.mem_pair.mp h' with heq | heq <;>
        have heq := (String.append_left_inj _).mp heq
      · rw [networkName_inj heq]
      · rw [eq_of_networkName_eq_numberedName heq]
      · rw [eq_of_networkName_eq_numberedName heq.symm]
      · rw [numberedName_inj heq]
    | some id => exact absurd (List.mem_singleton.mp h').symm (development_ne_network _ h)
  | some id =>
    cases j with
    | none => exact absurd (List.mem_singleton.mp h).symm (development_ne_network _ h')
    | some id' =>
      have heq := (List.mem_singleton.mp h).symm.trans (List.mem_singleton.mp h')
      exact scope_inj ((String.append_right_inj _).mp ((String.append_left_inj _).mp heq))

theorem ne_lockName_of_mem_fileNames {o : Int × Option String} {name : String} (h : name ∈ fileNames o)
    (o' : Int × Option String) : name ≠ lockName o' := by
  have hending : ∃ front, name = front ++ ".json" := by
    obtain ⟨a, i⟩ := o
    cases i with
    | none => rcases List.mem_pair.mp h with rfl | rfl <;> exact ⟨_, rfl⟩
    | some id => exact ⟨_, List.mem_singleton.mp h⟩
  obtain ⟨front, rfl⟩ := hending
  have hlast : (front ++ ".json").toList.getLast? = some 'n' := by
    rw [String.toList_append, List.getLast?_append]
    rfl
  have hlock : (lockName o').toList.getLast? = some 'k' := by
    rw [lockName, String.toList_append, List.getLast?_append]
    rfl
  intro heq
  rw [heq, hlock] at hlast
  cases hlast

/-! ## Names without slashes -/

theorem slash_not_mem_toString (n : Int) : '/' ∉ (toString n).toList := by
  rw [Numeral.toList_toString, List.mem_append, not_or]
  refine ⟨?_, fun hmem => ?_⟩
  · split <;> decide
  · have hdigit := Numeral.isDigit_of_mem_decimal hmem
    cases hdigit

theorem slash_not_mem_scope {o : Int × Option String} (h : ∀ id ∈ o.2, '/' ∉ id.toList) :
    '/' ∉ (scope o).toList := by
  obtain ⟨chainId, id⟩ := o
  cases id with
  | none => exact slash_not_mem_toString chainId
  | some id =>
    rw [scope, String.toList_append, String.toList_append, List.mem_append, List.mem_append]
    rintro ((hmem | hmem) | hmem)
    · exact slash_not_mem_toString chainId hmem
    · exact absurd hmem (by decide)
    · exact h id rfl hmem

/-- A name between a beginning and an ending leads into the folder itself. -/
theorem join_scope {o : Int × Option String} (h : ∀ id ∈ o.2, '/' ∉ id.toList) (p : Path)
    (front ending : String) (hfront : '/' ∉ front.toList) (hending : '/' ∉ ending.toList)
    (hlength : 1 < front.length) :
    p.join (front ++ scope o ++ ending) = p.child (front ++ scope o ++ ending) := by
  have hlong : 1 < (front ++ scope o ++ ending).length := by
    rw [String.length_append, String.length_append]
    omega
  refine Path.join_of_slashless p ?_ ?_ ?_
  · rw [String.toList_append, String.toList_append, List.mem_append, List.mem_append]
    rintro ((hmem | hmem) | hmem)
    · exact hfront hmem
    · exact slash_not_mem_scope h hmem
    · exact hending hmem
  · intro heq
    rw [heq] at hlong
    exact absurd hlong (by decide)
  · intro heq
    rw [heq] at hlong
    exact absurd hlong (by decide)

end UpgradeSafety.Manifest
