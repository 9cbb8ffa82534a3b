import UpgradeSafety.Failure

/-!
# Type ids

A type id is a head, optionally followed by arguments in parentheses and then by a tail or by return
types in parentheses: `t_array(t_uint256)47_storage` has the head `t_array`, the argument
`t_uint256` and the tail `47_storage`. Empty arguments are dropped. Text behind the return types is
ignored.

The arguments are found by counting parentheses, so a part that stands between two commas at depth
zero is balanced and reading it cannot fail on its own.
-/

namespace UpgradeSafety

/-- A type id split into its parts; `text` is the whole id. -/
structure TypeId where
  text : String
  head : String
  args : Option (List TypeId)
  tail : Option String
  rets : Option (List TypeId)

namespace TypeId

/-- Splits a text behind an opening parenthesis at the commas of depth zero, up to the matching
closing one: the parts and the rest. `part` holds the characters of the current part, last first,
and `parts` the parts before it, last first. None when no parenthesis matches. -/
def splitParts (depth : Nat) (part : List Char) (parts : List (List Char)) :
    List Char → Option (List (List Char) × List Char)
  | [] => none
  | c :: cs =>
    if c = '(' then splitParts (depth + 1) (c :: part) parts cs
    else if depth = 0 then
      if c = ')' then some ((part.reverse :: parts).reverse, cs)
      else if c = ',' then splitParts 0 [] (part.reverse :: parts) cs
      else splitParts 0 (c :: part) parts cs
    else if c = ')' then splitParts (depth - 1) (c :: part) parts cs
    else splitParts depth (c :: part) parts cs

/-- Every part is shorter than the text and what was read before it together. -/
theorem length_lt_of_splitParts {cs : List Char} :
    ∀ {depth : Nat} {part : List Char} {parts ps : List (List Char)} {rest : List Char} {n : Nat},
      splitParts depth part parts cs = some (ps, rest) → part.length + cs.length ≤ n →
      (∀ p ∈ parts, p.length < n) → (∀ p ∈ ps, p.length < n) ∧ rest.length < n := by
  induction cs with
  | nil => intro _ _ _ _ _ _ h; simp [splitParts] at h
  | cons c cs ih =>
    intro depth part parts ps rest n h hn hparts
    rw [List.length_cons] at hn
    unfold splitParts at h
    split at h
    · exact ih h (by simp only [List.length_cons]; omega) hparts
    split at h
    · split at h
      · cases h
        refine ⟨fun p hp => ?_, by omega⟩
        rw [List.mem_reverse, List.mem_cons] at hp
        rcases hp with rfl | hp
        · rw [List.length_reverse]; omega
        · exact hparts p hp
      split at h
      · refine ih h (by simp only [List.length_nil]; omega) fun p hp => ?_
        rcases List.mem_cons.1 hp with rfl | hp
        · rw [List.length_reverse]; omega
        · exact hparts p hp
      · exact ih h (by simp only [List.length_cons]; omega) hparts
    · split at h
      · exact ih h (by simp only [List.length_cons]; omega) hparts
      · exact ih h (by simp only [List.length_cons]; omega) hparts

/-- The parts of a list in parentheses, empty ones dropped, and the rest; every part and the rest
are shorter than the text. -/
def parts? (cs : List Char) :
    Option ({ ps : List (List Char) // ∀ p ∈ ps, p.length < cs.length } ×
      { rest : List Char // rest.length < cs.length }) :=
  match h : splitParts 0 [] [] cs with
  | none => none
  | some (ps, rest) =>
    have bound := length_lt_of_splitParts h (by simp : _ ≤ cs.length) (by simp)
    some (⟨ps.filter (!·.isEmpty), fun p hp => bound.1 p (List.mem_filter.1 hp).1⟩,
      ⟨rest, bound.2⟩)

/-- Splits a text at its first opening parenthesis: what stands before it and, if there is one,
what stands behind it. -/
def splitOpen : List Char → List Char × Option (List Char)
  | [] => ([], none)
  | c :: cs =>
    if c = '(' then ([], some cs)
    else ((c :: (splitOpen cs).1), (splitOpen cs).2)

theorem length_lt_of_splitOpen {cs before behind : List Char}
    (h : splitOpen cs = (before, some behind)) : behind.length < cs.length := by
  induction cs generalizing before with
  | nil => simp [splitOpen] at h
  | cons c cs ih =>
    unfold splitOpen at h
    split at h
    · cases h; simp
    · cases hs : splitOpen cs with
      | mk b r =>
        rw [hs] at h
        simp only [Prod.mk.injEq] at h
        rw [h.2] at hs
        have := ih hs
        simp only [List.length_cons]; omega

/-- The parts of a type id; none when a parenthesis is left open. -/
def ofChars? (cs : List Char) : Option TypeId :=
  match h : splitOpen cs with
  | (head, none) => some ⟨String.ofList cs, String.ofList head, none, none, none⟩
  | (head, some behind) =>
    have _hb := length_lt_of_splitOpen h
    match parts? behind with
    | none => none
    | some (⟨args, hargs⟩, ⟨rest, _hrest⟩) => do
      let args ← args.attach.mapM fun ⟨p, hp⟩ =>
        have := hargs p hp
        ofChars? p
      match h' : splitOpen rest with
      | (tail, none) =>
        some ⟨String.ofList cs, String.ofList head, some args,
          if tail.isEmpty then none else some (String.ofList tail), none⟩
      | (_, some behind') =>
        have _hb' := length_lt_of_splitOpen h'
        match parts? behind' with
        | none => none
        | some (⟨rets, hrets⟩, _) => do
          let rets ← rets.attach.mapM fun ⟨p, hp⟩ =>
            have := hrets p hp
            ofChars? p
          some ⟨String.ofList cs, String.ofList head, some args, none, some rets⟩
termination_by cs.length

/-- Reads a type id. -/
def read (id : String) : Except Refusal TypeId :=
  match ofChars? id.toList with
  | some t => .ok t
  | none => .error (.malformedTypeId id)

/-! ## Kinds -/

/-- The kind of a type, derived from the head of its id. -/
inductive Kind where
  | elementary
  | struct
  | enum
  | array
  | mapping
  | contract
  | valueType
  | function
  | bytes
  | string
  deriving DecidableEq, Repr

/-- The name of a kind. -/
def Kind.name : Kind → String
  | elementary => "elementary"
  | struct => "struct"
  | enum => "enum"
  | array => "array"
  | mapping => "mapping"
  | contract => "contract"
  | valueType => "user_defined_value_type"
  | function => "function"
  | bytes => "bytes"
  | string => "string"

/-- The kind that a head stands for. -/
def kindOfHead (head : String) : Kind :=
  if head.startsWith "t_function" then .function
  else if head.startsWith "t_bytes_" then .bytes
  else if head.startsWith "t_string" then .string
  else if head = "t_struct" then .struct
  else if head = "t_enum" then .enum
  else if head = "t_array" then .array
  else if head = "t_mapping" then .mapping
  else if head = "t_contract" then .contract
  else if head = "t_userDefinedValueType" then .valueType
  else .elementary

/-- The length of an array. -/
inductive Length where
  | dynamic
  | fixed (n : Nat)
  deriving DecidableEq, Repr

/-- The text of a length. -/
def Length.text : Length → String
  | dynamic => "dynamic"
  | fixed n => toString n

/-- The number of a fixed length. -/
def Length.fixed? : Length → Option Nat
  | fixed n => some n
  | dynamic => none

/-- The number that decimal digits of any script write. -/
def digitsNumber (ds : List Char) : Nat :=
  ds.foldl (fun n d => n * 10 + (Text.decimalDigit? d).getD 0) 0

/-- The length that the tail of an array type begins with. -/
def lengthOfTail? (tail : List Char) : Option Length :=
  match tail.takeWhile Text.isDecimalDigit with
  | [] => if tail.take 3 = ['d', 'y', 'n'] then some .dynamic else none
  | ds => some (.fixed (digitsNumber ds))

/-- The length of the type with a head and a tail, when it is an array type. -/
def lengthOf? (head : String) (tail : Option String) : Option Length :=
  if head = "t_array" then tail.bind fun t => lengthOfTail? t.toList else none

/-- Signedness of the integer type that a head names, and the digits of its size. -/
def integerDigits? (head : String) : Option (Bool × List Char) :=
  let body (signed : Bool) (cs : List Char) : Option (Bool × List Char) :=
    let ds := cs.takeWhile Text.isDecimalDigit
    let rest := cs.dropWhile Text.isDecimalDigit
    if !ds.isEmpty && (rest.isEmpty || rest = ['\n']) then some (signed, ds) else none
  match head.toList with
  | 't' :: '_' :: 'u' :: 'i' :: 'n' :: 't' :: cs => body false cs
  | 't' :: '_' :: 'i' :: 'n' :: 't' :: cs => body true cs
  | _ => none

/-- Signedness and size of the integer type that a head names. -/
def integerOf? (head : String) : Option (Bool × Nat) :=
  (integerDigits? head).map fun (signed, ds) => (signed, digitsNumber ds)

/-! ## Numbers with too many digits -/

/-- How many digits a number has, when they are more than are read. -/
def excess? (ds : List Char) : Option Nat :=
  if Numeral.maxDecimalDigits < ds.length then some ds.length else none

/-- How many digits the length of an array type has, when they are more than are read. -/
def lengthExcess? (head : String) (tail : Option String) : Option Nat :=
  if head = "t_array" then tail.bind fun t => excess? (t.toList.takeWhile Text.isDecimalDigit)
  else none

/-- How many digits the size of an integer type has, when they are more than are read. -/
def integerExcess? (head : String) : Option Nat :=
  (integerDigits? head).bind fun (_, ds) => excess? ds

end TypeId

end UpgradeSafety
