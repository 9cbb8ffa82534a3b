/-!
# Alignment of two lists

A list of former elements and a list of updated ones are paired by the cheapest edit script that
turns the first into the second. Elements inserted beyond the length of the former list are
*appended* and cost nothing; all other prices are given by the caller and may depend on positions.

The costs of all pairs of initial segments are tabulated row by row. The script is then read off the
table from its end: pairing is preferred to inserting, and inserting to deleting.

A position `(i, j)` stands between the first `i` former and the first `j` updated elements, so a
step into `(i, j)` treats the elements with the indices `i - 1` and `j - 1`.
-/

namespace UpgradeSafety.Alignment

/-- The prices of the steps into a position. -/
structure Prices where
  /-- Pairing the `i`-th former with the `j`-th updated element. -/
  pair : Nat → Nat → Int
  /-- Inserting the `j`-th updated element behind the `i`-th former one. -/
  insert : Nat → Nat → Int
  /-- Deleting the `i`-th former element. -/
  delete : Nat → Int

/-- The price of an insertion when appending beyond `n` elements is free. -/
def Prices.insertOrAppend (p : Prices) (n i j : Nat) : Int := if n < j then 0 else p.insert i j

/-- One step of an edit script; elements are given by their indices. -/
inductive Step where
  | pair (i j : Nat)
  | insert (j : Nat)
  | append (j : Nat)
  | delete (i : Nat)
  deriving DecidableEq, Repr

variable (p : Prices) (n m : Nat)

/-! ## The table of costs -/

/-- The costs of the first row from column `j` on, `left` being the cost before it. -/
def firstRowFrom (left : Int) (j : Nat) : Nat → List Int
  | 0 => []
  | k + 1 =>
    let here := left + p.insertOrAppend n 0 j
    here :: firstRowFrom here (j + 1) k

/-- The row of position `i = 0`. -/
def firstRow : List Int := 0 :: firstRowFrom p n 0 1 m

/-- The costs of row `i` from column `j` on: `left` is the cost before it, and the list holds the
costs above from column `j - 1` on. -/
def rowFrom (i : Nat) (left : Int) (j : Nat) : List Int → List Int
  | diagonal :: above :: rest =>
    let here := min (min (diagonal + p.pair i j) (left + p.insertOrAppend n i j))
      (above + p.delete i)
    here :: rowFrom i here (j + 1) (above :: rest)
  | _ => []

/-- Row `i` from the row above it. -/
def nextRow (i : Nat) (above : List Int) : List Int :=
  let first := above.headD 0 + p.delete i
  first :: rowFrom p n i first 1 above

/-- Rows `i, …, i + k - 1` below a row. -/
def rowsFrom (i : Nat) (above : List Int) : Nat → List (List Int)
  | 0 => []
  | k + 1 =>
    let row := nextRow p n i above
    row :: rowsFrom (i + 1) row k

/-- The table of the least costs of all positions. -/
structure Table where
  rows : Array (Array Int)

/-- The table for `n` former and `m` updated elements. -/
def table : Table :=
  let first := firstRow p n m
  ⟨((first :: rowsFrom p n 1 first n).map List.toArray).toArray⟩

/-- The cost of a position. -/
def Table.cost (t : Table) (i j : Nat) : Int := (t.rows.getD i #[]).getD j 0

/-! ## The script -/

/-- Reads the steps into `(i, j)` off the table, before the steps `later`. None when no step
explains a cost. -/
def readBack (t : Table) (i j : Nat) (later : List Step) : Option (List Step) :=
  match i, j with
  | 0, 0 => some later
  | 0, j + 1 =>
    if t.cost 0 (j + 1) = t.cost 0 j + p.insertOrAppend n 0 (j + 1) then
      readBack t 0 j ((if n < j + 1 then .append j else .insert j) :: later)
    else none
  | i + 1, 0 =>
    if t.cost (i + 1) 0 = t.cost i 0 + p.delete (i + 1) then
      readBack t i 0 (.delete i :: later)
    else none
  | i + 1, j + 1 =>
    if t.cost (i + 1) (j + 1) = t.cost i j + p.pair (i + 1) (j + 1) then
      readBack t i j (.pair i j :: later)
    else if t.cost (i + 1) (j + 1) = t.cost (i + 1) j + p.insertOrAppend n (i + 1) (j + 1) then
      readBack t (i + 1) j ((if n < j + 1 then .append j else .insert j) :: later)
    else if t.cost (i + 1) (j + 1) = t.cost i (j + 1) + p.delete (i + 1) then
      readBack t i (j + 1) (.delete i :: later)
    else none
termination_by i + j

/-- A cheapest edit script between `n` former and `m` updated elements. -/
def script? : Option (List Step) := readBack p n (table p n m) n m []

/-! ## Scripts over elements -/

/-- One step of an edit script with its elements. A replaced pair carries the difference. -/
inductive Edit (α β ρ : Type) where
  | equal (a : α) (b : β)
  | substitute (a : α) (b : β) (difference : ρ)
  | insert (b : β)
  | append (b : β)
  | delete (a : α)

/-- What the price of a script depends on beside the positions: the difference of a pair, none for
equal elements. -/
structure Tariff (ρ : Type) where
  pair : Option ρ → Int
  insert : Nat → Nat → Int
  delete : Nat → Int

/-- Equal pairs are free, a difference costs three, an insertion and a deletion two each. -/
def Tariff.standard (ρ : Type) : Tariff ρ :=
  ⟨fun difference => if difference.isNone then 0 else 3, fun _ _ => 2, fun _ => 2⟩

/-- The differences of all pairs, row by row. -/
abbrev Differences (ρ : Type) := Array (Array (Option ρ))

/-- The prices of a tariff for given differences. -/
def Tariff.prices {ρ : Type} (t : Tariff ρ) (differences : Differences ρ) : Prices where
  pair i j := t.pair ((differences.getD (i - 1) #[]).getD (j - 1) none)
  insert := t.insert
  delete := t.delete

/-- The elements of a step. -/
def Step.edit? {α β ρ : Type} (a : Array α) (b : Array β) (differences : Differences ρ) :
    Step → Option (Edit α β ρ)
  | .pair i j => do
    let x ← a[i]?
    let y ← b[j]?
    match (differences.getD i #[]).getD j none with
    | none => some (.equal x y)
    | some r => some (.substitute x y r)
  | .insert j => b[j]?.map .insert
  | .append j => b[j]?.map .append
  | .delete i => a[i]?.map .delete

/-- A cheapest edit script between two lists whose differences are known. -/
def edits? {α β ρ : Type} (t : Tariff ρ) (a : List α) (b : List β)
    (differences : List (List (Option ρ))) : Option (List (Edit α β ρ)) := do
  let known : Differences ρ := (differences.map List.toArray).toArray
  let steps ← script? (t.prices known) a.length b.length
  steps.mapM (Step.edit? a.toArray b.toArray known)

/-- A cheapest edit script between two lists, the differences being computed pair by pair. -/
def align? {α β ρ : Type} (t : Tariff ρ) (a : List α) (b : List β) (difference : α → β → Option ρ) :
    Option (List (Edit α β ρ)) :=
  edits? t a b (a.map fun x => b.map (difference x))

end UpgradeSafety.Alignment
