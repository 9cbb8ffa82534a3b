/-!
# Checked values and their problems

A record that is read from JSON is checked as a whole: every problem is listed with the path to the
value that has it, in the order of the record's fields.

The outcome of checking a value: the value, or all of its problems. Checks of several parts are
combined so that no part's problems hide another's; the problems of the left part come first.
-/

namespace UpgradeSafety.Schema

/-- One step of a path into a JSON value. -/
inductive Step where
  | field (name : String)
  | index (i : Nat)
  deriving DecidableEq, Repr

/-- What is wrong with a value. -/
inductive ProblemKind where
  | missing
  | notText
  | notWhole
  | notList
  | notTable
  | notFlag
  | notRecord
  | fractional
  | notFinite
  | wholeSyntax
  /-- More digits than a whole number may have. -/
  | wholeSize
  | flagSyntax
  | numberSyntax
  /-- The value breaks a rule of its own; the text says which. -/
  | rule (message : String)
  | notListedKind
  | notListedWord
  deriving DecidableEq, Repr

/-- The code under which a problem is reported. -/
def ProblemKind.code : ProblemKind → String
  | missing => "missing"
  | notText => "string_type"
  | notWhole => "int_type"
  | notList => "list_type"
  | notTable => "dict_type"
  | notFlag => "bool_type"
  | notRecord => "model_type"
  | fractional => "int_from_float"
  | notFinite => "finite_number"
  | wholeSyntax => "int_parsing"
  | wholeSize => "int_parsing_size"
  | flagSyntax => "bool_parsing"
  | numberSyntax => "float_parsing"
  | rule _ => "value_error"
  | notListedKind => "enum"
  | notListedWord => "literal_error"

/-- A problem at a place. -/
structure Problem where
  path : List Step
  kind : ProblemKind
  deriving DecidableEq, Repr

/-- The same problem seen from an enclosing value. -/
def Problem.under (step : Step) (p : Problem) : Problem := { p with path := step :: p.path }

/-- A value that passed its checks, or the problems found. -/
inductive Checked (α : Type) where
  | valid (a : α)
  | invalid (problems : List Problem)
  deriving Repr

namespace Checked

variable {α β : Type}

/-- Applies a function to a checked value. -/
def map (f : α → β) : Checked α → Checked β
  | valid a => valid (f a)
  | invalid ps => invalid ps

/-- Both checks are made; the problems of the first come first. -/
def combine (f : Checked (α → β)) (x : Unit → Checked α) : Checked β :=
  match f, x () with
  | valid f, valid a => valid (f a)
  | valid _, invalid ps => invalid ps
  | invalid ps, valid _ => invalid ps
  | invalid ps, invalid qs => invalid (ps ++ qs)

instance : Applicative Checked where
  pure := valid
  map := map
  seq := combine

/-- A single problem at the value itself. -/
def fail (kind : ProblemKind) : Checked α := invalid [⟨[], kind⟩]

/-- A check that depends on the value of an earlier one. -/
def andThen (x : Checked α) (f : α → Checked β) : Checked β :=
  match x with
  | valid a => f a
  | invalid ps => invalid ps

/-- The problems seen from an enclosing value. -/
def under (step : Step) : Checked α → Checked α
  | valid a => valid a
  | invalid ps => invalid (ps.map (·.under step))

/-- Checks every element, numbered from `i`. -/
def allFrom (check : α → Checked β) (i : Nat) : List α → Checked (List β)
  | [] => valid []
  | a :: as =>
    match (check a).under (.index i), allFrom check (i + 1) as with
    | valid b, valid bs => valid (b :: bs)
    | valid _, invalid ps => invalid ps
    | invalid ps, valid _ => invalid ps
    | invalid ps, invalid qs => invalid (ps ++ qs)

/-- Checks the values of a table under their names. -/
def allNamed (check : α → Checked β) : List (String × α) → Checked (List (String × β))
  | [] => valid []
  | (k, a) :: rest =>
    match (check a).under (.field k), allNamed check rest with
    | valid b, valid bs => valid ((k, b) :: bs)
    | valid _, invalid ps => invalid ps
    | invalid ps, valid _ => invalid ps
    | invalid ps, invalid qs => invalid (ps ++ qs)

end Checked

end UpgradeSafety.Schema
