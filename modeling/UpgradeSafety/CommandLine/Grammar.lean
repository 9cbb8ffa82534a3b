import UpgradeSafety.Numeral.Integer
import UpgradeSafety.Text.Quoted

/-!
# Grammars of command lines

A command line consists of options, operands and at most one command, which has a grammar of its own
for everything behind it. Options and operands may be mixed. A long option may be shortened as long
as it stays unambiguous, short flags may be written together, and the value of an option may be
attached to it. Behind a double hyphen everything is an operand. A double hyphen in the place of a
value stands for no word at all.
-/

namespace UpgradeSafety.CommandLine

/-- What the value of an option has to be. -/
inductive ValueSort where
  | text
  | integer
  | oneOf (words : List String)
  deriving DecidableEq, Repr

/-- An option. One without a value is a flag. -/
structure OptionSpec where
  names : List String
  value : Option ValueSort := none
  required : Bool := false
  deriving DecidableEq, Repr

/-- A grammar: the name under which it complains, its options and operands, the name of its command
and the commands with their grammars. -/
inductive Grammar where
  | mk (program : String) (options : List OptionSpec) (operands : List String)
      (commandName : String) (commands : List (String × Grammar))

namespace Grammar

/-- The flag that every grammar has. -/
def helpOption : OptionSpec := { names := ["-h", "--help"] }

/-- The name under which a grammar complains. -/
def program : Grammar → String
  | mk p .. => p

/-- The options of a grammar. -/
def options : Grammar → List OptionSpec
  | mk _ os .. => helpOption :: os

/-- The operands of a grammar. -/
def operands : Grammar → List String
  | mk _ _ names .. => names

/-- The name of the command. -/
def commandName : Grammar → String
  | mk _ _ _ name _ => name

/-- The commands with their grammars. -/
def commands : Grammar → List (String × Grammar)
  | mk _ _ _ _ cs => cs

/-- All names of options. -/
def named (g : Grammar) : List (String × OptionSpec) :=
  g.options.flatMap fun o => o.names.map fun name => (name, o)

/-- A short description of what a grammar accepts. -/
def usage (g : Grammar) : String :=
  let option (o : OptionSpec) : String :=
    let shown := (o.names.head?.getD "") ++ (if o.value.isSome then " VALUE" else "")
    if o.required then shown else "[" ++ shown ++ "]"
  let command : List String := if g.commands.isEmpty then []
    else ["\x7b" ++ ",".intercalate (g.commands.map (·.1)) ++ "\x7d ..."]
  let words := [g.program] ++ g.options.map option ++ g.operands ++ command
  "usage: " ++ " ".intercalate words ++ "\n"

end Grammar

/-- The name by which a complaint calls an option. -/
def OptionSpec.title (o : OptionSpec) : String := "/".intercalate o.names

/-- The name by which an option is known. -/
def OptionSpec.key (o : OptionSpec) : String := (o.names.find? fun n => "--".isPrefixOf n).getD ""

/-- Why a command line ends before anything is done. -/
inductive Stop where
  | help (page : String)
  | misuse (program complaint : String)
  deriving DecidableEq, Repr

/-- The value of an option or operand. -/
inductive Argument where
  | present
  /-- A value without a word. -/
  | wordless
  | text (s : String)
  | integer (n : Int)
  deriving DecidableEq, Repr

/-- What a command line gives: options, operands and commands by name, in order. -/
abbrev Given := List (String × Argument)

/-! ## Tokens -/

/-- A word of a command line. -/
inductive Token where
  | value (word : String)
  | hyphens
  /-- An option, which may be unknown, the name it was found under, and the attached value. -/
  | option (word : String) (spec : Option OptionSpec) (name : String) (attached : Option String)
  deriving DecidableEq, Repr

/-- The word itself. -/
def Token.word : Token → String
  | value w => w
  | hyphens => "--"
  | option w .. => w

/-- Whether a word is an option. -/
def Token.isOption : Token → Bool
  | option .. => true
  | _ => false

/-- Whether a word is a value. -/
def Token.isValue : Token → Bool
  | value _ => true
  | _ => false

/-- A word at its first equals sign. -/
def splitEquals (word : String) : Option (String × String) :=
  let cs := word.toList
  match cs.dropWhile (· != '=') with
  | _ :: rest => some (String.ofList (cs.takeWhile (· != '=')), String.ofList rest)
  | [] => none

/-- Whether one text begins another one. -/
def begins (front s : String) : Bool := front.toList.isPrefixOf s.toList

/-- The options that a word may stand for: those that it shortens, or a short option with its value
attached. -/
def candidates (g : Grammar) (word : String) : List (String × OptionSpec × Option String) :=
  if begins "--" word then
    let (front, attached) : String × Option String := match splitEquals word with
      | some (front, value) => (front, some value)
      | none => (word, none)
    (g.named.filter fun (name, _) => begins front name).map fun (name, o) => (name, o, attached)
  else
    let short := String.ofList (word.toList.take 2)
    g.named.filterMap fun (name, o) =>
      if name == short then some (name, o, some (String.ofList (word.toList.drop 2)))
      else if begins word name then some (name, o, none)
      else none

/-- Whether a word is a negative number. -/
def isNegativeNumber (word : String) : Bool :=
  let cs := word.toList
  let cs := if cs.getLast? == some '\n' then cs.dropLast else cs
  match cs with
  | '-' :: rest =>
    let whole := rest.takeWhile Text.isDecimalDigit
    match rest.dropWhile Text.isDecimalDigit with
    | [] => !whole.isEmpty
    | '.' :: fraction => !fraction.isEmpty && fraction.all Text.isDecimalDigit
    | _ => false
  | _ => false

/-- The sort of a word in front of a double hyphen. -/
def tokenOf (g : Grammar) (word : String) : Except Stop Token :=
  if !begins "-" word then .ok (.value word)
  else
    match g.named.lookup word with
    | some o => .ok (.option word (some o) word none)
    | none =>
      if word == "-" then .ok (.value word)
      else
        match (splitEquals word).bind fun (name, value) =>
            (g.named.lookup name).map fun o => (name, o, value) with
        | some (name, o, value) => .ok (.option word (some o) name (some value))
        | none =>
          match candidates g word with
          | [(name, o, attached)] => .ok (.option word (some o) name attached)
          | [] =>
            if isNegativeNumber word || word.toList.contains ' ' then .ok (.value word)
            else .ok (.option word none word none)
          | several =>
            .error (.misuse g.program ("ambiguous option: " ++ word ++ " could match " ++
              ", ".intercalate (several.map (·.1))))

/-- The tokens of a command line. -/
def tokens (g : Grammar) : List String → Except Stop (List Token)
  | [] => .ok []
  | word :: rest =>
    if word == "--" then .ok (.hyphens :: rest.map .value)
    else do return (← tokenOf g word) :: (← tokens g rest)

/-! ## Options -/

/-- A complaint about an argument. -/
def complain {α : Type} (g : Grammar) (title complaint : String) : Except Stop α :=
  .error (.misuse g.program ("argument " ++ title ++ ": " ++ complaint))

/-- The complaint about a word that is not among the allowed ones. -/
def invalidChoice (word : String) (words : List String) : String :=
  "invalid choice: " ++ Text.quote word ++ " (choose from " ++
    ", ".intercalate (words.map Text.quote) ++ ")"

/-- Reads the value of an option. -/
def readValue (g : Grammar) (o : OptionSpec) (sort : ValueSort) (word : String) :
    Except Stop Argument :=
  if word == "--" then .ok .wordless
  else
    match sort with
    | .text => .ok (.text word)
    | .integer =>
      match Numeral.readInteger .ten word with
      | .ok n => .ok (.integer n)
      | .error _ => complain g o.title ("invalid int value: " ++ Text.quote word)
    | .oneOf words =>
      if words.contains word then .ok (.text word)
      else complain g o.title (invalidChoice word words)

/-- An option as it is given: with a value, or as a flag. -/
abbrev Use := OptionSpec × Option String

/-- The flag that follows a short flag in the same word, and what follows it. -/
def flagBehind? (name attached : String) : Option (String × Option String) :=
  match attached.toList with
  | c :: rest =>
    if begins "--" name then none
    else some (String.ofList ['-', c], if rest.isEmpty then none else some (String.ofList rest))
  | [] => none

/-- The flags that are written together with a first one, and the option at their end whose value is
still to come. The first component holds the flags passed so far. -/
def unfold (g : Grammar) : Nat → List Use → OptionSpec → String → Option String →
    Except Stop (List Use × Option OptionSpec)
  | 0, uses, _, _, _ => .ok (uses, none)
  | _ + 1, uses, o, _, none =>
    .ok (if o.value.isSome then (uses, some o) else (uses ++ [(o, none)], none))
  | fuel + 1, uses, o, name, some attached =>
    if o.value.isSome then .ok (uses ++ [(o, some attached)], none)
    else
      match (flagBehind? name attached).bind fun (next, more) =>
          (g.named.lookup next).map fun o' => (next, more, o') with
      | some (next, more, o') => unfold g fuel (uses ++ [(o, none)]) o' next more
      | none => complain g o.title ("ignored explicit argument " ++ Text.quote attached)

/-- Takes up the options that are given. -/
def takeUses (g : Grammar) (uses : List Use) : Except Stop Given :=
  uses.mapM fun (o, word) => do
    if o == Grammar.helpOption then throw (.help g.usage)
    match o.value, word with
    | some sort, some word => return (o.key, ← readValue g o sort word)
    | _, _ => return (o.key, .present)

/-- Takes up an option with the tokens behind it: what is given, and the tokens left. -/
def takeOption (g : Grammar) (o : OptionSpec) (name : String) (attached : Option String)
    (rest : List Token) : Except Stop (Given × List Token) := do
  match ← unfold g ((attached.elim 0 String.length) + 2) [] o name attached with
  | (uses, none) => return (← takeUses g uses, rest)
  | (uses, some o) =>
    match rest with
    | .value word :: rest => return (← takeUses g (uses ++ [(o, some word)]), rest)
    | _ => complain g o.title "expected one argument"

/-! ## Operands and commands -/

/-- Drops double hyphens. -/
def dropHyphens : List Token → List Token
  | .hyphens :: rest => dropHyphens rest
  | rest => rest

/-- The value of an operand. A double hyphen is one only behind another one that belongs to the same
operand. -/
def operandOf (word : String) (behindHyphens : Bool) : Argument :=
  if word == "--" && !behindHyphens then .wordless else .text word

/-- Takes as many operands as stand in front of the next option: what was given, the operands that
are still missing, and the tokens left. -/
def takeOperands : List String → List Token → Given × List String × List Token
  | [], ts => ([], [], ts)
  | name :: names, ts =>
    match dropHyphens ts with
    | .value word :: rest =>
      let (given, missing, left) := takeOperands names (dropHyphens rest)
      ((name, operandOf word (ts.head? == some .hyphens)) :: given, missing, left)
    | _ => ([], name :: names, ts)

/-- Progress in reading a command line. -/
structure State where
  given : Given := []
  /-- Operands that are still missing. -/
  missing : List String
  commandMissing : Bool
  /-- Words that nothing is known about. -/
  extras : List String := []

/-- How the words behind a command are read. -/
abbrev ReadCommand := Grammar → List String → Except Stop (Given × List String)

/-- Takes the command with everything behind it, if it comes next. -/
def takeCommand (read : ReadCommand) (g : Grammar) (s : State) (ts : List Token) :
    Except Stop (Option State) := do
  if !s.commandMissing || !((dropHyphens ts).head?.any Token.isValue) then return none
  match ts.map Token.word with
  | [] => return none
  | word :: rest =>
    match g.commands.lookup word with
    | none => complain g g.commandName (invalidChoice word (g.commands.map (·.1)))
    | some inner =>
      let (given, extras) ← read inner rest
      return some { s with
        given := s.given ++ [(g.commandName, .text word)] ++ given
        extras := s.extras ++ extras
        commandMissing := false }

/-- Takes the operands and the command that come next, with the tokens left. -/
def takeNext (read : ReadCommand) (g : Grammar) (s : State) (ts : List Token) :
    Except Stop (State × List Token) := do
  let (given, missing, left) := takeOperands s.missing ts
  let s := { s with given := s.given ++ given, missing }
  if !missing.isEmpty then return (s, left)
  match ← takeCommand read g s left with
  | some s => return (s, [])
  | none => return (s, left)

/-- Reads tokens. The fuel bounds their number. -/
def readTokens (read : ReadCommand) (g : Grammar) : Nat → State → List Token → Except Stop State
  | 0, s, _ => .ok s
  | fuel + 1, s, ts =>
    if !ts.any Token.isOption then do
      let (s, left) ← takeNext read g s ts
      return { s with extras := s.extras ++ left.map Token.word }
    else
      match ts with
      | .option word spec name attached :: rest =>
        match spec with
        | none => readTokens read g fuel { s with extras := s.extras ++ [word] } rest
        | some o => do
          let (given, rest) ← takeOption g o name attached rest
          readTokens read g fuel { s with given := s.given ++ given } rest
      | _ => do
        let (s, left) ← takeNext read g s ts
        if left.length < ts.length then readTokens read g fuel s left
        else
          let skipped := ts.takeWhile (!·.isOption)
          readTokens read g fuel { s with extras := s.extras ++ skipped.map Token.word }
            (ts.dropWhile (!·.isOption))

/-- The required options and operands that are not given. -/
def lacking (g : Grammar) (s : State) : List String :=
  (g.options.filter fun o => o.required && (s.given.lookup o.key).isNone).map OptionSpec.title ++
    s.missing

/-- Reads the words of a command line as a grammar says. The fuel bounds the depth of commands. -/
def readWords : Nat → ReadCommand
  | 0, _, _ => .ok ([], [])
  | fuel + 1, g, words => do
    let ts ← tokens g words
    let start : State := { missing := g.operands, commandMissing := !g.commands.isEmpty }
    let s ← readTokens (readWords fuel) g (2 * ts.length + 2) start ts
    match lacking g s with
    | [] => return (s.given, s.extras)
    | names =>
      throw (.misuse g.program ("the following arguments are required: " ++ ", ".intercalate names))

/-- Reads a command line, of which nothing may be left over. -/
def Grammar.read (g : Grammar) (words : List String) : Except Stop Given := do
  let (given, extras) ← readWords (words.length + 1) g words
  if extras.isEmpty then return given
  else throw (.misuse g.program ("unrecognized arguments: " ++ " ".intercalate extras))

end UpgradeSafety.CommandLine
