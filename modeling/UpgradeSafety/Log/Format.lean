import UpgradeSafety.Json.Printer
import UpgradeSafety.Log.Record
import UpgradeSafety.Settings

/-!
# Written log records

Records are written as lines for a terminal, with the level in color and the network in front of the
message, or as JSON objects for automation.
-/

namespace UpgradeSafety.Log

/-- The two forms of written records. -/
inductive Format where
  | terminal
  | structured
  deriving DecidableEq, Repr

/-- The form used at a stage. -/
def Format.ofStage : Stage → Format
  | .development => .terminal
  | .staging | .production => .structured

/-- A moment by its day and its time of the day. -/
structure Clock where
  /-- Hours, minutes and seconds. -/
  time : String
  /-- Day, time and fraction, in the coordinated universal time. -/
  timestamp : String
  deriving DecidableEq, Repr

/-- The context that is written, in this order. -/
def shownContext : List String := ["network", "manifest_file", "contract", "version", "duration_ms"]

/-- The text of an error: missing keys are quoted. -/
def Trouble.text (t : Trouble) : String :=
  if t.type == "KeyError" then Text.quote t.message else t.message

/-- An error as its type and text. -/
def Trouble.line (t : Trouble) : String :=
  if t.text.isEmpty then t.type else t.type ++ ": " ++ t.text

/-- The color of a level, by its name. -/
def levelColor : Json → String
  | .str name =>
    (([("DEBUG", "\x1b[36m"), ("INFO", "\x1b[32m"), ("WARNING", "\x1b[33m"),
      ("ERROR", "\x1b[31m"), ("CRITICAL", "\x1b[35m")] :
        List (String × String)).lookup name).getD ""
  | _ => ""

/-- A text aligned to the right. -/
def padLeft (width : Nat) (s : String) : String :=
  String.ofList (List.replicate (width - s.length) ' ') ++ s

/-- The name of a level in a column of its own. Only a text can be aligned. -/
def levelColumn : Json → Except Failure String
  | .str name => .ok (padLeft 8 name)
  | .int _ => .error (.badValue (.manner 's' "int"))
  | .bool _ => .error (.badValue (.manner 's' "bool"))
  | .float _ => .error (.badValue (.manner 's' "float"))
  | _ => .error (.fault .wrongSort)

/-- An error as a value of the context, which is no error that can be told: it fails, unless it does
not count or its second element does not. `isTold` says that its type and text are told before its
course. -/
def strayTrouble (isTold : Bool) : Json → Except Failure Unit
  | .obj (_ :: _) => .error (.fault .missingField)
  | .str s =>
    let n := s.length
    if n = 0 then .ok ()
    else if n = 1 || (n = 2 && !isTold) then .error (.fault .outOfRange)
    else .error (.fault .notAnObject)
  | .arr [] => .ok ()
  | .arr (type :: value :: rest) => do
    if value.truthy then
      if isTold then
        if type.truthy then throw (.fault .notAnObject)
        let _ ← value.shown
      throw (.fault (if rest.isEmpty then .outOfRange else .notAnObject))
  | .arr _ => .error (.fault .outOfRange)
  | v => if v.truthy then .error (.fault .wrongSort) else .ok ()

/-- The error that a record tells of. -/
def Record.troubleTold (isTold : Bool) (r : Record) : Except Failure (Option Trouble) :=
  match r.entry? "exc_info" with
  | some v => (strayTrouble isTold v).map fun _ => none
  | none => .ok r.trouble

/-- A record as a line for a terminal. -/
def Record.terminalLine (clock : Clock) (r : Record) : Except Failure String := do
  let column ← levelColumn r.label
  let message ← r.text
  let network ← match r.network? with
    | some v => (v.shown).map fun s => "[" ++ s ++ "] "
    | none => pure ""
  let teller ← r.teller.shown
  let trouble := match ← r.troubleTold false with
    | some t => "\n" ++ t.line
    | none => ""
  return levelColor r.label ++ clock.time ++ " [" ++ column ++ "]\x1b[0m " ++ teller ++ ": " ++
    network ++ message ++ trouble

/-- A record as an object. -/
def Record.toJson (clock : Clock) (r : Record) : Except Failure Json := do
  let message ← r.text
  let trouble := match ← r.troubleTold true with
    | some t =>
      [("exception", Json.obj [("type", .str t.type), ("message", .str t.text),
        ("traceback", .str t.line)])]
    | none => []
  return .obj <|
    [("timestamp", .str clock.timestamp), ("level", r.label), ("logger", r.teller),
      ("message", .str message)] ++
    (if r.isPlaced then r.place else []) ++ trouble ++
    shownContext.filterMap fun name => (r.entry? name).map fun v => (name, v)

/-- A written record. -/
def Format.write (f : Format) (clock : Clock) (r : Record) : Except Failure String :=
  match f with
  | terminal => r.terminalLine clock
  | structured => do return (← (← r.toJson clock).writable).write

/-- How records are written: those below the level are dropped. -/
structure Setup where
  format : Format
  level : Level
  deriving DecidableEq, Repr

/-- What the name of a level may stand for. -/
inductive LevelName where
  | level (n : Level)
  /-- A text that is no name of a level. -/
  | template (s : String)
  /-- A table. -/
  | styles

/-- A letter in upper case; the letters that have none within ASCII stay as they are. -/
def upperChar (c : Char) : List Char :=
  match c with
  | 'ß' => ['S', 'S']
  | 'ı' => ['I']
  | 'ſ' => ['S']
  | 'ﬀ' => ['F', 'F']
  | 'ﬁ' => ['F', 'I']
  | 'ﬂ' => ['F', 'L']
  | 'ﬃ' => ['F', 'F', 'I']
  | 'ﬄ' => ['F', 'F', 'L']
  | 'ﬅ' | 'ﬆ' => ['S', 'T']
  | c => [c.toUpper]

/-- What a name in any letter case stands for: a level, or one of the two other words that are
reserved. Unknown names mean the level of information. -/
def LevelName.ofText (name : String) : LevelName :=
  let upper := String.ofList (name.toList.flatMap upperChar)
  match ([("CRITICAL", 50), ("FATAL", 50), ("ERROR", 40), ("WARNING", 30), ("WARN", 30),
    ("INFO", 20), ("DEBUG", 10), ("NOTSET", 0)] : List (String × Level)).lookup upper with
  | some n => level n
  | none =>
    if upper == "BASIC_FORMAT" then template "%(levelname)s:%(name)s:%(message)s"
    else if upper == "_STYLES" then styles
    else level 20

/-- How records are written at a stage, which may be unknown, with the name of a level. -/
def Setup.of (stage level : String) : Except Failure Setup :=
  let format : Format :=
    if stage == "staging" || stage == "production" then .structured else .terminal
  match LevelName.ofText level with
  | .level n => .ok ⟨format, n⟩
  | .template s => .error (.badValue (.logLevel (Text.quote s)))
  | .styles => .error (.fault .wrongSort)

/-- The name of the module that a path leads to: the last part without its ending. -/
def moduleOfPath (path : String) : String :=
  let file := ((path.splitOn "/").getLast?).getD ""
  match (file.splitOn ".").reverse with
  | _ :: stem :: rest =>
    let name := ".".intercalate ((stem :: rest).reverse)
    -- leading points do not begin an ending
    if (name.toList.all (· == '.')) then file else name
  | _ => file

end UpgradeSafety.Log
