import UpgradeSafety.Log.Template

/-!
# Log records

A record says what happened, how grave it is, which part of the program tells it, and in which
context. The context is a table of any values; an entry under the name of one of the record's own
attributes takes the place of that attribute.
-/

namespace UpgradeSafety.Log

/-- The gravity of a record as a number; ten steps apart are the named levels. -/
abbrev Level := Int

/-- The named levels. -/
def levelNames : List (Level × String) :=
  [(50, "CRITICAL"), (40, "ERROR"), (30, "WARNING"), (20, "INFO"), (10, "DEBUG"), (0, "NOTSET")]

/-- The name of a level. -/
def levelName (level : Level) : String :=
  (levelNames.lookup level).getD ("Level " ++ toString level)

/-- The place in the program that tells a record. -/
structure Origin where
  /-- The path to the file of the place; empty if the place is unknown. -/
  path : String := ""
  module : String := ""
  function : Option String := none
  line : Int := 0
  deriving DecidableEq, Repr

/-- An error that a record tells of. -/
structure Trouble where
  type : String
  message : String
  deriving DecidableEq, Repr

/-- A log record. The message is a template for the arguments. -/
structure Record where
  level : Level
  logger : String
  message : String
  arguments : Arguments := .inOrder []
  origin : Origin := {}
  context : Fields := []
  trouble : Option Trouble := none

namespace Record

/-- The short form of a record: its level and message. -/
def brief (r : Record) : String := levelName r.level ++ " " ++ r.message

/-- Whether a record is a warning or graver. -/
def isWarning (r : Record) : Bool := 30 ≤ r.level

/-- An entry of the context. -/
def entry? (r : Record) (name : String) : Option Json := r.context.lookup name

/-- The name of the level. -/
def label (r : Record) : Json := (r.entry? "levelname").getD (.str (levelName r.level))

/-- The name of the logger. -/
def teller (r : Record) : Json := (r.entry? "name").getD (.str r.logger)

/-- The message with its arguments. -/
def text (r : Record) : Except Failure String := do
  let template ← ((r.entry? "msg").getD (.str r.message)).shown
  Log.message template (((r.entry? "args").map .single).getD r.arguments)

/-- Whether the place that tells a record is known. -/
def isPlaced (r : Record) : Bool := ((r.entry? "pathname").getD (.str r.origin.path)).truthy

/-- The place that tells a record, as an object. -/
def place (r : Record) : Fields :=
  [("module", (r.entry? "module").getD (.str r.origin.module)),
    ("function", (r.entry? "funcName").getD (Json.ofOption .str r.origin.function)),
    ("line", (r.entry? "lineno").getD (.int r.origin.line))]

/-- The network of a record; empty values do not count. -/
def network? (r : Record) : Option Json := (r.entry? "network").filter Json.truthy

/-- Replaces the network and the manifest file in the context of a record. -/
def stamp (network file : String) (r : Record) : Record :=
  { r with
    context := putField "manifest_file" (.str file) (putField "network" (.str network) r.context) }

end Record

end UpgradeSafety.Log
