import Inlay.Journal.Layout

/-!
# Journals

Loggers and where their records go. A logger has a name, a threshold, a
context that every record of it carries, and handlers, each of which writes
records of some level to some stream in some layout.

Loggers come in families. One that is derived from another shares its
handlers for good: a handler added through any member is there for all, and
handlers taken away are gone for all. A family is therefore kept once, and a
logger refers to it. What is not shared is the threshold, which a derived
logger takes over once, and the context, to which it adds.

Loggers are referred to by number. The registry gives some of them names, so
that asking for a name twice gives the same logger.

## Main definitions

* `Handler`: Where records go.
* `Logger`: A name, a threshold, a context and a family.
* `Journal`: All loggers, families and registered names.
* `Journal.create`, `Journal.derive`, `Journal.addHandler`,
  `Journal.reconfigure`: What can be done with them.
-/

namespace Inlay

/-- Where records go that are important enough. -/
structure Handler where
  stream : String := "stderr"
  layout : Layout := .plain
  level : Level := .debug
deriving DecidableEq

/-- A source of log records. -/
structure Logger where
  name : String := "splice"
  level : Level := .warning
  context : Entries := []
  /-- The number of the family whose handlers it uses. -/
  family : Nat

/-- All loggers, the handlers of their families, and the registered names. -/
structure Journal where
  loggers : List Logger := []
  families : List (List Handler) := []
  registry : List (String × Nat) := []
  /-- Where loggers that are registered from now on write. -/
  stream : Option String := none

namespace Journal

/-- The logger with a number. -/
def logger? (j : Journal) (id : Nat) : Option Logger :=
  j.loggers[id]?

/-- The handlers of a logger. -/
def handlers (j : Journal) (l : Logger) : List Handler :=
  (j.families[l.family]?).getD []

/-- The number of a registered logger. -/
def registered? (j : Journal) (name : String) : Option Nat :=
  (j.registry.find? (·.1 == name)).map (·.2)

/-- The stream for loggers that are registered from now on. -/
def defaultStream (j : Journal) : String :=
  j.stream.getD ({} : Handler).stream

/-- A new logger with a family of its own. -/
def create (j : Journal) (name : String) (level : Level) (handlers : List Handler) :
    Nat × Journal :=
  (j.loggers.length,
    { j with
      loggers := j.loggers ++ [{ name, level, family := j.families.length }]
      families := j.families ++ [handlers] })

/-- A new logger that is registered under its name. -/
def register (j : Journal) (name : String) (level : Level) (handlers : List Handler) :
    Nat × Journal :=
  let (id, j') := j.create name level handlers
  (id, { j' with registry := j'.registry ++ [(name, id)] })

/-- A new logger in the family of another, with more context. -/
def derive (j : Journal) (l : Logger) (context : Entries) : Nat × Journal :=
  let merged := context.foldl (fun entries e => entries.insert e.1 e.2) l.context
  (j.loggers.length, { j with loggers := j.loggers ++ [{ l with context := merged }] })

/-- One more handler for the family of a logger. -/
def addHandler (j : Journal) (l : Logger) (h : Handler) : Journal :=
  { j with families := j.families.modify l.family (· ++ [h]) }

/-- A logger with another threshold and a single handler for its family. -/
def reconfigureOne (level : Level) (h : Handler) (j : Journal) (id : Nat) : Journal :=
  match j.logger? id with
  | none => j
  | some l =>
    { j with
      loggers := j.loggers.set id { l with level }
      families := j.families.set l.family [h] }

/-- Every registered logger with another threshold and a single handler. -/
def reconfigure (j : Journal) (level : Level) (h : Handler) : Journal :=
  (j.registry.map (·.2)).foldl (reconfigureOne level h) j

end Journal

end Inlay
