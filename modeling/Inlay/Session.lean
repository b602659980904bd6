import Inlay.Grammar.Parser
import Inlay.Journal.Basic
import Inlay.Settings.Environment

/-!
# Sessions

Settings, logging and reading sources, put together. A session holds what
they share: the environment of the process, the settings that everybody uses
unless others are given, and the journal. Reading a source in a session logs
that it started and how it ended.

Operations are computations on a session that may stop with a problem. What
has been changed and written up to then stays. Logging is no exception: a
record that cannot be laid out, or a stream that refuses a line, stops the
operation that logs. Time is part of the session and is never read from a
clock.

The shared settings are made at first use. They exist, with the defaults
alone, before the environment is read into them; if the environment does not
fit, the first use is a problem and later ones find the defaults.

## Main definitions

* `Session`: The shared state.
* `Act`: Operations on it.
* `Session.sharedSettings`, `Session.consultedSettings`: The settings that
  everybody uses.
* `Session.getLogger`, `Session.configureLogging`, `Session.log`: Logging.
* `Session.parse`, `Session.parseSource`: Reading fragments and sources.
-/

namespace Inlay

/-- What settings, logging and reading share. -/
structure Session where
  environment : Environment := []
  settings : Option Settings := none
  journal : Journal := {}
  /-- The moment that records are given. -/
  now : Timestamp
  /-- What has been written, with the stream it was written to. -/
  written : List (String × String) := []
  /-- Whether a stream refuses a text: any text if it is closed, or one that its
      encoding lacks. -/
  refuses : String → String → Bool := fun _ _ => false

/-- Operations on a session. -/
abbrev Act := EStateM Problem Session

namespace Session

/-! ### Settings -/

/-- A step on settings as an operation of a session. -/
def ofSettings {α : Type} (r : Except Misfit α) : Act α :=
  match r with
  | .ok a => pure a
  | .error m => throw (.misfit m)

/-- A step of logging as an operation of a session. -/
def ofJournal {α : Type} (r : Except Problem α) : Act α :=
  match r with
  | .ok a => pure a
  | .error p => throw p

/-- The settings that everybody uses unless others are given. -/
def sharedSettings : Act Settings := do
  match (← get).settings with
  | some s => return s
  | none =>
    modify fun w => { w with settings := some Settings.defaults }
    let s ← ofSettings (Settings.defaults.loadEnvironment (← get).environment)
    modify fun w => { w with settings := some s }
    return s

/-- Changes the shared settings. -/
def updateSettings (f : Settings → Except Misfit Settings) : Act Unit := do
  let s ← ofSettings (f (← sharedSettings))
  modify fun w => { w with settings := some s }

/-- The shared settings for reading. They keep what their sources come to. -/
def consultedSettings : Act Settings := do
  updateSettings Settings.keep
  sharedSettings

/-- Drops the shared settings, so that the next use makes them anew. -/
def resetSettings : Act Unit :=
  modify fun w => { w with settings := none }

/-- Sets variables of the process one after the other. The first that no
    process can have stops this. -/
def setVariables : List (String × String) → Act Unit
  | [] => pure ()
  | (name, text) :: rest => do
    if Environment.admits name text then
      modify fun w => { w with environment := w.environment.insert name text }
      setVariables rest
    else throw (.illegalVariable name)

/-- Replaces the variables of the process. -/
def setEnvironment (pairs : List (String × String)) : Act Unit := do
  modify fun w => { w with environment := [] }
  setVariables pairs

/-- The value of a setting that has to have one. -/
def require (s : Settings) (key : String) : Act Value := do
  match ← ofSettings (s.get key) with
  | .null => throw (.missing key)
  | v => return v

/-- The value of a setting as a text. -/
def textSetting (s : Settings) (key default : String) : Act String := do
  ofSettings (Settings.textOf (← ofSettings (s.getText key (.str default))))

/-! ### Logging -/

/-- The level with a given name. -/
def levelOfName (name : String) : Act Level :=
  match Level.ofName? name with
  | some l => pure l
  | none => throw (.unknownLevel name)

/-- Changes the journal. -/
def updateJournal {α : Type} (f : Journal → α × Journal) : Act α := do
  let (a, j) := f (← get).journal
  modify fun w => { w with journal := j }
  return a

/-- The logger registered under a name. One that is not registered yet takes
    its level and its layout from the given settings, or from the shared ones. -/
def getLogger (name : String) (settings : Option Settings := none) : Act Nat := do
  match (← get).journal.registered? name with
  | some id => return id
  | none =>
    let s ← match settings with
      | some s => pure s
      | none => consultedSettings
    let level ← levelOfName (← textSetting s "log.level" "WARNING")
    let layout ← ofJournal (Layout.ofName (← textSetting s "log.format" "text"))
    updateJournal fun j => j.register name level [{ stream := j.defaultStream, layout }]

/-- A logger that is not registered. -/
def newLogger (name : String) (level : Level) (handlers : List Handler) : Act Nat :=
  updateJournal (·.create name level handlers)

/-- The names that a context cannot use when a logger is derived. -/
def reservedForDeriving : List String := ["self"]

/-- The names that the context of a record cannot use. -/
def reservedForLogging : List String := ["self", "message", "level"]

/-- Stops if an entry has a reserved name. -/
def checkNames (reserved : List String) (entries : Entries) : Act Unit :=
  match entries.find? fun e => reserved.contains e.1 with
  | some e => throw (.reservedName e.1)
  | none => pure ()

/-- A logger derived from another, with more context. -/
def withContext (id : Nat) (context : Entries) : Act Nat := do
  checkNames reservedForDeriving context
  match (← get).journal.logger? id with
  | some l => updateJournal (·.derive l context)
  | none => return id

/-- One more handler for a logger and its family. -/
def addHandler (id : Nat) (h : Handler) : Act Unit := do
  match (← get).journal.logger? id with
  | some l => updateJournal fun j => ((), j.addHandler l h)
  | none => pure ()

/-- Writes a text to a stream, all of it or nothing. -/
def write (stream text : String) : Act Unit := do
  if (← get).refuses stream text then throw (.refusedWrite stream)
  else modify fun w => { w with written := w.written ++ [(stream, text)] }

/-- Writes a record through each handler whose level it passes. One that cannot
    lay it out, or whose stream refuses it, is the last that is tried. -/
def deliver (r : Record) : List Handler → Act Unit
  | [] => pure ()
  | h :: rest => do
    if r.level.passes h.level then
      write h.stream ((← ofJournal (h.layout.render r)) ++ "\n")
    deliver r rest

/-- Logs a message, with context and possibly something attached. -/
def log (id : Nat) (level : Level) (message : String) (context : Entries := [])
    (attached : Option Attachment := none) : Act Unit := do
  checkNames reservedForLogging context
  match (← get).journal.logger? id with
  | none => pure ()
  | some l =>
    if level.passes l.level then
      let merged := context.foldl (fun entries e => entries.insert e.1 e.2) l.context
      let record : Record :=
        { level, message, time := (← get).now, context := merged, attached, logger := l.name }
      deliver record ((← get).journal.handlers l)

/-- Sets level, layout and stream for every registered logger and for those
    that are registered later. -/
def configureLogging (level : Level := .warning) (format : String := "text")
    (stream : Option String := none) : Act Unit := do
  updateSettings (·.set "log.level" (.str level.name))
  updateSettings (·.set "log.format" (.str format))
  updateJournal fun j => ((), { j with stream })
  let layout ← ofJournal (Layout.ofName format)
  updateJournal fun j => ((), j.reconfigure level { stream := j.defaultStream, layout })

/-! ### Reading -/

/-- Whether settings ask for the brace grammar. -/
def bracesFromSettings (s : Settings) : Act Bool :=
  ofSettings (s.getBool "parser.jsx")

/-- The choice of grammar for a parse: as given, or from the shared settings,
    unless it is overridden. -/
def resolveBraces (given : Option Value) (overrides : Entries) : Act Value := do
  let base ← match given with
    | some v => pure v
    | none => pure (.bool (← bracesFromSettings (← consultedSettings)))
  match overrides.find? (·.1 != "jsx") with
  | some e => throw (.unknownOption e.1)
  | none => return (overrides.get? "jsx").getD base

/-- The grammar that a value chooses. -/
def grammarOf (braces : Value) : Grammar :=
  if braces.truthy then .brace else .sigil

/-- The name under which reading is logged. -/
def parserLogger : String := "splice.parser"

/-- The names that an override cannot use when fragments are read: those of
    what else is given to the parse. -/
def reservedForFragments : List String := ["fragments", "options"]

/-- The names that an override cannot use when a source is read. -/
def reservedForSource : List String := ["source", "options"]

/-- Reads a sequence of fragments as a tree, and logs that. A reserved name
    among the overrides is found before anything else is looked at, other names
    that are no option only after the shared settings. -/
def parse (fragments : List (List Char)) (given : Option Value := none)
    (overrides : Entries := []) : Act Root := do
  checkNames reservedForFragments overrides
  let braces ← resolveBraces given overrides
  let id ← getLogger parserLogger
  let count := (fragments.filter (!·.isEmpty)).length
  log id .debug "parse started" [("fragments", .int count), ("jsx", braces)]
  match Inlay.parse (grammarOf braces) fragments with
  | .ok root =>
    log id .debug "parse finished" [("segments", .int root.segments.length)]
    return root
  | .error d =>
    log id .debug "parse failed"
      [("error", .str d.message), ("line", .int d.loc.line), ("col", .int d.loc.col)]
    throw (.parse d)

/-- Reads a source as a tree, and logs that. It is cut into fragments, so what
    is reserved for these is reserved here too. -/
def parseSource (source : List Char) (given : Option Value := none)
    (overrides : Entries := []) : Act Root := do
  checkNames reservedForSource overrides
  parse ((tokenize source).map Fragment.text) given overrides

end Session

end Inlay
