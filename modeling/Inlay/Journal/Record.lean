import Inlay.Journal.Level
import Inlay.Journal.Timestamp
import Inlay.Source.Diagnostic
import Inlay.Value.Display

/-!
# Log Records

What is logged: a message with its level, the moment, the logger that made
it, named values that give context, and possibly an incident, which is
something that went wrong and is reported along with the message.

An incident has a name, and some have a home, the part of the system that
declares them; its full name is used where a person reads it and the plain
one where a program does. Whoever logs may also hand over an ordinary value
in place of an incident. It is then recorded by its type.

## Main definitions

* `Incident`: Something that went wrong.
* `Attachment`: An incident, or a value in place of one.
* `Record`: What is logged.
* `Record.outline?`: A record as plain data.
-/

namespace Inlay

/-- Something that went wrong, as it is reported. -/
structure Incident where
  name : String
  home : String := ""
  message : String := ""
deriving DecidableEq

namespace Incident

/-- The name of an incident with its home in front. -/
def fullName (i : Incident) : String :=
  if i.home.isEmpty then i.name else i.home ++ "." ++ i.name

/-- A source could not be read. -/
def ofDiagnostic (d : Diagnostic) : Incident :=
  { name := "ParseError", home := "splice.engine.errors", message := d.text }

/-- Anything the reader of sources reports. -/
def general (message : String) : Incident :=
  { name := "SpliceError", home := "splice.engine.errors", message }

/-- A setting cannot be used. -/
def ofSettings (message : String) : Incident :=
  { name := "ConfigError", home := "splice.core.config", message }

/-- A key is missing; it is shown between quotes. -/
def ofMissingKey (key? : Option String) : Incident :=
  { name := "KeyError"
    message := match key? with
      | some key => String.ofList (Text.quoted key.toList)
      | none => "" }

/-- An incident as it is shown: its full name, and its message if it has one. -/
def text (i : Incident) : String :=
  if i.message.isEmpty then i.fullName else i.fullName ++ ": " ++ i.message

end Incident

/-- The name of a value's type. -/
def Value.typeName : Value → String
  | null => "NoneType"
  | bool _ => "bool"
  | int _ => "int"
  | float _ => "float"
  | str _ => "str"
  | list _ => "list"
  | object _ => "dict"
  | location _ => "Location"

/-- An incident, or a value in place of one. -/
inductive Attachment where
  | incident (i : Incident)
  | value (v : Value)

namespace Attachment

/-- A value as an attachment, if it counts as anything. -/
def ofValue? (v : Value) : Option Attachment :=
  if v.truthy then some (.value v) else none

/-- The plain name of what is attached. -/
def name : Attachment → String
  | incident i => i.name
  | value v => v.typeName

/-- The message of what is attached, if it can be shown. -/
def message? : Attachment → Option String
  | incident i => some i.message
  | value v => v.display?

end Attachment

/-- What is logged. -/
structure Record where
  level : Level
  message : String
  time : Timestamp
  context : Entries := []
  attached : Option Attachment := none
  logger : String := "splice"

namespace Record

/-- What every record has to tell. -/
def mainMembers (r : Record) : Entries :=
  [("timestamp", .str (String.ofList r.time.iso)), ("level", .str r.level.name),
    ("message", .str r.message), ("logger", .str r.logger)]

/-- What tells the context of a record, if there is any. -/
def contextMember (r : Record) : Entries :=
  if r.context.isEmpty then [] else [("context", .object r.context)]

/-- What tells the attachment of a record, if there is one and it can be
    shown. -/
def attachedMember? (r : Record) : Option Entries :=
  match r.attached with
  | none => some []
  | some a => do
    return [("exception", .object [("type", .str a.name), ("message", .str (← a.message?))])]

/-- A record as plain data, if what is attached can be shown. -/
def outline? (r : Record) : Option Value := do
  return .object (r.mainMembers ++ r.contextMember ++ (← r.attachedMember?))

end Record

end Inlay
