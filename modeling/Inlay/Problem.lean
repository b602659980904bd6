import Inlay.Settings.Basic
import Inlay.Source.Diagnostic

/-!
# Problems

Why an operation of a session does not come to a result. Each problem is told
by its cause; only some of them have a wording of their own, which quotes the
offending name.

## Main definitions

* `Problem`: The causes.
* `Problem.message?`: The wording of those that have one.
-/

namespace Inlay

/-- Why an operation of a session does not come to a result. -/
inductive Problem where
  /-- A source could not be read. -/
  | parse (d : Diagnostic)
  /-- A level was named that does not exist. -/
  | unknownLevel (name : String)
  /-- A format of log lines was named that does not exist. -/
  | unknownFormat (name : String)
  /-- A setting was asked for that has no value. -/
  | missing (key : String)
  /-- Settings could not be written or read. -/
  | misfit (m : Misfit)
  /-- A layout was used that lays out nothing. -/
  | noLayout
  /-- A number was to be written that has too many digits. -/
  | unwritable
  /-- A stream did not accept what was to be written to it. -/
  | refusedWrite (stream : String)
  /-- A value was to be shown as an incident and is none. -/
  | noIncident
  /-- A name was given that is reserved. -/
  | reservedName (name : String)
  /-- An option was named that does not exist. -/
  | unknownOption (name : String)
  /-- A variable was set that no process can have. -/
  | illegalVariable (name : String)

namespace Problem

/-- A name between quotes. -/
def quote (name : String) : String :=
  String.ofList (Text.quoted name.toList)

/-- The wording of a problem, for those that have one. -/
def message? : Problem → Option String
  | parse d => some d.text
  | unknownLevel name => some ("Unknown log level: " ++ quote name)
  | unknownFormat name => some ("Unknown log format: " ++ quote name)
  | missing key => some key
  | misfit _ | noLayout | unwritable | refusedWrite _ | noIncident | reservedName _
  | unknownOption _ | illegalVariable _ => none

end Problem

end Inlay
