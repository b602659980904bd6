import Inlay.Journal.Record
import Inlay.Problem
import Inlay.Value.Json

/-!
# Layouts

How a record becomes a line of a log. The text layout is for people: moment,
level, message, context as `name=value`, and an incident on lines of its own.
The JSON layout is for programs and puts the whole record on one line.

There is also a layout that lays out nothing. It is a place-holder, and using
it is a problem. So is a number in a record that has too many digits to be
written, whatever the layout.

## Main definitions

* `Layout`: The layouts.
* `Layout.ofName`: The layout that a format name stands for.
* `Layout.render`: A record as text.
-/

namespace Inlay

/-- How a record becomes a line of a log. -/
inductive Layout where
  /-- Text for people, with a pattern for the moment. -/
  | text (dateFormat : String)
  /-- One line of JSON. -/
  | json
  /-- A place-holder that lays out nothing. -/
  | blank
deriving DecidableEq

namespace Layout

/-- The pattern for the moment when none is given. -/
def dateFormat : String := "%Y-%m-%d %H:%M:%S"

/-- The text layout when nothing is said about it. -/
def plain : Layout := text dateFormat

/-- The name of a layout's kind. -/
def kindName : Layout → String
  | text _ => "TextFormatter"
  | json => "JsonFormatter"
  | blank => "LogFormatter"

/-- The layout that a format name stands for, in any mixture of cases. -/
def ofName (name : String) : Except Problem Layout :=
  let lower := Text.lowerCase name
  if lower == "text" then .ok plain
  else if lower == "json" then .ok json
  else .error (.unknownFormat name)

/-- The context of a record behind its message, if it can be shown. -/
def contextText? : List (String × Value) → Option String
  | [] => some ""
  | (name, v) :: rest => do
    let shown ← v.display?
    return " " ++ name ++ "=" ++ shown ++ (← contextText? rest)

/-- What is written, unless a number in it has too many digits. -/
def written {α : Type} : Option α → Except Problem α
  | some a => .ok a
  | none => .error .unwritable

/-- A record as text for people. -/
def textOf (date : String) (r : Record) : Except Problem String := do
  let context ← written (contextText? r.context)
  let line := String.ofList (r.time.format date.toList) ++ " [" ++ r.level.name ++ "] " ++ r.message
    ++ context
  match r.attached with
  | none => return line
  | some (.incident i) => return line ++ "\n" ++ i.text ++ "\n"
  | some (.value _) => .error .noIncident

/-- A record as one line of JSON. -/
def jsonOf (r : Record) : Except Problem String := do
  let data ← written r.outline?
  return String.ofList (← written (Json.render? data))

/-- A record as text. -/
def render (l : Layout) (r : Record) : Except Problem String :=
  match l with
  | text date => textOf date r
  | json => jsonOf r
  | blank => .error .noLayout

end Layout

end Inlay
