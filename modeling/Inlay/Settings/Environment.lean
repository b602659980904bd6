import Inlay.Settings.Basic
import Inlay.Value.JsonReader

/-!
# Settings from the Environment

Environment variables as a source of settings. A variable counts if its name
begins with `SPLICE_`; the rest of the name, in lower case and with dots for
underscores, is the name of the setting.

What a variable holds is text, and the text is read as the value it looks
like: a word for yes or no, an integer, a number with a fraction, a list or
an object in JSON, and otherwise itself.

All variables together make one source. They are written into it in the order
of the environment, so one that leads through another, as in `SPLICE_LOG` and
`SPLICE_LOG_LEVEL`, may not fit, and then no source is added.

## Main definitions

* `Environment`: Variables in order.
* `Environment.coerce`: The value that a text looks like.
* `Environment.overrides`: The settings in an environment, by dotted name.
* `Settings.loadEnvironment`: Settings with those of an environment.
-/

namespace Inlay

/-- The variables of a process, in order. -/
abbrev Environment := List (String × String)

namespace Environment

/-- How the names of the variables that count begin. -/
def variablePrefix : List Char := "SPLICE_".toList

/-- The name and the priority of the source made from an environment. -/
def sourceName : String := "env_vars"

@[inherit_doc sourceName]
def sourcePriority : Int := 100

/-- Gives a variable a value, in place if it is there already. -/
def insert : Environment → String → String → Environment
  | [], name, text => [(name, text)]
  | (n, t) :: rest, name, text =>
    if n == name then (name, text) :: rest else (n, t) :: insert rest name text

/-- The variables that result from setting some one after the other. -/
def ofPairs (pairs : List (String × String)) : Environment :=
  pairs.foldl (fun env p => insert env p.1 p.2) []

/-- Whether a process can have a variable. Name and text are kept as one text,
    with an equals sign between them and a null character at its end. -/
def admits (name text : String) : Bool :=
  !(name.toList.any fun c => c = '=' || c = '\x00') && !text.toList.contains '\x00'

/-- The name of the setting that a variable stands for. -/
def settingName? (name : String) : Option String :=
  if variablePrefix.isPrefixOf name.toList then
    let rest := String.ofList (name.toList.drop variablePrefix.length)
    some (String.ofList ((Text.lowerCase rest).toList.map fun c => if c = '_' then '.' else c))
  else none

/-- The value that a text looks like. A list or an object that is malformed
    is a text after all. -/
def coerce (text : String) : Except Misfit Value :=
  let word := Text.lowerCase text
  if ["true", "yes", "1"].contains word then .ok (.bool true)
  else if ["false", "no", "0"].contains word then .ok (.bool false)
  else
    match Numeral.integer? text.toList with
    | some i => .ok (.int i)
    | none =>
      match Numeral.binary64? text.toList with
      | some x => .ok (.float x)
      | none =>
        if text.toList.head?.any fun c => c = '{' || c = '[' then
          match Json.read text.toList with
          | .ok v => .ok v
          | .error .tooManyDigits => .error .tooManyDigits
          | .error .malformed => .ok (.str text)
        else .ok (.str text)

/-- The settings in an environment, by dotted name. -/
def overrides : Environment → Entries → Except Misfit Entries
  | [], found => .ok found
  | (name, text) :: rest, found =>
    match settingName? name with
    | none => overrides rest found
    | some key => do
      let v ← coerce text
      overrides rest (found.insert key v)

/-- Settings by dotted name as nested objects, written onto a base. -/
def unflatten (base : Value) : Entries → Except Misfit Value
  | [] => .ok base
  | (key, v) :: rest => do unflatten (← base.writeKey key v) rest

end Environment

/-- Settings with those of an environment, if it has any. -/
def Settings.loadEnvironment (s : Settings) (env : Environment) : Except Misfit Settings := do
  match ← Environment.overrides env [] with
  | [] => return s
  | found =>
    let data ← Environment.unflatten (.object []) found
    return s.addSource
      { name := Environment.sourceName, data, priority := Environment.sourcePriority }

end Inlay
