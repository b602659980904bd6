import Inlay.Text.LowerCase
import Inlay.Value.Display

/-!
# Settings

Values by dotted name, collected from several sources. Each source holds an
object and a priority. Reading a setting looks at all sources laid over each
other, the lowest priority first, so that a higher one wins; sources of equal
priority are laid in the order in which they came. Objects are laid over each
other entry by entry, and anything else replaces what was there.

Laying the sources over each other is work, so what it comes to is kept from
one reading to the next. Whatever adds a source or changes one lets go of it,
and the next reading does the work again.

A value set at run time goes into a source of its own, above all others. On
the way to the last part of its name every part has to be an object or be
absent, and a failed attempt changes nothing. The two misfits are told apart
because they are noticed at different steps: an object that should hold the
value itself, or one that should hold another object.

Data is a value here. An object that is handed over, as a source or as what is
set, is taken to have one place only: nobody else holds it, no other name leads
to it, and whoever writes into it changes nothing else. What happens to objects
that are shared is what `Shelf` is for.

## Main definitions

* `Source`, `Settings`: Sources with priorities.
* `Misfit`: Why a setting cannot be written or read.
* `overlay`: One object laid over another.
* `Settings.merged`: All sources laid over each other.
* `Settings.keep`: Keeping that for the next reading.
* `Settings.get?`: The value of a dotted name.
* `Settings.set`: Writing a value at run time.
-/

namespace Inlay

/-- An object of settings with a name and a priority. -/
structure Source where
  name : String
  data : Value := .object []
  priority : Int := 0

/-- Why a setting cannot be written or read. -/
inductive Misfit where
  /-- A value was to be put into something that is no object. -/
  | noEntries
  /-- A name leads on through something that is no object, or a source is
      none. -/
  | noObject
  /-- A number has too many digits. -/
  | tooManyDigits
deriving DecidableEq

/-- The parts of a text between the occurrences of a separator. -/
def splitParts (separator : Char) : List Char → List (List Char)
  | [] => [[]]
  | c :: rest =>
    match splitParts separator rest with
    | [] => [[c]]
    | part :: parts => if c = separator then [] :: part :: parts else (c :: part) :: parts

/-- The parts of a dotted name. -/
def keyParts (key : String) : List String :=
  (splitParts '.' key.toList).map String.ofList

namespace Value

/-- The value that a path of names leads to. -/
def lookup? : Value → List String → Option Value
  | v, [] => some v
  | .object entries, name :: path =>
    match Entries.get? entries name with
    | some v => v.lookup? path
    | none => none
  | _, _ :: _ => none

/-- A value with another one written at the end of a path of names. Objects
    that are missing on the way are made. -/
def write : Value → String → List String → Value → Except Misfit Value
  | .object entries, name, [], new => .ok (.object (Entries.insert entries name new))
  | .object entries, name, next :: path, new => do
    let inner ← ((Entries.get? entries name).getD (.object [])).write next path new
    return .object (Entries.insert entries name inner)
  | _, _, [], _ => .error .noEntries
  | _, _, _ :: _, _ => .error .noObject

/-- A value with another one written under a dotted name. -/
def writeKey (v : Value) (key : String) (new : Value) : Except Misfit Value :=
  match keyParts key with
  | [] => .ok v
  | name :: path => v.write name path new

end Value

mutual

/-- A value laid over what a name held before. -/
def overlayValue (old : Option Value) : Value → Value
  | .object entries =>
    match old with
    | some (.object base) => .object (overlay base entries)
    | _ => .object (overlay [] entries)
  | v => v

/-- One object laid over another. -/
def overlay (base : Entries) : List (String × Value) → Entries
  | [] => base
  | (name, v) :: rest => overlay (base.insert name (overlayValue (base.get? name) v)) rest

end

/-- Sources of settings, in the order in which they were added. -/
structure Settings where
  sources : List Source := []
  /-- What the sources came to when they were last read, if none has been added
      or changed since. -/
  kept : Option Entries := none

namespace Settings

/-- What holds when nothing else is said. -/
def defaultData : Value :=
  .object
    [("parser", .object [("jsx", .bool false)]),
     ("log", .object [("level", .str "WARNING"), ("format", .str "text")])]

/-- The name of the source of defaults. -/
def defaultsName : String := "defaults"

/-- The name and the priority of the source of values set at run time. -/
def runtimeName : String := "runtime"

@[inherit_doc runtimeName]
def runtimePriority : Int := 1000

/-- Settings that hold the defaults. -/
def defaults : Settings :=
  { sources := [{ name := defaultsName, data := defaultData }] }

/-- Settings with one more source. -/
def addSource (s : Settings) (source : Source) : Settings :=
  { sources := s.sources ++ [source], kept := none }

/-- The sources from the lowest priority to the highest. -/
def ranked (s : Settings) : List Source :=
  s.sources.mergeSort fun a b => a.priority ≤ b.priority

/-- Some sources laid over each other, onto a base. -/
def overlayAll (base : Entries) : List Source → Except Misfit Entries
  | [] => .ok base
  | source :: rest =>
    match source.data with
    | .object entries => overlayAll (overlay base entries) rest
    | _ => .error .noObject

/-- All sources laid over each other, as kept or else from the sources. -/
def merged (s : Settings) : Except Misfit Entries :=
  match s.kept with
  | some entries => .ok entries
  | none => overlayAll [] s.ranked

/-- Settings that keep what their sources come to. Every reading does this
    first. -/
def keep (s : Settings) : Except Misfit Settings := do
  return { s with kept := some (← s.merged) }

/-- The value of a dotted name, if it has one. -/
def get? (s : Settings) (key : String) : Except Misfit (Option Value) := do
  return (Value.object (← s.merged)).lookup? (keyParts key)

/-- The value of a dotted name, or a default. -/
def get (s : Settings) (key : String) (default : Value := .null) : Except Misfit Value := do
  return (← s.get? key).getD default

/-- Whether a dotted name has a value other than null. -/
def has (s : Settings) (key : String) : Except Misfit Bool := do
  match ← s.get key with
  | .null => return false
  | _ => return true

/-- Whether a value is a yes, where a text is one only if it says so. -/
def isYes : Value → Bool
  | .str text => ["true", "yes", "1"].contains (Text.lowerCase text)
  | v => v.truthy

/-- The value of a dotted name as a yes or no. -/
def getBool (s : Settings) (key : String) (default : Value := .bool false) :
    Except Misfit Bool := do
  return isYes (← s.get key default)

/-- A value as a text. -/
def textOf (v : Value) : Except Misfit String :=
  match v.display? with
  | some text => .ok text
  | none => .error .tooManyDigits

/-- The value of a dotted name as a text. The default is handed over as it is
    in place of null. -/
def getText (s : Settings) (key : String) (default : Value := .str "") :
    Except Misfit Value := do
  match ← s.get key default with
  | .null => return default
  | v => return .str (← textOf v)

/-- Some sources with a value written into the first that holds what is set at
    run time, or nothing if there is none. -/
def writeRuntime (key : String) (new : Value) : List Source → Option (Except Misfit (List Source))
  | [] => none
  | source :: rest =>
    if source.name == runtimeName then
      some ((source.data.writeKey key new).map fun data => { source with data } :: rest)
    else (writeRuntime key new rest).map fun r => r.map (source :: ·)

/-- Settings with a value set at run time. -/
def set (s : Settings) (key : String) (new : Value) : Except Misfit Settings :=
  match writeRuntime key new s.sources with
  | some r => r.map fun sources => { sources, kept := none }
  | none => do
    let data ← (Value.object []).writeKey key new
    return s.addSource { name := runtimeName, data, priority := runtimePriority }

end Settings

end Inlay
