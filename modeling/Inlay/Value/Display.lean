import Inlay.Text.Quoted
import Inlay.Value.Basic
import Inlay.Value.Numeral
import Inlay.Value.Shortest

/-!
# Displayed Values

How a value is shown in a line of text. A text stands for itself, and
everything inside a list or an object is shown so that it can be told apart:
texts between quotes, items between brackets, entries between braces.

An integer with too many digits cannot be shown, and neither can anything that
such an integer is part of.

## Main definitions

* `Value.writable`: Whether no integer in a value has too many digits.
* `Value.quoted`: A value as it is shown inside another one.
* `Value.display?`: A value on its own, if it can be shown.
-/

namespace Inlay

/-- How a location is shown. -/
def Location.display (loc : Location) : String :=
  "Location(line=" ++ toString loc.line ++ ", col=" ++ toString loc.col
    ++ ", pos=" ++ toString loc.pos ++ ")"

/-- Texts one after the other with a mark between them. -/
def joined (mark : List Char) : List (List Char) → List Char
  | [] => []
  | [s] => s
  | s :: rest => s ++ mark ++ joined mark rest

namespace Value

mutual

/-- Whether every integer in a value has few enough digits to be written. -/
def writable : Value → Bool
  | int i => Numeral.writable i
  | list items => writableItems items
  | object entries => writableEntries entries
  | location loc =>
    Numeral.writable loc.line && Numeral.writable loc.col && Numeral.writable loc.pos
  | null | bool _ | float _ | str _ => true

/-- Whether this holds of every item of a list. -/
def writableItems : List Value → Bool
  | [] => true
  | v :: rest => v.writable && writableItems rest

/-- Whether this holds of every entry of an object. -/
def writableEntries : List (String × Value) → Bool
  | [] => true
  | (_, v) :: rest => v.writable && writableEntries rest

end

mutual

/-- A value as it is shown inside another one, however many digits its integers
    have. -/
def quoted : Value → List Char
  | null => "None".toList
  | bool true => "True".toList
  | bool false => "False".toList
  | int i => (toString i).toList
  | float x => x.text
  | str s => Text.quoted s.toList
  | list items => '[' :: joined [',', ' '] (quotedItems items) ++ [']']
  | object entries => '{' :: joined [',', ' '] (quotedEntries entries) ++ ['}']
  | location loc => loc.display.toList

/-- Each item of a list as it is shown. -/
def quotedItems : List Value → List (List Char)
  | [] => []
  | v :: rest => quoted v :: quotedItems rest

/-- Each entry of an object as it is shown. -/
def quotedEntries : List (String × Value) → List (List Char)
  | [] => []
  | (name, v) :: rest => (Text.quoted name.toList ++ ':' :: ' ' :: quoted v) :: quotedEntries rest

end

/-- A value on its own, if its integers can be written: a text as it is, and
    anything else as inside another value. -/
def display? : Value → Option String
  | str s => some s
  | v => if v.writable then some (String.ofList v.quoted) else none

end Value

end Inlay
