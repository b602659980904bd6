import Inlay.Value.Display

/-!
# JSON Text

A value as one line of JSON. Every character outside the visible ASCII range
is written as an escape, those above the first plane as a pair of surrogates,
so that a line of JSON never contains a line break and can be cut out of any
stream again. Numbers that JSON cannot write have names of their own. A value
in which an integer has too many digits is not written at all.

## Main definitions

* `Json.escaped`: How a character is written inside a JSON string.
* `Json.string`: A text as a JSON string.
* `Json.spelled`: A value as JSON, whatever its integers are.
* `Json.render?`: A value as JSON, if it can be written.
-/

namespace Inlay

namespace Json

/-- An escape by a 16-bit unit. -/
def unit (n : Nat) : List Char :=
  '\\' :: 'u' :: Text.hex 4 n

/-- How a character is written inside a JSON string. -/
def escaped (c : Char) : List Char :=
  if c = '"' || c = '\\' then ['\\', c]
  else if c = '\n' then ['\\', 'n']
  else if c = '\r' then ['\\', 'r']
  else if c = '\t' then ['\\', 't']
  else if c = Char.ofNat 0x0C then ['\\', 'f']
  else if c = Char.ofNat 0x08 then ['\\', 'b']
  else if 0x20 ≤ c.toNat && c.toNat < 0x7F then [c]
  else if c.toNat < 0x10000 then unit c.toNat
  else
    let n := c.toNat - 0x10000
    unit (0xD800 + n / 0x400) ++ unit (0xDC00 + n % 0x400)

/-- A text as a JSON string. -/
def string (s : List Char) : List Char :=
  '"' :: s.flatMap escaped ++ ['"']

/-- A double-precision number as JSON, with names for what JSON lacks. -/
def number : Binary64 → List Char
  | .nan => "NaN".toList
  | .infinite negative => Binary64.signText negative ++ "Infinity".toList
  | x => x.text

mutual

/-- A value as JSON, however many digits its integers have. What JSON has no
    form for is written as a string of how it is shown. -/
def spelled : Value → List Char
  | .null => "null".toList
  | .bool true => "true".toList
  | .bool false => "false".toList
  | .int i => (toString i).toList
  | .float x => number x
  | .str s => string s.toList
  | .list items => '[' :: joined [',', ' '] (spelledItems items) ++ [']']
  | .object entries => '{' :: joined [',', ' '] (spelledEntries entries) ++ ['}']
  | .location loc => string loc.display.toList

/-- Each item of a list as JSON. -/
def spelledItems : List Value → List (List Char)
  | [] => []
  | v :: rest => spelled v :: spelledItems rest

/-- Each entry of an object as JSON. -/
def spelledEntries : List (String × Value) → List (List Char)
  | [] => []
  | (name, v) :: rest => (string name.toList ++ ':' :: ' ' :: spelled v) :: spelledEntries rest

end

/-- A value as JSON, if its integers can be written. -/
def render? (v : Value) : Option (List Char) :=
  if v.writable then some (spelled v) else none

end Json

end Inlay
