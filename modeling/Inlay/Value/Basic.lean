import Inlay.Source.Location
import Inlay.Value.Binary64

/-!
# Values

The data that settings hold and log records carry: scalars, lists, and
objects with named entries. The entries of an object keep the order in which
their names first came, and a name occurs once; writing to a name that is
there already changes its value in place.

## Main definitions

* `Value`: Data of any shape.
* `Entries`: Named values in order.
* `Entries.get?`, `Entries.insert`: Reading and writing one of them.
* `Value.truthy`: Whether a value counts as a yes.
-/

namespace Inlay

/-- Data of any shape. -/
inductive Value where
  | null
  | bool (b : Bool)
  | int (i : Int)
  | float (x : Binary64)
  | str (s : String)
  | list (items : List Value)
  | object (entries : List (String × Value))
  | location (loc : Location)

/-- Named values in the order in which their names first came. -/
abbrev Entries := List (String × Value)

namespace Entries

/-- The value of a name. -/
def get? (entries : Entries) (name : String) : Option Value :=
  (entries.find? (·.1 == name)).map (·.2)

/-- Gives a name a value, in place if the name is there and at the end if it
    is not. -/
def insert : Entries → String → Value → Entries
  | [], name, value => [(name, value)]
  | (n, v) :: rest, name, value =>
    if n == name then (name, value) :: rest else (n, v) :: insert rest name value

/-- The entries that result from writing some pairs one after the other: a
    repeated name keeps its first place and its last value. -/
def ofPairs (pairs : List (String × Value)) : Entries :=
  pairs.foldl (fun entries p => entries.insert p.1 p.2) []

end Entries

namespace Value

/-- Whether a value counts as a yes: all do but zero and what is empty. -/
def truthy : Value → Bool
  | null => false
  | bool b => b
  | int i => i != 0
  | float x => !x.isZero
  | str s => !s.isEmpty
  | list items => !items.isEmpty
  | object entries => !entries.isEmpty
  | location _ => true

end Value

end Inlay
