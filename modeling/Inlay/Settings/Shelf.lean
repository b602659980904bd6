import Inlay.Settings.Basic

/-!
# Settings That Share Objects

Settings as they are held when nothing that is handed over is copied. An
object is in a place of a heap, and what contains it knows only the place.
Writing along a path of names goes from place to place and changes an object
where it is. Whatever else leads to this place sees the change.

`Settings` holds values, and no value can change inside another one. Both come
to the same as long as no place is led to twice.

## Main definitions

* `Slot`: What stands under a name or in a list.
* `Heap`: Objects in their places.
* `Heap.write`: Writing along a path of names, from place to place.
* `Shelf`: Sources of settings whose objects are in a heap.
* `Shelf.set`: Writing at run time into what a shelf holds.
-/

namespace Inlay

/-- What stands under a name or in a list: a scalar, a list, or an object, of
    which only the place is known. -/
inductive Slot where
  | scalar (v : Value)
  | list (items : List Slot)
  | object (place : Nat)

/-- Named slots in the order in which their names first came. -/
abbrev Fields := List (String × Slot)

/-- Puts a slot under a name, in place if the name is there and at the end if
    it is not. -/
def Fields.put : Fields → String → Slot → Fields
  | [], name, slot => [(name, slot)]
  | (n, s) :: rest, name, slot =>
    if n == name then (name, slot) :: rest else (n, s) :: put rest name slot

/-- Objects by the places they are in. New ones go to the end. -/
abbrev Heap := List Fields

namespace Heap

/-- The object in a place. -/
def fields (heap : Heap) (place : Nat) : Fields :=
  (heap[place]?).getD []

/-- An empty object made at the end, and put under a name of another one. -/
def make (heap : Heap) (place : Nat) (name : String) : Heap :=
  heap.set place ((heap.fields place).put name (.object heap.length)) ++ [[]]

/-- Writing along a path of names. A missing object is made before anything is
    written into it. -/
def write : Heap → Slot → String → List String → Slot → Heap × Option Misfit
  | heap, .object place, name, [], new =>
    (heap.set place ((heap.fields place).put name new), none)
  | heap, .object place, name, next :: path, new =>
    match (heap.fields place).lookup name with
    | some slot => heap.write slot next path new
    | none => (heap.make place name).write (.object heap.length) next path new
  | heap, _, _, [], _ => (heap, some .noEntries)
  | heap, _, _, _ :: _, _ => (heap, some .noObject)

/-- Writing under a dotted name. -/
def writeKey (heap : Heap) (slot : Slot) (key : String) (new : Slot) : Heap × Option Misfit :=
  match keyParts key with
  | [] => (heap, none)
  | name :: path => heap.write slot name path new

end Heap

/-- A source of settings whose object is in a heap. -/
structure Shelved where
  name : String
  data : Slot
  priority : Int := 0

/-- Sources of settings, in the order in which they were added, and the heap
    that their objects are in. -/
structure Shelf where
  heap : Heap := []
  sources : List Shelved := []

namespace Shelf

/-- Writing into the first source that holds what is set at run time. If there
    is none, it is made at the end. -/
def writeRuntime (key : String) (new : Slot) (heap : Heap) : List Shelved → Shelf × Option Misfit
  | [] =>
    let r := Heap.writeKey (heap ++ [[]]) (.object heap.length) key new
    let source : Shelved :=
      { name := Settings.runtimeName, data := .object heap.length,
        priority := Settings.runtimePriority }
    ({ heap := r.1, sources := [source] }, r.2)
  | source :: rest =>
    if source.name == Settings.runtimeName then
      let r := heap.writeKey source.data key new
      ({ heap := r.1, sources := source :: rest }, r.2)
    else
      let r := writeRuntime key new heap rest
      ({ r.1 with sources := source :: r.1.sources }, r.2)

/-- Writing at run time into what a shelf holds. -/
def set (shelf : Shelf) (key : String) (new : Slot) : Shelf × Option Misfit :=
  writeRuntime key new shelf.heap shelf.sources

end Shelf

end Inlay
