/-!
# Fragments

A source is cut into fragments before it is read. A fragment is a non-empty
stretch of text, and there are three kinds:

* the eight markers, such as `<!--` or `/>`, which always stand whole;
* the structural characters, such as `<` or a line break, each on its own;
* runs of anything else, as long as they can be.

A dash may belong to a run, so that a name like `data-id` stays in one piece,
except where it begins `-->`.

Emptiness is excluded by the type: a fragment has a first character. Reading
a fragment therefore always makes progress, and nobody has to carry a proof
of it.

Joining the fragments of a source gives the source back
(`tokenize_text`); nothing is dropped, not even blank space.

## Main definitions

* `Fragment`: A non-empty stretch of source text.
* `Marker.all`: The eight markers.
* `isStructural`: The characters that stand alone.
* `tokenize`: The fragments of a source.

## Theorems

* `tokenize_text`: The fragments of a source join to the source.
-/

namespace Inlay

/-- A non-empty stretch of source text. -/
structure Fragment where
  head : Char
  tail : List Char
deriving DecidableEq

namespace Fragment

/-- The characters of a fragment. -/
def text (f : Fragment) : List Char :=
  f.head :: f.tail

/-- The number of characters, never zero. -/
def length (f : Fragment) : Nat :=
  f.tail.length + 1

/-- A text as a fragment, unless it is empty. -/
def ofText? : List Char → Option Fragment
  | [] => none
  | c :: rest => some ⟨c, rest⟩

@[simp] theorem length_text (f : Fragment) : f.text.length = f.length := by
  simp only [text, length, List.length_cons]

@[simp] theorem text_ne_nil (f : Fragment) : f.text ≠ [] := by
  simp only [text, ne_eq, reduceCtorEq, not_false_eq_true]

theorem length_pos (f : Fragment) : 0 < f.length :=
  Nat.succ_pos _

end Fragment

namespace Marker

/-- Opens a markup comment. -/
def commentOpen : List Char := ['<', '!', '-', '-']

/-- Closes a markup comment. -/
def commentClose : List Char := ['-', '-', '>']

/-- Opens the closing tag of an element. -/
def endOpen : List Char := ['<', '/']

/-- Closes the tag of an element without content. -/
def emptyClose : List Char := ['/', '>']

/-- Begins a comment in code that runs to the end of its line. -/
def lineComment : List Char := ['/', '/']

/-- Opens a comment in code that may span lines. -/
def blockOpen : List Char := ['/', '*']

/-- Closes a comment in code that may span lines. -/
def blockClose : List Char := ['*', '/']

/-- Opens a braced mixin. -/
def spread : List Char := ['{', '.', '.', '.']

/-- The markers, each of which is a fragment of its own wherever it begins.
    No two of them can begin at one place, so their order does not matter. -/
def all : List (List Char) :=
  [commentOpen, commentClose, endOpen, emptyClose, lineComment, blockOpen, blockClose, spread]

/-- The marker that a text begins with, if there is one. -/
def leading? (s : List Char) : Option (List Char) :=
  all.find? (·.isPrefixOf s)

end Marker

/-- The characters that never belong to a run. -/
def structural : List Char :=
  ['<', '>', '/', '"', '\'', '=', '@', '(', ')', '[', ']', '{', '}', '*', '\n']

/-- Whether a character stands alone when it is not part of a marker. -/
def isStructural (c : Char) : Bool :=
  structural.contains c

/-- How many characters a run takes from the start of a text: all up to the
    first structural character or the first `-->`. -/
def runLength : List Char → Nat
  | [] => 0
  | c :: rest =>
    if isStructural c || Marker.commentClose.isPrefixOf (c :: rest) then 0
    else runLength rest + 1

/-- How many characters of `rest` belong to the fragment that begins with `c`. -/
def tailLength (c : Char) (rest : List Char) : Nat :=
  match Marker.leading? (c :: rest) with
  | some marker => marker.length - 1
  | none => if isStructural c then 0 else runLength rest

/-- The fragments of a source, from left to right. -/
def tokenize : List Char → List Fragment
  | [] => []
  | c :: rest =>
    ⟨c, rest.take (tailLength c rest)⟩ :: tokenize (rest.drop (tailLength c rest))
termination_by s => s.length
decreasing_by
  simp only [List.length_drop, List.length_cons]
  omega

/-- The fragments of a source join to the source. -/
theorem tokenize_text (s : List Char) : (tokenize s).flatMap Fragment.text = s := by
  fun_induction tokenize s with
  | case1 => rfl
  | case2 c rest ih =>
    rw [List.flatMap_cons, ih]
    simp only [Fragment.text, List.cons_append, List.take_append_drop]

end Inlay
