import Inlay.Source.Fragment
import Inlay.Source.Location
import Inlay.Source.Pattern

/-!
# Cursors

A place in a sequence of fragments. A cursor works at two grains: it can step
past the whole current fragment (`advance`, `take`), or peel a stretch off
its front (`split`), after which the rest of the fragment is the current one.

The cursor holds what is still unread, the current fragment first, and not
the whole sequence with an index into it. What has been read cannot be read
again, so this is all that reading depends on; `index` only counts how many
fragments have been left behind, and goes on counting past the end.

The location follows the text that is passed. A fragment that is exactly a
line break starts a new line, and every other stretch moves along its line,
also a stretch that happens to hold line breaks inside a longer fragment.

## Main definitions

* `Cursor`: Unread fragments, the count of those left behind, the location.
* `Cursor.advance`, `Cursor.take`: Stepping past the current fragment.
* `Cursor.split`: Peeling a stretch off the current fragment.
* `Cursor.skipBlank`: Passing blank space, across fragments.
* `Cursor.takeUntil`: Passing fragments up to one that is wanted.
* `Cursor.size`: The number of characters still unread.
-/

namespace Inlay

/-- The location behind a fragment that stands at `loc`. -/
def Location.past (loc : Location) (f : Fragment) : Location :=
  if f.text = ['\n'] then loc.nextLine else loc.shifted f.length

/-- A place in a sequence of fragments. -/
structure Cursor where
  /-- What is still unread; the first entry may be the rest of a fragment. -/
  unread : List Fragment
  /-- How many fragments have been left behind. -/
  index : Nat := 0
  /-- Where the unread text begins. -/
  loc : Location := {}
deriving DecidableEq

namespace Cursor

/-- The cursor at the start of some texts. Empty ones hold nothing to read
    and are left out. -/
def ofTexts (texts : List (List Char)) : Cursor :=
  { unread := texts.filterMap Fragment.ofText? }

/-- All the text that is still unread. -/
def rest (c : Cursor) : List Char :=
  c.unread.flatMap Fragment.text

/-- The number of characters still unread. -/
def size (c : Cursor) : Nat :=
  c.rest.length

/-- Whether everything has been read. -/
def eof (c : Cursor) : Bool :=
  c.unread.isEmpty

/-- The text of the current fragment, empty at the end. -/
def current (c : Cursor) : List Char :=
  match c.unread with
  | [] => []
  | f :: _ => f.text

/-- Whether the current fragment is exactly one of some texts. -/
def isAt (c : Cursor) (texts : List (List Char)) : Bool :=
  !c.eof && texts.contains c.current

/-- The stretch that a pattern recognises here. -/
def matched? (c : Cursor) (p : Pattern) : Option (List Char) :=
  (p c.current).map c.current.take

/-- Steps past the current fragment. At the end only the count goes on. -/
def advance (c : Cursor) : Cursor :=
  match c.unread with
  | [] => { c with index := c.index + 1 }
  | f :: rest => { unread := rest, index := c.index + 1, loc := c.loc.past f }

/-- Steps past the current fragment and hands it over. -/
def take (c : Cursor) : List Char × Cursor :=
  (c.current, c.advance)

/-- Peels off the stretch that a pattern recognises, which is empty when the
    pattern does not apply. A fragment that is used up is left behind. -/
def split (p : Pattern) (c : Cursor) : List Char × Cursor :=
  match c.unread with
  | [] => ([], c)
  | f :: rest =>
    let peeled := f.text.take ((p f.text).getD 0)
    let loc := c.loc.shifted peeled.length
    match f.text.drop peeled.length with
    | [] => (peeled, { unread := rest, index := c.index + 1, loc })
    | x :: xs => (peeled, { c with unread := ⟨x, xs⟩ :: rest, loc })

/-- Passes line breaks and blank space in front of some fragments, the first
    of which stands at `loc`. -/
def skipBlankFrom : List Fragment → Nat → Location → Cursor
  | [], index, loc => { unread := [], index, loc }
  | f :: rest, index, loc =>
    if f.text = ['\n'] then skipBlankFrom rest (index + 1) loc.nextLine
    else
      match f.text.dropWhile Text.isBlank with
      | [] => skipBlankFrom rest (index + 1) (loc.shifted f.length)
      | x :: xs =>
        let blank := f.text.takeWhile Text.isBlank
        { unread := ⟨x, xs⟩ :: rest, index, loc := loc.shifted blank.length }

/-- Passes line breaks and blank space. -/
def skipBlank (c : Cursor) : Cursor :=
  skipBlankFrom c.unread c.index c.loc

/-- Takes fragments up to the first that is one of `stops`. -/
def takeUntilFrom (stops : List (List Char)) :
    List Fragment → Nat → Location → List Char × Cursor
  | [], index, loc => ([], { unread := [], index, loc })
  | f :: rest, index, loc =>
    if stops.contains f.text then ([], { unread := f :: rest, index, loc })
    else
      let (text, c) := takeUntilFrom stops rest (index + 1) (loc.past f)
      (f.text ++ text, c)

/-- Takes fragments up to the first that is one of `stops`, or to the end. -/
def takeUntil (stops : List (List Char)) (c : Cursor) : List Char × Cursor :=
  takeUntilFrom stops c.unread c.index c.loc

/-- Whether a text ends in an odd number of backslashes behind some other
    character, so that the character after the text is escaped. -/
def endsEscaped (text : List Char) : Bool :=
  let slashes := (text.reverse.takeWhile (· == '\\')).length
  slashes % 2 == 1 && slashes < text.length

/-- Takes fragments up to the closing quote, given the text of the string so
    far. A quote that the text before it escapes does not close. -/
def takeQuotedFrom (quote : List Char) :
    List Char → List Fragment → Nat → Location → List Char × Cursor
  | text, [], index, loc => (text, { unread := [], index, loc })
  | text, f :: rest, index, loc =>
    if f.text = quote && !endsEscaped text then (text, { unread := f :: rest, index, loc })
    else takeQuotedFrom quote (text ++ f.text) rest (index + 1) (loc.past f)

/-- The text of a string from its opening quote, which has just been passed,
    up to its closing quote or the end. -/
def takeQuoted (quote : List Char) (c : Cursor) : List Char × Cursor :=
  takeQuotedFrom quote quote c.unread c.index c.loc

/-- The closing delimiter that belongs to the current fragment, if that is an
    opening one. -/
def closer? (c : Cursor) : Option (List Char) :=
  if c.current = ['('] then some [')']
  else if c.current = ['['] then some [']']
  else if c.current = ['{'] || c.current = Marker.spread then some ['}']
  else none

end Cursor

end Inlay
