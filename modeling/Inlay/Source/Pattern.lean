import Inlay.Text.Blank

/-!
# Patterns

What can be peeled off the front of a fragment. A pattern looks at a text and
answers with the length of the stretch it recognises there, or with nothing
when it does not apply. A stretch may be empty, and then the pattern applies
without recognising any character.

Every pattern here is greedy, so its answer is determined by character
classes alone and needs no search.

## Main definitions

* `Pattern`: A recogniser of a stretch at the front of a text.
* `Pattern.oneOrMore`: One or more characters of a class.
* `Pattern.identifier`: Names of elements and attributes, dotted parts
  included.
* `Pattern.codeEnd`: A character that ends unnested embedded code.
* `Pattern.codeStretch`: Characters that do not.
-/

namespace Inlay

/-- The length of the stretch recognised at the front of a text. -/
abbrev Pattern := List Char → Option Nat

namespace Pattern

/-- One or more characters of a class. -/
def oneOrMore (p : Char → Bool) : Pattern :=
  fun s => match (s.takeWhile p).length with
    | 0 => none
    | n + 1 => some (n + 1)

/-- Exactly one character of a class. -/
def one (p : Char → Bool) : Pattern
  | [] => none
  | c :: _ => if p c then some 1 else none

/-- Letters that can begin a name: the ASCII ones only. -/
def isNameStart (c : Char) : Bool :=
  c.isAlpha

/-- Characters inside a part of a name: ASCII letters and digits, underscore
    and dash. -/
def isNameChar (c : Char) : Bool :=
  c.isAlphanum || c == '_' || c == '-'

/-- How far a name goes on behind its first letter. A dot belongs to the name
    only when another part follows it. -/
def nameTail : List Char → Nat
  | [] => 0
  | c :: rest =>
    if isNameChar c || (c == '.' && rest.head?.any isNameChar) then nameTail rest + 1
    else 0

/-- A letter, then the rest of a dotted name. -/
def identifier : Pattern
  | [] => none
  | c :: rest => if isNameStart c then some (nameTail rest + 1) else none

/-- Blank space. -/
def blanks : Pattern :=
  oneOrMore Text.isBlank

/-- Characters that end embedded code outside any nesting. -/
def endsCode (c : Char) : Bool :=
  Text.isBlank c || ['<', '>', '/', ',', ';', ')', ']', '}'].contains c

/-- One character that ends embedded code. -/
def codeEnd : Pattern :=
  one endsCode

/-- Characters that go on with embedded code. -/
def codeStretch : Pattern :=
  oneOrMore fun c => !endsCode c

end Pattern

end Inlay
