import Inlay.Source.Location

/-!
# Trees

What a source reads as. The root holds the host code of the source, cut
wherever an element is inlaid in it, so host code and elements alternate in
one list of segments. An element holds attributes and content, and both can
hold code again, whose segments are of the same kind as the root's. Markup
nests in code and code in markup to any depth.

Each place in a tree has its own type, so that an attribute cannot stand in
content, and code always consists of segments. `Node` is the sum of all of
them, for the operations that treat a tree as a collection of nodes.

Texts are lists of characters, as in the fragments they come from.

## Main definitions

* `Element`, `Attribute`, `Child`, `Segment`: The parts of a tree.
* `Root`: A whole tree.
* `Node`, `Kind`: Any part of a tree, and which part it is.
-/

namespace Inlay

mutual

/-- A tag with its attributes and content. The closing tag always repeats the
    name and is not kept; without content there may have been none. -/
inductive Element where
  | mk (tag : List Char) (attributes : List Attribute) (content : List Child) (loc : Location)

/-- An entry of an opening tag. -/
inductive Attribute where
  /-- A literal value, its quotes included; `true` when none is given. -/
  | fixed (name value : List Char)
  /-- A value that host code computes. -/
  | computed (name : List Char) (code : List Segment) (loc : Location)
  /-- Host code applied to the element as a whole. -/
  | mixin (code : List Segment) (loc : Location)

/-- An entry of an element's content. -/
inductive Child where
  | element (e : Element)
  /-- A place where host code produces content. -/
  | insertion (code : List Segment) (loc : Location)
  /-- The body of a comment, without its markers. -/
  | comment (text : List Char)
  | text (text : List Char)

/-- A piece of code: host text, or an element inlaid in it. -/
inductive Segment where
  | text (text : List Char) (loc : Location)
  | element (e : Element)

end

/-- Code: host text with elements inlaid. -/
abbrev Code := List Segment

/-- A whole tree. -/
structure Root where
  segments : Code := []

namespace Element

/-- The name of an element. -/
def tag : Element → List Char
  | mk tag _ _ _ => tag

/-- The entries of the opening tag. -/
def attributes : Element → List Attribute
  | mk _ attributes _ _ => attributes

/-- What stands between the opening and the closing tag. -/
def content : Element → List Child
  | mk _ _ content _ => content

/-- Where the opening tag begins. -/
def loc : Element → Location
  | mk _ _ _ loc => loc

end Element

/-- Any part of a tree. -/
inductive Node where
  | root (r : Root)
  | segment (text : List Char) (loc : Location)
  | element (e : Element)
  | text (text : List Char)
  | comment (text : List Char)
  | insertion (code : Code) (loc : Location)
  | fixed (name value : List Char)
  | computed (name : List Char) (code : Code) (loc : Location)
  | mixin (code : Code) (loc : Location)
  | code (c : Code)

/-- The kinds of node, in the order in which they are numbered. -/
inductive Kind where
  | root
  | segment
  | element
  | text
  | comment
  | insertion
  | fixed
  | computed
  | mixin
  | code
deriving DecidableEq

namespace Kind

/-- Every kind, in order. -/
def all : List Kind :=
  [root, segment, element, text, comment, insertion, fixed, computed, mixin, code]

/-- The name of a kind in the outline of a tree. -/
def name : Kind → String
  | root => "ROOT"
  | segment => "TEXT_SEGMENT"
  | element => "ELEMENT"
  | text => "PLAIN_TEXT"
  | comment => "COMMENT"
  | insertion => "CODE_INSERTION"
  | fixed => "STATIC_ATTRIBUTE"
  | computed => "DYNAMIC_ATTRIBUTE"
  | mixin => "MIXIN"
  | code => "EMBEDDED_CODE"

/-- The number of a kind; the first has number one. -/
def number (k : Kind) : Nat :=
  all.idxOf k + 1

/-- The kind with a given name. -/
def ofName? (name : String) : Option Kind :=
  all.find? (·.name == name)

end Kind

namespace Node

/-- The kind of a node. -/
def kind : Node → Kind
  | root _ => .root
  | segment _ _ => .segment
  | element _ => .element
  | text _ => .text
  | comment _ => .comment
  | insertion _ _ => .insertion
  | fixed _ _ => .fixed
  | computed _ _ _ => .computed
  | mixin _ _ => .mixin
  | code _ => .code

/-- Where a node begins, for the kinds that keep it. -/
def loc? : Node → Option Location
  | segment _ loc | insertion _ loc | computed _ _ loc | mixin _ loc => some loc
  | element e => some e.loc
  | root _ | text _ | comment _ | fixed _ _ | code _ => none

end Node

/-- The host text of a piece of code, inlaid elements left out. -/
def Code.text (code : Code) : List Char :=
  code.flatMap fun
    | .text t _ => t
    | .element _ => []

end Inlay
