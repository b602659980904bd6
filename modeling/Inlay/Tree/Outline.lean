import Inlay.Tree.Basic
import Inlay.Value.Basic

/-!
# Outlines

A tree as plain data. Every node becomes an object whose first entry names
its kind; the other entries hold its text, its location, and the outlines of
what it holds. Code is an object of its own inside the node it belongs to.

## Main definitions

* `Location.outline`: A location as an object.
* `Root.outline`: A tree as an object.
* `Node.outline`: Any node as an object.
-/

namespace Inlay

/-- A location as an object. -/
def Location.outline (loc : Location) : Value :=
  .object [("line", .int loc.line), ("col", .int loc.col), ("pos", .int loc.pos)]

namespace Outline

/-- An object for a node of some kind. -/
def object (kind : Kind) (entries : Entries) : Value :=
  .object (("type", .str kind.name) :: entries)

/-- A text as a value. -/
def text (s : List Char) : Value :=
  .str (String.ofList s)

/-- Code as an object. -/
def code (segments : List Value) : Value :=
  object .code [("segments", .list segments)]

end Outline

open Outline in
mutual

/-- An element as an object. -/
def Element.outline : Element → Value
  | .mk tag attributes content loc =>
    object .element
      [("tag", text tag), ("attributes", .list (outlineAttributes attributes)),
        ("content", .list (outlineContent content)), ("loc", loc.outline)]

/-- An attribute as an object. -/
def Attribute.outline : Attribute → Value
  | .fixed name value => object .fixed [("name", text name), ("value", text value)]
  | .computed name segments loc =>
    object .computed
      [("name", text name), ("code", code (outlineCode segments)), ("loc", loc.outline)]
  | .mixin segments loc =>
    object .mixin [("code", code (outlineCode segments)), ("loc", loc.outline)]

/-- An entry of content as an object. -/
def Child.outline : Child → Value
  | .element e => e.outline
  | .insertion segments loc =>
    object .insertion [("code", code (outlineCode segments)), ("loc", loc.outline)]
  | .comment s => object .comment [("text", text s)]
  | .text s => object .text [("text", text s)]

/-- A segment as an object. -/
def Segment.outline : Segment → Value
  | .text s loc => object .segment [("text", text s), ("loc", loc.outline)]
  | .element e => e.outline

/-- Some attributes as objects. -/
def outlineAttributes : List Attribute → List Value
  | [] => []
  | a :: rest => a.outline :: outlineAttributes rest

/-- Some content as objects. -/
def outlineContent : List Child → List Value
  | [] => []
  | c :: rest => c.outline :: outlineContent rest

/-- Some code as objects. -/
def outlineCode : List Segment → List Value
  | [] => []
  | s :: rest => s.outline :: outlineCode rest

end

/-- A whole tree as an object. -/
def Root.outline (r : Root) : Value :=
  Outline.object .root [("segments", .list (outlineCode r.segments))]

/-- Any node as an object. -/
def Node.outline : Node → Value
  | .root r => r.outline
  | .segment s loc => (Segment.text s loc).outline
  | .element e => e.outline
  | .text s => (Child.text s).outline
  | .comment s => (Child.comment s).outline
  | .insertion c loc => (Child.insertion c loc).outline
  | .fixed name value => (Attribute.fixed name value).outline
  | .computed name c loc => (Attribute.computed name c loc).outline
  | .mixin c loc => (Attribute.mixin c loc).outline
  | .code c => Outline.code (outlineCode c)

end Inlay
