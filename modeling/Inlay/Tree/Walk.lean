import Inlay.Tree.Basic

/-!
# Walking a Tree

The nodes of a tree, one after the other in the order of the source: a node
comes before what it holds, the attributes of an element before its content,
and an insertion, a computed attribute or a mixin before its code, which is a
node of its own. The root is where the walk starts and is not part of it.

The definitions follow the types of the tree, with one function for each and
one for each list, so every one of them recurses on its own argument.

## Main definitions

* `Root.walk`: The nodes below the root, in order.
* `Root.findByTag`: The elements with a given name.
* `Root.findByKind`: The nodes of a given kind.
-/

namespace Inlay

mutual

/-- An element and the nodes it holds. -/
def Element.walk : Element → List Node
  | .mk tag attributes content loc =>
    .element (.mk tag attributes content loc) :: (walkAttributes attributes ++ walkContent content)

/-- An attribute and the nodes it holds. -/
def Attribute.walk : Attribute → List Node
  | .fixed name value => [.fixed name value]
  | .computed name code loc => .computed name code loc :: .code code :: walkCode code
  | .mixin code loc => .mixin code loc :: .code code :: walkCode code

/-- An entry of content and the nodes it holds. -/
def Child.walk : Child → List Node
  | .element e => e.walk
  | .insertion code loc => .insertion code loc :: .code code :: walkCode code
  | .comment text => [.comment text]
  | .text text => [.text text]

/-- A segment and the nodes it holds. -/
def Segment.walk : Segment → List Node
  | .text text loc => [.segment text loc]
  | .element e => e.walk

/-- The nodes of some attributes. -/
def walkAttributes : List Attribute → List Node
  | [] => []
  | a :: rest => a.walk ++ walkAttributes rest

/-- The nodes of some content. -/
def walkContent : List Child → List Node
  | [] => []
  | c :: rest => c.walk ++ walkContent rest

/-- The nodes of some code. -/
def walkCode : List Segment → List Node
  | [] => []
  | s :: rest => s.walk ++ walkCode rest

end

namespace Root

/-- The nodes below the root, in the order of the source. -/
def walk (r : Root) : List Node :=
  walkCode r.segments

/-- The elements with a given name, in order. -/
def findByTag (r : Root) (tag : List Char) : List Element :=
  r.walk.filterMap fun
    | .element e => if e.tag = tag then some e else none
    | _ => none

/-- The nodes of a given kind, in order. -/
def findByKind (r : Root) (kind : Kind) : List Node :=
  r.walk.filter (·.kind = kind)

end Root

end Inlay
