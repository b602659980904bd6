import Inlay.Proofs.ProperValues
import Inlay.Tree.Equality
import Inlay.Tree.Outline
import Inlay.Tree.Walk

/-!
# Walks and Outlines

A tree is gone through in two ways. The walk lists its nodes, and the outline
turns it into plain data. Both go through the same nodes in the same order: if
the objects of nodes are collected from an outline, each in front of those it
holds, they are the outlines of the nodes of the walk. So neither way leaves a
node out, and neither comes to one twice.

An object in an outline is that of a node if it names its type. Locations are
objects as well, and have none.

An outline also determines its tree. This holds up to the order of entries,
which does not count when objects are compared: every node is read off its
object by the names of the entries, and the type tells which names these are.

## Main definitions

* `Value.nodes`: The objects of nodes in a value, in order.
* `Value.Same`: Equality of values, whatever the order of entries is.

## Theorems

* `nodes_outlineCode`: An outline holds the nodes of the walk.
* `Root.findByKind_perm`: Every node of a walk is found by one kind.
* `code_of_same`: Code is determined by its outline.
* `Root.walk_outline`: Walk and outline go through the same tree.
-/

namespace Inlay

/-! ### The nodes of an outline -/

mutual

/-- The objects of nodes in a value, each in front of those it holds. -/
def Value.nodes : Value → List Value
  | .object entries =>
    if (Entries.get? entries "type").isSome then .object entries :: nodesOfEntries entries
    else nodesOfEntries entries
  | .list items => nodesOfItems items
  | .null | .bool _ | .int _ | .float _ | .str _ | .location _ => []

/-- The objects of nodes in some items. -/
def nodesOfItems : List Value → List Value
  | [] => []
  | v :: rest => v.nodes ++ nodesOfItems rest

/-- The objects of nodes in some entries. -/
def nodesOfEntries : List (String × Value) → List Value
  | [] => []
  | (_, v) :: rest => v.nodes ++ nodesOfEntries rest

end

/-- The object of a node is in front of those in its entries. -/
theorem nodes_object (k : Kind) (entries : Entries) :
    (Outline.object k entries).nodes = Outline.object k entries :: nodesOfEntries entries := by
  rw [Outline.object, Value.nodes, if_pos (by simp [Entries.get?_cons]), nodesOfEntries,
    Value.nodes, List.nil_append]

@[simp]
theorem nodes_text (s : List Char) : (Outline.text s).nodes = [] := by
  rw [Outline.text, Value.nodes]

@[simp]
theorem nodes_location (loc : Location) : loc.outline.nodes = [] := by
  rw [Location.outline, Value.nodes, if_neg (by simp [Entries.get?_cons])]
  simp only [nodesOfEntries, Value.nodes, List.append_nil]

theorem nodes_code (segments : List Value) :
    (Outline.code segments).nodes = Outline.code segments :: nodesOfItems segments := by
  rw [Outline.code, nodes_object]
  simp only [nodesOfEntries, Value.nodes, List.append_nil]

-- Every node is an object in front of the nodes that its walk goes on to, so
-- each case comes down to the entries that hold nodes, and to their order.

mutual

theorem Element.nodes_outline : ∀ e : Element, e.outline.nodes = e.walk.map Node.outline
  | .mk tag attributes content loc => by
    rw [Element.outline, nodes_object, Element.walk]
    simp only [nodesOfEntries, Value.nodes, nodes_text, nodes_location,
      nodes_outlineAttributes attributes, nodes_outlineContent content, List.nil_append,
      List.append_nil, List.map_cons, List.map_append, Node.outline, Element.outline]

theorem Attribute.nodes_outline : ∀ a : Attribute, a.outline.nodes = a.walk.map Node.outline
  | .fixed name value => by
    rw [Attribute.outline, nodes_object]
    simp only [nodesOfEntries, nodes_text, List.append_nil, Attribute.walk, List.map_cons,
      List.map_nil, Node.outline, Attribute.outline]
  | .computed name segments loc => by
    rw [Attribute.outline, nodes_object]
    simp only [nodesOfEntries, nodes_text, nodes_code, nodes_location, nodes_outlineCode segments,
      List.nil_append, List.append_nil, Attribute.walk, List.map_cons, Node.outline,
      Attribute.outline]
  | .mixin segments loc => by
    rw [Attribute.outline, nodes_object]
    simp only [nodesOfEntries, nodes_code, nodes_location, nodes_outlineCode segments,
      List.append_nil, Attribute.walk, List.map_cons, Node.outline, Attribute.outline]

theorem Child.nodes_outline : ∀ x : Child, x.outline.nodes = x.walk.map Node.outline
  | .element e => by
    rw [Child.outline, Child.walk, e.nodes_outline]
  | .insertion segments loc => by
    rw [Child.outline, nodes_object]
    simp only [nodesOfEntries, nodes_code, nodes_location, nodes_outlineCode segments,
      List.append_nil, Child.walk, List.map_cons, Node.outline, Child.outline]
  | .comment s => by
    rw [Child.outline, nodes_object]
    simp only [nodesOfEntries, nodes_text, List.append_nil, Child.walk, List.map_cons,
      List.map_nil, Node.outline, Child.outline]
  | .text s => by
    rw [Child.outline, nodes_object]
    simp only [nodesOfEntries, nodes_text, List.append_nil, Child.walk, List.map_cons,
      List.map_nil, Node.outline, Child.outline]

theorem Segment.nodes_outline : ∀ s : Segment, s.outline.nodes = s.walk.map Node.outline
  | .text s loc => by
    rw [Segment.outline, nodes_object]
    simp only [nodesOfEntries, nodes_text, nodes_location, List.append_nil, Segment.walk,
      List.map_cons, List.map_nil, Node.outline, Segment.outline]
  | .element e => by
    rw [Segment.outline, Segment.walk, e.nodes_outline]

theorem nodes_outlineAttributes : ∀ as : List Attribute,
    nodesOfItems (outlineAttributes as) = (walkAttributes as).map Node.outline
  | [] => rfl
  | a :: rest => by
    rw [outlineAttributes, nodesOfItems, a.nodes_outline, nodes_outlineAttributes rest,
      walkAttributes, List.map_append]

theorem nodes_outlineContent : ∀ xs : List Child,
    nodesOfItems (outlineContent xs) = (walkContent xs).map Node.outline
  | [] => rfl
  | x :: rest => by
    rw [outlineContent, nodesOfItems, x.nodes_outline, nodes_outlineContent rest, walkContent,
      List.map_append]

/-- The outline of code holds the nodes of its walk. -/
theorem nodes_outlineCode : ∀ ss : List Segment,
    nodesOfItems (outlineCode ss) = (walkCode ss).map Node.outline
  | [] => rfl
  | s :: rest => by
    rw [outlineCode, nodesOfItems, s.nodes_outline, nodes_outlineCode rest, walkCode,
      List.map_append]

end

/-! ### Kinds -/

theorem Kind.mem_all (k : Kind) : k ∈ Kind.all := by
  cases k <;> decide

theorem Kind.nodup_all : Kind.all.Nodup := by
  decide

theorem Kind.ofName?_name (k : Kind) : Kind.ofName? k.name = some k := by
  cases k <;> decide

theorem Kind.name_injective {k k' : Kind} (h : k.name = k'.name) : k = k' := by
  rw [← Option.some.injEq, ← k.ofName?_name, ← k'.ofName?_name, h]

/-- What is sorted by keys that differ is sorted without loss and repetition. -/
theorem flatMap_filter_perm {α κ : Type} [DecidableEq κ] (key : α → κ) {ks : List κ}
    (hks : ks.Nodup) (xs : List α) :
    (ks.flatMap fun k => xs.filter (key · = k)).Perm (xs.filter (key · ∈ ks)) := by
  induction ks with
  | nil => simp
  | cons k ks ih =>
      rcases List.nodup_cons.mp hks with ⟨hk, hks⟩
      have hhere : (xs.filter (key · ∈ k :: ks)).filter (key · = k) = xs.filter (key · = k) := by
        rw [List.filter_filter]
        refine List.filter_congr fun x _ => ?_
        by_cases hx : key x = k <;> simp [hx]
      have hthere : (xs.filter (key · ∈ k :: ks)).filter (fun x => !decide (key x = k)) =
          xs.filter (key · ∈ ks) := by
        rw [List.filter_filter]
        refine List.filter_congr fun x _ => ?_
        by_cases hx : key x = k <;> simp [hx, hk]
      have hsplit := List.filter_append_perm (key · = k) (xs.filter (key · ∈ k :: ks))
      rw [hhere, hthere] at hsplit
      rw [List.flatMap_cons]
      exact ((ih hks).append_left _).trans hsplit

/-- Every node of a walk is found by its kind, and by no other. -/
theorem Root.findByKind_perm (r : Root) : (Kind.all.flatMap r.findByKind).Perm r.walk := by
  have hall : r.walk.filter (·.kind ∈ Kind.all) = r.walk :=
    List.filter_eq_self.mpr fun n _ => decide_eq_true n.kind.mem_all
  have hperm := flatMap_filter_perm Node.kind Kind.nodup_all r.walk
  rwa [hall] at hperm

/-! ### Equality of outlines -/

namespace Value

/-- Equality of values, in which the order of entries does not count. -/
inductive Same : Value → Value → Prop
  | scalar {v : Value} (plain : v.isScalar = true) : Same v v
  | list {items items' : List Value} (inner : List.Forall₂ Same items items') :
      Same (list items) (list items')
  | object {entries entries' : Entries} (names : entries.names.Perm entries'.names)
      (inner : ∀ name v v', entries.get? name = some v → entries'.get? name = some v' → Same v v') :
      Same (object entries) (object entries')

mutual

theorem Same.refl : ∀ v : Value, Same v v
  | .list items => .list (sameItems items)
  | .object entries => .object (List.Perm.refl _) fun name v v' hv hv' => by
    rw [hv, Option.some.injEq] at hv'
    exact hv' ▸ sameEntries entries name v hv
  | .null => .scalar rfl
  | .bool _ => .scalar rfl
  | .int _ => .scalar rfl
  | .float _ => .scalar rfl
  | .str _ => .scalar rfl
  | .location _ => .scalar rfl

theorem sameItems : ∀ items : List Value, List.Forall₂ Same items items
  | [] => .nil
  | v :: rest => .cons (Same.refl v) (sameItems rest)

theorem sameEntries : ∀ (entries : List (String × Value)) (name : String) (v : Value),
    Entries.get? entries name = some v → Same v v
  | [], name, v, h => by simp at h
  | (n, u) :: rest, name, v, h => by
    rw [Entries.get?_cons] at h
    by_cases hn : n = name
    · rw [if_pos hn, Option.some.injEq] at h
      exact h ▸ Same.refl u
    · rw [if_neg hn] at h
      exact sameEntries rest name v h

end

/-- Objects that are equal hold equal values under a name. -/
theorem Same.entry {entries entries' : Entries}
    (h : Same (Value.object entries) (Value.object entries')) (name : String) {v v' : Value}
    (hv : entries.get? name = some v)
    (hv' : entries'.get? name = some v') : Same v v' := by
  cases h with
  | scalar plain => cases plain
  | object _ inner => exact inner name v v' hv hv'

theorem Same.items {items items' : List Value} (h : Same (Value.list items) (Value.list items')) :
    List.Forall₂ Same items items' := by
  cases h with
  | scalar plain => cases plain
  | list inner => exact inner

theorem same_str_iff {s s' : String} : Same (str s) (str s') ↔ s = s' := by
  constructor
  · intro h
    cases h
    rfl
  · rintro rfl
    exact .refl _

theorem same_int_iff {i j : Int} : Same (int i) (int j) ↔ i = j := by
  constructor
  · intro h
    cases h
    rfl
  · rintro rfl
    exact .refl _

end Value

/-- A text is determined by its outline. -/
theorem text_of_same {s s' : List Char} (h : (Outline.text s).Same (Outline.text s')) : s = s' := by
  have hstring := Value.same_str_iff.mp h
  exact String.ofList_injective hstring

theorem Location.eq_of_same {loc loc' : Location} (h : loc.outline.Same loc'.outline) :
    loc = loc' := by
  rcases loc with ⟨line, col, pos⟩
  rcases loc' with ⟨line', col', pos'⟩
  have hline : line = line' := Value.same_int_iff.mp (h.entry "line" rfl rfl)
  have hcol : col = col' := Value.same_int_iff.mp (h.entry "col" rfl rfl)
  have hpos : pos = pos' := Value.same_int_iff.mp (h.entry "pos" rfl rfl)
  rw [hline, hcol, hpos]

/-- The type of an object tells the kind of its node. -/
theorem kind_of_same {k k' : Kind} {entries entries' : Entries}
    (h : (Outline.object k entries).Same (Outline.object k' entries')) : k = k' :=
  Kind.name_injective (Value.same_str_iff.mp (h.entry "type" rfl rfl))

/-- Code in its own object is determined by that if its segments are. -/
theorem segments_of_same {segments segments' : List Value}
    (h : (Outline.code segments).Same (Outline.code segments')) :
    List.Forall₂ Value.Same segments segments' :=
  (h.entry "segments" rfl rfl).items

theorem Element.outline_eq (e : Element) :
    ∃ entries, e.outline = Outline.object .element entries := by
  cases e
  exact ⟨_, by rw [Element.outline]⟩

-- A node is read off its object entry by entry, and objects of nodes of
-- different kinds differ in their types.

mutual

theorem Element.eq_of_same : ∀ e e' : Element, e.outline.Same e'.outline → e = e'
  | .mk tag as xs loc, .mk tag' as' xs' loc', h => by
    rw [Element.outline, Element.outline] at h
    have htag := text_of_same (h.entry "tag" rfl rfl)
    have has := attributes_of_same as as' (h.entry "attributes" rfl rfl).items
    have hxs := content_of_same xs xs' (h.entry "content" rfl rfl).items
    have hloc := Location.eq_of_same (h.entry "loc" rfl rfl)
    rw [htag, has, hxs, hloc]

theorem Attribute.eq_of_same : ∀ a a' : Attribute, a.outline.Same a'.outline → a = a'
  | .fixed name value, a', h => by
    cases a' with
    | fixed name' value' =>
        rw [Attribute.outline, Attribute.outline] at h
        have hname := text_of_same (h.entry "name" rfl rfl)
        have hvalue := text_of_same (h.entry "value" rfl rfl)
        rw [hname, hvalue]
    | _ =>
        rw [Attribute.outline, Attribute.outline] at h
        cases kind_of_same h
  | .computed name ss loc, a', h => by
    cases a' with
    | computed name' ss' loc' =>
        rw [Attribute.outline, Attribute.outline] at h
        have hname := text_of_same (h.entry "name" rfl rfl)
        have hss := code_of_same ss ss' (segments_of_same (h.entry "code" rfl rfl))
        have hloc := Location.eq_of_same (h.entry "loc" rfl rfl)
        rw [hname, hss, hloc]
    | _ =>
        rw [Attribute.outline, Attribute.outline] at h
        cases kind_of_same h
  | .mixin ss loc, a', h => by
    cases a' with
    | mixin ss' loc' =>
        rw [Attribute.outline, Attribute.outline] at h
        have hss := code_of_same ss ss' (segments_of_same (h.entry "code" rfl rfl))
        have hloc := Location.eq_of_same (h.entry "loc" rfl rfl)
        rw [hss, hloc]
    | _ =>
        rw [Attribute.outline, Attribute.outline] at h
        cases kind_of_same h

theorem Child.eq_of_same : ∀ x x' : Child, x.outline.Same x'.outline → x = x'
  | .element e, x', h => by
    rw [Child.outline] at h
    cases x' with
    | element e' =>
        rw [Child.outline] at h
        rw [Element.eq_of_same e e' h]
    | _ =>
        rcases e.outline_eq with ⟨entries, he⟩
        rw [he, Child.outline] at h
        cases kind_of_same h
  | .insertion ss loc, x', h => by
    cases x' with
    | insertion ss' loc' =>
        rw [Child.outline, Child.outline] at h
        have hss := code_of_same ss ss' (segments_of_same (h.entry "code" rfl rfl))
        have hloc := Location.eq_of_same (h.entry "loc" rfl rfl)
        rw [hss, hloc]
    | element e' =>
        rcases e'.outline_eq with ⟨entries, he⟩
        rw [Child.outline, Child.outline, he] at h
        cases kind_of_same h
    | _ =>
        rw [Child.outline, Child.outline] at h
        cases kind_of_same h
  | .comment s, x', h => by
    cases x' with
    | comment s' =>
        rw [Child.outline, Child.outline] at h
        rw [text_of_same (h.entry "text" rfl rfl)]
    | element e' =>
        rcases e'.outline_eq with ⟨entries, he⟩
        rw [Child.outline, Child.outline, he] at h
        cases kind_of_same h
    | _ =>
        rw [Child.outline, Child.outline] at h
        cases kind_of_same h
  | .text s, x', h => by
    cases x' with
    | text s' =>
        rw [Child.outline, Child.outline] at h
        rw [text_of_same (h.entry "text" rfl rfl)]
    | element e' =>
        rcases e'.outline_eq with ⟨entries, he⟩
        rw [Child.outline, Child.outline, he] at h
        cases kind_of_same h
    | _ =>
        rw [Child.outline, Child.outline] at h
        cases kind_of_same h

theorem Segment.eq_of_same : ∀ s s' : Segment, s.outline.Same s'.outline → s = s'
  | .text t loc, .text t' loc', h => by
    rw [Segment.outline, Segment.outline] at h
    have htext := text_of_same (h.entry "text" rfl rfl)
    have hloc := Location.eq_of_same (h.entry "loc" rfl rfl)
    rw [htext, hloc]
  | .text t loc, .element e, h => by
    rcases e.outline_eq with ⟨entries, he⟩
    rw [Segment.outline, Segment.outline, he] at h
    cases kind_of_same h
  | .element e, .text t loc, h => by
    rcases e.outline_eq with ⟨entries, he⟩
    rw [Segment.outline, Segment.outline, he] at h
    cases kind_of_same h
  | .element e, .element e', h => by
    rw [Segment.outline, Segment.outline] at h
    rw [Element.eq_of_same e e' h]

theorem attributes_of_same : ∀ as as' : List Attribute,
    List.Forall₂ Value.Same (outlineAttributes as) (outlineAttributes as') → as = as'
  | [], [], _ => rfl
  | [], a' :: as', h => by cases h
  | a :: as, [], h => by cases h
  | a :: as, a' :: as', h => by
    rw [outlineAttributes, outlineAttributes, List.forall₂_cons] at h
    rw [Attribute.eq_of_same a a' h.1, attributes_of_same as as' h.2]

theorem content_of_same : ∀ xs xs' : List Child,
    List.Forall₂ Value.Same (outlineContent xs) (outlineContent xs') → xs = xs'
  | [], [], _ => rfl
  | [], x' :: xs', h => by cases h
  | x :: xs, [], h => by cases h
  | x :: xs, x' :: xs', h => by
    rw [outlineContent, outlineContent, List.forall₂_cons] at h
    rw [Child.eq_of_same x x' h.1, content_of_same xs xs' h.2]

/-- Code is determined by its outline. -/
theorem code_of_same : ∀ ss ss' : List Segment,
    List.Forall₂ Value.Same (outlineCode ss) (outlineCode ss') → ss = ss'
  | [], [], _ => rfl
  | [], s' :: ss', h => by cases h
  | s :: ss, [], h => by cases h
  | s :: ss, s' :: ss', h => by
    rw [outlineCode, outlineCode, List.forall₂_cons] at h
    rw [Segment.eq_of_same s s' h.1, code_of_same ss ss' h.2]

end

/-- Trees are equal exactly if their outlines are. -/
theorem Root.same_outline_iff {r r' : Root} : r.outline.Same r'.outline ↔ r = r' := by
  constructor
  · intro h
    rcases r with ⟨ss⟩
    rcases r' with ⟨ss'⟩
    rw [code_of_same ss ss' (h.entry "segments" rfl rfl).items]
  · rintro rfl
    exact .refl _

/-- Walk and outline go through the same tree. The objects of nodes in an
    outline, each in front of those it holds, are that of the root and those of
    the nodes of the walk, in order. Every node of the walk is found by exactly
    one kind. And trees are equal exactly if their outlines are, whether or not
    the order of entries counts. -/
theorem Root.walk_outline (r : Root) :
    r.outline.nodes = r.outline :: r.walk.map Node.outline ∧
      (∀ k, (r.findByKind k).Sublist r.walk ∧ ∀ n ∈ r.findByKind k, n.kind = k) ∧
      (Kind.all.flatMap r.findByKind).Perm r.walk ∧
      ∀ r' : Root, (r.outline = r'.outline ↔ r = r') ∧ (r.outline.Same r'.outline ↔ r = r') := by
  refine ⟨?_, fun k => ⟨List.filter_sublist, fun n hn => ?_⟩, r.findByKind_perm, fun r' => ?_⟩
  · rw [Root.outline, nodes_object]
    simp only [nodesOfEntries, Value.nodes, nodes_outlineCode, List.append_nil, Root.walk]
  · exact of_decide_eq_true (List.mem_filter.mp hn).2
  · refine ⟨⟨fun h => ?_, congrArg Root.outline⟩, Root.same_outline_iff⟩
    exact Root.same_outline_iff.mp (h ▸ .refl _)

end Inlay
