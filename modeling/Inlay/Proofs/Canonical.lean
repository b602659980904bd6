import Inlay.Proofs.Rendering

/-!
# Canonical Texts

One text for each tree: its texts and names in order, with one space in front
of each entry of a tag and of the end of the tag, and with a tag that closes
itself where there is no content.

Two trees are compared without their locations here, since a canonical text
places its nodes elsewhere. Code is compared through what its pieces say: the
characters and the elements in order (`flow`). How the characters were divided
among pieces is not part of it. A run forgets that division, so pieces that
flow alike give the same code.

## Main definitions

* `Root.canonical`: The canonical text of a tree.
* `Root.unplaced`: A tree without its locations.
* `flow`: What pieces say, without how and where they were read.

## Theorems

* `Run.unplaced_extend`: A run without its locations depends on the flow.
* `Rule.unplaced_unbraced`: So does code between braces.
* `canonicalCode_flush`, `Rule.canonicalCode_unbraced`: The canonical text of
  collected code is that of its pieces.
-/

namespace Inlay

mutual

/-- The canonical text of an element. -/
def Element.canonical (g : Grammar) : Element → List Char
  | .mk tag attributes content _ =>
    ['<'] ++ tag ++ canonicalEntries g attributes ++
      if content.isEmpty then [' ', '/', '>']
      else [' ', '>'] ++ canonicalContent g content ++ ['<', '/'] ++ tag ++ ['>']

/-- The canonical text of an attribute. -/
def Attribute.canonical (g : Grammar) : Attribute → List Char
  | .fixed name value =>
    if value = ['t', 'r', 'u', 'e'] then name else name ++ ['='] ++ value
  | .computed name code _ =>
    name ++ ['='] ++ g.valueMark ++ canonicalCode g code ++ g.codeClose
  | .mixin code _ => g.mixinMark ++ canonicalCode g code ++ g.codeClose

/-- The canonical text of an entry of content. -/
def Child.canonical (g : Grammar) : Child → List Char
  | .element e => e.canonical g
  | .insertion code _ => g.insertionMark ++ canonicalCode g code ++ g.codeClose
  | .comment text => ['<', '!', '-', '-'] ++ text ++ ['-', '-', '>']
  | .text text => text

/-- The canonical text of a segment. -/
def Segment.canonical (g : Grammar) : Segment → List Char
  | .text text _ => text
  | .element e => e.canonical g

/-- The canonical text of the entries of a tag, each behind a space. -/
def canonicalEntries (g : Grammar) : List Attribute → List Char
  | [] => []
  | a :: rest => [' '] ++ a.canonical g ++ canonicalEntries g rest

/-- The canonical text of content. -/
def canonicalContent (g : Grammar) : List Child → List Char
  | [] => []
  | c :: rest => c.canonical g ++ canonicalContent g rest

/-- The canonical text of code. -/
def canonicalCode (g : Grammar) : List Segment → List Char
  | [] => []
  | s :: rest => s.canonical g ++ canonicalCode g rest

end

/-- The canonical text of a tree. -/
def Root.canonical (g : Grammar) (r : Root) : List Char :=
  canonicalCode g r.segments

mutual

/-- An element without locations. -/
def Element.unplaced : Element → Element
  | .mk tag attributes content _ =>
    .mk tag (unplacedAttributes attributes) (unplacedContent content) {}

/-- An attribute without locations. -/
def Attribute.unplaced : Attribute → Attribute
  | .fixed name value => .fixed name value
  | .computed name code _ => .computed name (unplacedCode code) {}
  | .mixin code _ => .mixin (unplacedCode code) {}

/-- An entry of content without locations. -/
def Child.unplaced : Child → Child
  | .element e => .element e.unplaced
  | .insertion code _ => .insertion (unplacedCode code) {}
  | .comment text => .comment text
  | .text text => .text text

/-- A segment without locations. -/
def Segment.unplaced : Segment → Segment
  | .text text _ => .text text {}
  | .element e => .element e.unplaced

/-- Attributes without locations. -/
def unplacedAttributes : List Attribute → List Attribute
  | [] => []
  | a :: rest => a.unplaced :: unplacedAttributes rest

/-- Content without locations. -/
def unplacedContent : List Child → List Child
  | [] => []
  | c :: rest => c.unplaced :: unplacedContent rest

/-- Code without locations. -/
def unplacedCode : List Segment → List Segment
  | [] => []
  | s :: rest => s.unplaced :: unplacedCode rest

end

/-- A tree without locations. -/
def Root.unplaced (r : Root) : Root :=
  { segments := unplacedCode r.segments }

theorem canonicalCode_append (g : Grammar) (ss ss' : Code) :
    canonicalCode g (ss ++ ss') = canonicalCode g ss ++ canonicalCode g ss' := by
  induction ss with
  | nil => rfl
  | cons x ss ih => rw [List.cons_append, canonicalCode, ih, canonicalCode, List.append_assoc]

theorem unplacedCode_append (ss ss' : Code) :
    unplacedCode (ss ++ ss') = unplacedCode ss ++ unplacedCode ss' := by
  induction ss with
  | nil => rfl
  | cons x ss ih => rw [List.cons_append, unplacedCode, ih, unplacedCode, List.cons_append]

/-! ### Canonical texts of collected code -/

/-- The canonical text of a piece. -/
def Piece.canonical (g : Grammar) : Piece → List Char
  | .text t => t
  | .inlay e _ => e.canonical g

/-- The canonical text of some pieces. -/
def canonicalPieces (g : Grammar) (ps : List Piece) : List Char :=
  ps.flatMap (Piece.canonical g)

@[simp] theorem canonicalPieces_nil (g : Grammar) : canonicalPieces g [] = [] :=
  rfl

@[simp] theorem canonicalPieces_cons (g : Grammar) (p : Piece) (ps : List Piece) :
    canonicalPieces g (p :: ps) = p.canonical g ++ canonicalPieces g ps :=
  rfl

theorem canonicalPieces_append (g : Grammar) (ps qs : List Piece) :
    canonicalPieces g (ps ++ qs) = canonicalPieces g ps ++ canonicalPieces g qs :=
  List.flatMap_append

theorem canonicalPieces_group (g : Grammar) (mark last : List Char) (qs : List Piece) :
    canonicalPieces g (.text mark :: qs ++ [.text last]) =
      mark ++ (canonicalPieces g qs ++ last) := by
  have hlast : canonicalPieces g [.text last] = last := List.append_nil last
  rw [List.cons_append, canonicalPieces_cons, canonicalPieces_append, hlast, Piece.canonical]

namespace Run

/-- The canonical text of what a run holds. -/
def canonical (g : Grammar) (r : Run) : List Char :=
  canonicalCode g r.segments ++ r.text

theorem canonicalCode_closed (g : Grammar) (r : Run) : canonicalCode g r.closed = r.canonical g := by
  rw [closed, canonicalCode_append, canonicalCode, canonicalCode, List.append_nil]
  rfl

theorem canonicalCode_flush (g : Grammar) (r : Run) :
    canonicalCode g r.flush.segments = r.canonical g := by
  unfold flush
  by_cases htext : r.text.isEmpty = true
  · rw [if_pos htext, canonical, List.isEmpty_iff.mp htext, List.append_nil]
  · rw [if_neg htext]
    exact r.canonicalCode_closed g

/-- A run that is given pieces has their canonical text behind its own. -/
theorem canonical_extend (g : Grammar) (r : Run) (ps : List Piece) :
    (r.extend ps).canonical g = r.canonical g ++ canonicalPieces g ps := by
  induction ps generalizing r with
  | nil => rw [extend_nil, canonicalPieces_nil, List.append_nil]
  | cons p ps ih =>
      have hadd : (r.add p).canonical g = r.canonical g ++ p.canonical g := by
        cases p with
        | text t =>
            simp only [add, append, canonical, Piece.canonical, List.append_assoc]
        | inlay e resume =>
            simp only [add, inlay, canonical, text_flush, canonicalCode_append,
              canonicalCode_flush, canonicalCode, Segment.canonical, Piece.canonical,
              List.append_nil]
      rw [extend_cons, ih, hadd, canonicalPieces_cons, List.append_assoc]

end Run

/-- The canonical text of code between braces is that of the pieces between
    the braces. -/
theorem Rule.canonicalCode_unbraced (g : Grammar) {mark : List Char} (hmark : mark ≠ [])
    (loc : Location) (qs : List Piece) (x : Char) :
    canonicalCode g (unbraced mark.length (Run.extend { loc } (.text mark :: qs ++ [.text [x]]))) =
      canonicalPieces g qs := by
  rcases unbraced_group hmark loc qs x with ⟨u, rest, hrun, hcode⟩
  have hclosed := (Run.extend { loc, text := mark } qs).canonicalCode_closed g
  have hstart : Run.canonical g { loc, text := mark } = mark := rfl
  rw [hrun, Run.canonical_extend, hstart, canonicalCode, Segment.canonical,
    List.append_assoc] at hclosed
  rw [hcode, canonicalCode, Segment.canonical]
  exact List.append_cancel_left hclosed

/-! ### Code up to locations -/

/-- What pieces say: characters and elements in order. -/
def flow : List Piece → List (Char ⊕ Element)
  | [] => []
  | .text t :: ps => t.map Sum.inl ++ flow ps
  | .inlay e _ :: ps => Sum.inr e.unplaced :: flow ps

theorem flow_append (ps qs : List Piece) : flow (ps ++ qs) = flow ps ++ flow qs := by
  induction ps with
  | nil => rfl
  | cons p ps ih =>
      cases p with
      | text t => rw [List.cons_append, flow, ih, flow, List.append_assoc]
      | inlay e resume => rw [List.cons_append, flow, ih, flow, List.cons_append]

theorem flow_group (mark last : List Char) (qs : List Piece) :
    flow (.text mark :: qs ++ [.text last]) =
      mark.map Sum.inl ++ (flow qs ++ last.map Sum.inl) := by
  have hlast : flow [.text last] = last.map Sum.inl := List.append_nil _
  rw [List.cons_append, flow, flow_append, hlast]

namespace Run

/-- A run without locations. -/
def unplaced (r : Run) : Run :=
  { segments := unplacedCode r.segments, text := r.text, loc := {} }

/-- Adds one character or one element to a run. -/
def feed (r : Run) : Char ⊕ Element → Run
  | .inl x => r.append [x]
  | .inr e => r.inlay e {}

theorem unplaced_closed (r : Run) : unplacedCode r.closed = r.unplaced.closed := by
  rw [closed, unplacedCode_append]
  rfl

theorem unplaced_flush (r : Run) : r.flush.unplaced = r.unplaced.flush := by
  unfold flush
  by_cases htext : r.text.isEmpty = true
  · have htext' : r.unplaced.text.isEmpty = true := htext
    rw [if_pos htext, if_pos htext']
  · have htext' : ¬ r.unplaced.text.isEmpty = true := htext
    rw [if_neg htext, if_neg htext', unplaced, unplacedCode_append]
    rfl

theorem unplaced_inlay (r : Run) (e : Element) (resume : Location) :
    (r.inlay e resume).unplaced = r.unplaced.inlay e.unplaced {} := by
  rw [inlay, inlay, ← unplaced_flush, unplaced, unplacedCode_append]
  rfl

/-- Adding a text is adding its characters. -/
theorem foldl_feed_text (r : Run) (t : List Char) :
    (t.map Sum.inl).foldl feed r = r.append t := by
  induction t generalizing r with
  | nil => rw [List.map_nil, List.foldl_nil, append, List.append_nil]
  | cons x t ih =>
      rw [List.map_cons, List.foldl_cons, ih]
      simp only [feed, append, List.append_assoc, List.singleton_append]

/-- A run without locations depends on the flow of the pieces alone. -/
theorem unplaced_extend (r : Run) (ps : List Piece) :
    (r.extend ps).unplaced = (flow ps).foldl feed r.unplaced := by
  induction ps generalizing r with
  | nil => rfl
  | cons p ps ih =>
      rw [extend_cons, ih]
      cases p with
      | text t => rw [flow, List.foldl_append, foldl_feed_text]; rfl
      | inlay e resume => rw [flow, List.foldl_cons, add, unplaced_inlay]; rfl

/-- Pieces that flow alike give the same segments, up to locations. -/
theorem unplaced_segments {ps qs : List Piece} (h : flow qs = flow ps) (loc loc' : Location) :
    unplacedCode (Run.extend { loc := loc' } qs).flush.segments =
      unplacedCode (Run.extend { loc } ps).flush.segments := by
  have hrun : (Run.extend { loc := loc' } qs).unplaced = (Run.extend { loc } ps).unplaced := by
    rw [unplaced_extend, unplaced_extend, h]
    rfl
  have hflush := congrArg flush hrun
  rw [← unplaced_flush, ← unplaced_flush] at hflush
  exact congrArg segments hflush

end Run

/-- Code between braces that flows alike is the same, up to locations. -/
theorem Rule.unplaced_unbraced {mark : List Char} (hmark : mark ≠ []) {ps qs : List Piece}
    (h : flow qs = flow ps) (loc loc' : Location) (x : Char) :
    unplacedCode (unbraced mark.length
        (Run.extend { loc := loc' } (.text mark :: qs ++ [.text [x]]))) =
      unplacedCode (unbraced mark.length (Run.extend { loc } (.text mark :: ps ++ [.text [x]]))) := by
  rcases unbraced_group hmark loc ps x with ⟨u, rest, hrun, hcode⟩
  rcases unbraced_group hmark loc' qs x with ⟨u', rest', hrun', hcode'⟩
  have hsame : (Run.extend { loc := loc', text := mark } qs).unplaced =
      (Run.extend { loc, text := mark } ps).unplaced := by
    rw [Run.unplaced_extend, Run.unplaced_extend, h]
    rfl
  have hclosed := congrArg Run.closed hsame
  rw [← Run.unplaced_closed, ← Run.unplaced_closed, hrun, hrun', unplacedCode, unplacedCode,
    Segment.unplaced, Segment.unplaced, List.cons.injEq, Segment.text.injEq] at hclosed
  rcases hclosed with ⟨⟨htext, _⟩, hrest⟩
  rw [hcode, hcode', unplacedCode, unplacedCode, hrest, Segment.unplaced, Segment.unplaced,
    List.append_cancel_left htext]

end Inlay
