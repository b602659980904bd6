import Inlay.Grammar.Parser
import Inlay.Proofs.Success

/-!
# Derivations

The grammar as a relation. `Derives g c p c'` says that the phrase `p` reads
from the cursor `c` and that the cursor stands at `c'` behind it. There is one
rule for each way in which a phrase is made of others, and neither depth of
nesting nor limits of loops occur in it, so a property of everything that is
ever read is an induction over the rules below.

All kinds of phrase share one relation, with a kind of phrase as its index,
instead of having a relation each. Elements, attributes, content and code nest
in each other in every order, and with a single relation an induction over all
of them is an ordinary induction.

What a loop over code collects is kept as a list of pieces rather than as the
run it leaves: the pieces do not depend on what the run held before, and the
run is recovered by `Run.extend`.

The relation is exact: every successful run has a derivation, and every
derivation is a successful run. `Inlay.Proofs.Adequacy` proves both.

## Main definitions

* `Piece`, `Run.extend`: What a loop over code collects.
* `Zone`: Where code stands, which decides what ends it and what may nest.
* `Verbatim`: Reading that takes text over as it is.
* `Phrase`: Everything that is read.
* `Derives`: The grammar as a relation.

## Theorems

* `Run.extend_append`: Pieces are added one after the other.
-/

namespace Inlay

/-- What one pass over code collects: text, or an element and the place where
    text goes on behind it. -/
inductive Piece where
  | text (t : List Char)
  | inlay (e : Element) (resume : Location)

namespace Run

/-- Adds a piece to a run. -/
def add (r : Run) : Piece → Run
  | .text t => r.append t
  | .inlay e resume => r.inlay e resume

/-- Adds pieces to a run, one after the other. -/
def extend (r : Run) (ps : List Piece) : Run :=
  ps.foldl add r

@[simp] theorem extend_nil (r : Run) : r.extend [] = r :=
  rfl

@[simp] theorem extend_cons (r : Run) (p : Piece) (ps : List Piece) :
    r.extend (p :: ps) = (r.add p).extend ps :=
  rfl

theorem extend_append (r : Run) (ps qs : List Piece) :
    r.extend (ps ++ qs) = (r.extend ps).extend qs :=
  List.foldl_append

end Run

/-- Where code stands. -/
inductive Zone where
  /-- The whole source. -/
  | source
  /-- Between delimiters, of which the closing one is given. -/
  | group (close : List Char)
  /-- Outside any nesting. -/
  | unnested
deriving DecidableEq

namespace Zone

/-- Whether the code of a zone ends here. -/
def ends : Zone → Cursor → Bool
  | source, c => c.eof
  | group close, c => c.eof || c.isAt [close]
  | unnested, c => c.eof || (c.matched? Pattern.codeEnd).isSome

/-- One pass over the code of a zone. -/
def pass (inner : Rule.Nested) : Zone → Drafting Unit
  | source => Rule.piece inner (Drafting.write Read.take)
  | group _ => Rule.groupPiece inner
  | unnested => Rule.openPiece inner

/-- Whether the current fragment means nothing of its own in a zone where
    elements and literals are recognised. -/
def plain (z : Zone) (c : Cursor) : Bool :=
  !c.isAt quotes && !c.isAt [Marker.lineComment] && !c.isAt [Marker.blockOpen] &&
    !c.isAt [['<']] && (z = source || c.closer?.isNone)

end Zone

/-- Reading that takes text over as it is. -/
inductive Verbatim : Zone → Cursor → List Char → Cursor → Prop where
  | string {z : Zone} {c c' : Cursor} {t : List Char} :
    Rule.quotedString c = .ok t c' → Verbatim z c t c'
  | lineComment {z : Zone} {c c' : Cursor} {t : List Char} :
    z ≠ .unnested → Rule.lineComment c = .ok t c' → Verbatim z c t c'
  | blockComment {z : Zone} {c c' : Cursor} {t : List Char} :
    z ≠ .unnested → Rule.blockComment c = .ok t c' → Verbatim z c t c'
  | plain {z : Zone} {c : Cursor} :
    z ≠ .unnested → z.plain c = true → Verbatim z c c.current c.advance
  | stretch {c : Cursor} :
    c.closer? = none → c.isAt quotes = false →
      Verbatim .unnested c (c.split Pattern.codeStretch).1 (c.split Pattern.codeStretch).2

/-- Everything that is read. -/
inductive Phrase where
  /-- What one pass over code collects. -/
  | piece (z : Zone) (ps : List Piece)
  /-- What is collected until the code of a zone ends. -/
  | pieces (z : Zone) (ps : List Piece)
  /-- Delimiters and what they enclose. -/
  | group (ps : List Piece)
  /-- Code as markup hands over to it. -/
  | code (code : Code)
  /-- One entry of a tag. -/
  | entry (a : Attribute)
  /-- The entries of a tag, each with the blank space behind it. -/
  | entries (as : List Attribute)
  /-- One entry of content. -/
  | child (x : Child)
  /-- The content of an element. -/
  | children (xs : List Child)
  | element (e : Element)

/-- The grammar as a relation: a phrase reads from one cursor to another. -/
inductive Derives (g : Grammar) : Cursor → Phrase → Cursor → Prop where
  | verbatim {z : Zone} {c c' : Cursor} {t : List Char} :
    Verbatim z c t c' → Derives g c (.piece z [.text t]) c'
  | inlay {z : Zone} {c c' : Cursor} {e : Element} :
    z ≠ .unnested → Derives g c (.element e) c' → Derives g c (.piece z [.inlay e c'.loc]) c'
  | nest {z : Zone} {c c' : Cursor} {ps : List Piece} :
    z ≠ .source → Derives g c (.group ps) c' → Derives g c (.piece z ps) c'
  | noPieces {z : Zone} {c : Cursor} :
    z.ends c = true → Derives g c (.pieces z []) c
  | pieces {z : Zone} {c c₁ c' : Cursor} {ps qs : List Piece} :
    z.ends c = false → Derives g c (.piece z ps) c₁ → Derives g c₁ (.pieces z qs) c' →
      Derives g c (.pieces z (ps ++ qs)) c'
  | group {c c₁ : Cursor} {close : List Char} {ps : List Piece} :
    c.closer? = some close → Derives g c.advance (.pieces (.group close) ps) c₁ →
      c₁.eof = false →
      Derives g c (.group (.text c.current :: ps ++ [.text c₁.current])) c₁.advance
  | openCode {c c' : Cursor} {ps : List Piece} :
    g = .sigil → Derives g c (.pieces .unnested ps) c' →
      (Run.extend { loc := c.loc } ps).flush.segments ≠ [] →
      Derives g c (.code (Run.extend { loc := c.loc } ps).flush.segments) c'
  | bracedCode {c c' : Cursor} {ps : List Piece} :
    g = .brace → c.isAt [['{'], Marker.spread] = true → Derives g c (.group ps) c' →
      Derives g c
        (.code (Rule.unbraced c.current.length (Run.extend { loc := c.loc } ps))) c'
  | bare {c : Cursor} :
    (c.matched? Pattern.identifier).isSome = true → c.pastName.isAt [['=']] = false →
      Derives g c (.entry (.fixed c.name ['t', 'r', 'u', 'e'])) c.pastName
  | quoted {c c' : Cursor} {v : List Char} :
    (c.matched? Pattern.identifier).isSome = true → c.pastName.isAt [['=']] = true →
      Rule.quotedString c.pastName.pastSign = .ok v c' →
      Derives g c (.entry (.fixed c.name v)) c'
  | computed {c c' : Cursor} {code : Code} :
    (c.matched? Pattern.identifier).isSome = true → c.pastName.isAt [['=']] = true →
      c.pastName.pastSign.isAt quotes = false →
      (g = .brace → c.pastName.pastSign.isAt [['{']] = true) →
      Derives g c.pastName.pastSign (.code code) c' →
      Derives g c (.entry (.computed c.name code c.loc)) c'
  | mixin {c c' : Cursor} {code : Code} :
    (c.matched? Pattern.identifier).isSome = false → c.isAt [g.mixinMark] = true →
      Derives g (g.behindMark c) (.code code) c' →
      Derives g c (.entry (.mixin code c.loc)) c'
  | noEntries {c : Cursor} :
    c.tagEnds = true → Derives g c (.entries []) c
  | entries {c c₁ c' : Cursor} {a : Attribute} {as : List Attribute} :
    c.tagEnds = false → Derives g c (.entry a) c₁ → Derives g c₁.skipBlank (.entries as) c' →
      Derives g c (.entries (a :: as)) c'
  | childElement {c c' : Cursor} {e : Element} :
    Derives g c (.element e) c' → Derives g c (.child (.element e)) c'
  | insertion {c c' : Cursor} {code : Code} :
    c.isAt [g.insertionMark] = true → Derives g (g.behindMark c) (.code code) c' →
      Derives g c (.child (.insertion code c.loc)) c'
  | comment {c c' : Cursor} {x : Child} :
    Rule.comment c = .ok x c' → Derives g c (.child x) c'
  | text {c : Cursor} :
    c.isAt [['<']] = false → c.isAt [g.insertionMark] = false →
      c.isAt [Marker.commentOpen] = false →
      Derives g c (.child (.text (c.takeUntil g.textStops).1)) (c.takeUntil g.textStops).2
  | noChildren {c : Cursor} :
    c.contentEnds = true → Derives g c (.children []) c
  | children {c c₁ c' : Cursor} {x : Child} {xs : List Child} :
    c.contentEnds = false → Derives g c (.child x) c₁ → Derives g c₁ (.children xs) c' →
      Derives g c (.children (x :: xs)) c'
  | emptyElement {c c₁ : Cursor} {as : List Attribute} :
    c.isAt [['<']] = true → c.advance.name ≠ [] →
      Derives g c.advance.pastName (.entries as) c₁ → c₁.isAt [Marker.emptyClose] = true →
      Derives g c (.element (.mk c.advance.name as [] c.loc)) c₁.advance
  | fullElement {c c₁ c₂ : Cursor} {as : List Attribute} {xs : List Child} :
    c.isAt [['<']] = true → c.advance.name ≠ [] →
      Derives g c.advance.pastName (.entries as) c₁ → c₁.isAt [['>']] = true →
      Derives g c₁.advance (.children xs) c₂ → c₂.isAt [Marker.endOpen] = true →
      (c₂.advance.split Pattern.identifier).1 = c.advance.name →
      (c₂.advance.split Pattern.identifier).2.isAt [['>']] = true →
      Derives g c (.element (.mk c.advance.name as xs c.loc))
        (c₂.advance.split Pattern.identifier).2.advance

end Inlay
