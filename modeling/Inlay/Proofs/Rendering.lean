import Inlay.Proofs.Collecting
import Inlay.Tree.Equality

/-!
# Renderings

Which texts a tree can have been read from. A rendering of a tree is its texts
and names in order, with the marks of the grammar between them and with blank
space where the grammar allows some; an element without content may close its
own tag or have an end tag. A tree has many renderings, since blank space is
free, but everything else is fixed.

The source that a tree is read from is one of its renderings, whatever it is
cut into (`parse_renders`). Nothing of it is lost, doubled, moved or made up.

The proof follows the derivation, and what it carries is one equation for each
phrase: the unread text is a rendering of the phrase and then what is unread
behind it. Two places need care. Code is collected in a run, which joins the
texts of several passes to one segment, so renderings are related to the
pieces first and to the segments through the run. And code between braces is
collected with its braces, which are cut off afterwards; that the first
segment begins with the opening mark is what makes the cut exact
(`Rule.unbraced_group`).

## Main definitions

* `Element.Renders`, `Attribute.Renders`, `Child.Renders`, `Segment.Renders`:
  The renderings of the parts of a tree.
* `Root.Renders`: The renderings of a tree.

## Theorems

* `Derives.rendered`: What a phrase is read from renders it.
* `parse_renders`: A source renders the tree that is read from it.
-/

namespace Inlay

/-- Blank space, possibly none. -/
def Blank (w : List Char) : Prop :=
  ∀ x ∈ w, Text.isBlank x = true

namespace Grammar

/-- What stands in front of the code of a computed value. -/
def valueMark : Grammar → List Char
  | sigil => []
  | brace => ['{']

/-- What stands behind code. -/
def codeClose : Grammar → List Char
  | sigil => []
  | brace => ['}']

end Grammar

mutual

/-- The renderings of an element. -/
inductive Element.Renders (g : Grammar) : Element → List Char → Prop where
  /-- A tag that closes itself has no content. -/
  | empty {tag w t : List Char} {as : List Attribute} {loc : Location} :
    Blank w → EntriesRender g as t →
      Element.Renders g (.mk tag as [] loc) (['<'] ++ tag ++ w ++ t ++ ['/', '>'])
  /-- A tag, content, and an end tag of the same name. -/
  | full {tag w t u : List Char} {as : List Attribute} {xs : List Child} {loc : Location} :
    Blank w → EntriesRender g as t → ContentRenders g xs u →
      Element.Renders g (.mk tag as xs loc)
        (['<'] ++ tag ++ w ++ t ++ ['>'] ++ u ++ ['<', '/'] ++ tag ++ ['>'])

/-- The renderings of an attribute. -/
inductive Attribute.Renders (g : Grammar) : Attribute → List Char → Prop where
  | bare {name : List Char} :
    Attribute.Renders g (.fixed name ['t', 'r', 'u', 'e']) name
  | quoted {name value w w' : List Char} :
    value ≠ ['t', 'r', 'u', 'e'] → Blank w → Blank w' →
      Attribute.Renders g (.fixed name value) (name ++ w ++ ['='] ++ w' ++ value)
  | computed {name w w' t : List Char} {code : Code} {loc : Location} :
    Blank w → Blank w' → CodeRenders g code t →
      Attribute.Renders g (.computed name code loc)
        (name ++ w ++ ['='] ++ w' ++ g.valueMark ++ t ++ g.codeClose)
  | mixin {t : List Char} {code : Code} {loc : Location} :
    CodeRenders g code t →
      Attribute.Renders g (.mixin code loc) (g.mixinMark ++ t ++ g.codeClose)

/-- The renderings of an entry of content. -/
inductive Child.Renders (g : Grammar) : Child → List Char → Prop where
  | element {e : Element} {t : List Char} :
    Element.Renders g e t → Child.Renders g (.element e) t
  | insertion {t : List Char} {code : Code} {loc : Location} :
    CodeRenders g code t →
      Child.Renders g (.insertion code loc) (g.insertionMark ++ t ++ g.codeClose)
  | comment {t : List Char} :
    Child.Renders g (.comment t) (['<', '!', '-', '-'] ++ t ++ ['-', '-', '>'])
  | text {t : List Char} :
    Child.Renders g (.text t) t

/-- The renderings of a segment. -/
inductive Segment.Renders (g : Grammar) : Segment → List Char → Prop where
  | text {t : List Char} {loc : Location} :
    Segment.Renders g (.text t loc) t
  | element {e : Element} {t : List Char} :
    Element.Renders g e t → Segment.Renders g (.element e) t

/-- The renderings of the entries of a tag, each with blank space behind it. -/
inductive EntriesRender (g : Grammar) : List Attribute → List Char → Prop where
  | nil : EntriesRender g [] []
  | cons {a : Attribute} {as : List Attribute} {t w u : List Char} :
    Attribute.Renders g a t → Blank w → EntriesRender g as u →
      EntriesRender g (a :: as) (t ++ w ++ u)

/-- The renderings of content, entry by entry. -/
inductive ContentRenders (g : Grammar) : List Child → List Char → Prop where
  | nil : ContentRenders g [] []
  | cons {x : Child} {xs : List Child} {t u : List Char} :
    Child.Renders g x t → ContentRenders g xs u → ContentRenders g (x :: xs) (t ++ u)

/-- The renderings of code, segment by segment. -/
inductive CodeRenders (g : Grammar) : List Segment → List Char → Prop where
  | nil : CodeRenders g [] []
  | cons {s : Segment} {ss : List Segment} {t u : List Char} :
    Segment.Renders g s t → CodeRenders g ss u → CodeRenders g (s :: ss) (t ++ u)

end

/-- The renderings of a tree. -/
def Root.Renders (g : Grammar) (r : Root) (t : List Char) : Prop :=
  CodeRenders g r.segments t

/-! ### Code from pieces -/

theorem CodeRenders.append {g : Grammar} {ss ss' : Code} {t t' : List Char}
    (h : CodeRenders g ss t) (h' : CodeRenders g ss' t') :
    CodeRenders g (ss ++ ss') (t ++ t') := by
  induction ss generalizing t with
  | nil =>
      cases h
      exact h'
  | cons s ss ih =>
      cases h with
      | cons hs hss =>
          rw [List.append_assoc]
          exact CodeRenders.cons hs (ih hss)

/-- The renderings of the pieces that a loop collects. -/
inductive PiecesRender (g : Grammar) : List Piece → List Char → Prop where
  | nil : PiecesRender g [] []
  | text {t u : List Char} {ps : List Piece} :
    PiecesRender g ps u → PiecesRender g (.text t :: ps) (t ++ u)
  | inlay {e : Element} {resume : Location} {t u : List Char} {ps : List Piece} :
    Element.Renders g e t → PiecesRender g ps u → PiecesRender g (.inlay e resume :: ps) (t ++ u)

theorem PiecesRender.append {g : Grammar} {ps qs : List Piece} {t u : List Char}
    (hps : PiecesRender g ps t) (hqs : PiecesRender g qs u) :
    PiecesRender g (ps ++ qs) (t ++ u) := by
  induction hps with
  | nil => exact hqs
  | text _ ih =>
      rw [List.append_assoc]
      exact PiecesRender.text ih
  | inlay he _ ih =>
      rw [List.append_assoc]
      exact PiecesRender.inlay he ih

theorem PiecesRender.append_inv {g : Grammar} {ps qs : List Piece} {s : List Char}
    (h : PiecesRender g (ps ++ qs) s) :
    ∃ t u, PiecesRender g ps t ∧ PiecesRender g qs u ∧ s = t ++ u := by
  induction ps generalizing s with
  | nil => exact ⟨[], s, PiecesRender.nil, h, rfl⟩
  | cons p ps ih =>
      cases h with
      | text h =>
          rcases ih h with ⟨t, u, ht, hu, rfl⟩
          exact ⟨_, u, PiecesRender.text ht, hu, by rw [List.append_assoc]⟩
      | inlay he h =>
          rcases ih h with ⟨t, u, ht, hu, rfl⟩
          exact ⟨_, u, PiecesRender.inlay he ht, hu, by rw [List.append_assoc]⟩

namespace Run

variable {g : Grammar} {r : Run} {s : List Char}

/-- A rendering of what a run holds: its segments, then its pending text. -/
def Renders (g : Grammar) (r : Run) (s : List Char) : Prop :=
  ∃ t, CodeRenders g r.segments t ∧ s = t ++ r.text

theorem Renders.closed (h : r.Renders g s) : CodeRenders g r.closed s := by
  rcases h with ⟨t, ht, rfl⟩
  have htext : CodeRenders g [.text r.text r.loc] (r.text ++ []) :=
    CodeRenders.cons Segment.Renders.text CodeRenders.nil
  rw [List.append_nil] at htext
  exact ht.append htext

theorem Renders.flush (h : r.Renders g s) : CodeRenders g r.flush.segments s := by
  unfold Run.flush
  by_cases htext : r.text.isEmpty = true
  · rw [if_pos htext]
    rcases h with ⟨t, ht, rfl⟩
    rw [List.isEmpty_iff.mp htext, List.append_nil]
    exact ht
  · rw [if_neg htext]
    exact h.closed

/-- A run that is given pieces holds what it held and then the pieces. -/
theorem Renders.extend {ps : List Piece} {t : List Char} (h : r.Renders g s)
    (hps : PiecesRender g ps t) : (r.extend ps).Renders g (s ++ t) := by
  induction hps generalizing r s with
  | nil =>
      rw [List.append_nil]
      exact h
  | @text t u ps _ ih =>
      rw [← List.append_assoc]
      refine ih ?_
      rcases h with ⟨v, hv, rfl⟩
      exact ⟨v, hv, List.append_assoc _ _ _⟩
  | @inlay e resume t u ps he _ ih =>
      rw [← List.append_assoc]
      refine ih ⟨s ++ t, ?_, ?_⟩
      · have hone : CodeRenders g [.element e] (t ++ []) :=
          CodeRenders.cons (Segment.Renders.element he) CodeRenders.nil
        rw [List.append_nil] at hone
        exact h.flush.append hone
      · have hnone : (r.add (.inlay e resume)).text = [] := r.text_flush
        rw [hnone, List.append_nil]

end Run

/-! ### Every phrase renders -/

/-- The unread text at `c` is a rendering of the phrase and what is unread at
    `c'`. Code between braces leaves out the braces. -/
def Phrase.Rendered (g : Grammar) (c : Cursor) : Phrase → Cursor → Prop
  | .piece _ ps, c' => ∃ t, PiecesRender g ps t ∧ c.rest = t ++ c'.rest
  | .pieces _ ps, c' => ∃ t, PiecesRender g ps t ∧ c.rest = t ++ c'.rest
  | .group ps, c' => ∃ t, PiecesRender g ps t ∧ c.rest = t ++ c'.rest
  | .code ss, c' => ∃ t mark, CodeRenders g ss t ∧ (g = .sigil → mark = []) ∧
    (g = .brace → mark = c.current) ∧ c.rest = mark ++ t ++ g.codeClose ++ c'.rest
  | .entry a, c' => ∃ t w, Attribute.Renders g a t ∧ Blank w ∧ c.rest = t ++ w ++ c'.rest
  | .entries as, c' => ∃ t, EntriesRender g as t ∧ c.rest = t ++ c'.rest
  | .child x, c' => ∃ t, Child.Renders g x t ∧ c.rest = t ++ c'.rest
  | .children xs, c' => ∃ t, ContentRenders g xs t ∧ c.rest = t ++ c'.rest
  | .element e, c' => ∃ t, Element.Renders g e t ∧ c.rest = t ++ c'.rest

/-- Code behind a mark: the mark, the code, and what closes it. -/
theorem Phrase.Rendered.behindMark {g : Grammar} {c c' : Cursor} {ss : Code} {mark : List Char}
    (hat : c.isAt [mark] = true) (hmark : g = .sigil → mark = ['@'])
    (h : (Phrase.code ss).Rendered g (g.behindMark c) c') :
    ∃ t, CodeRenders g ss t ∧ c.rest = mark ++ t ++ g.codeClose ++ c'.rest := by
  rcases h with ⟨t, m, ht, hsigil, hbrace, hrest⟩
  refine ⟨t, ht, ?_⟩
  cases g with
  | sigil =>
      rw [hsigil rfl, List.nil_append] at hrest
      rw [Cursor.rest_of_isAt hat, List.append_assoc, List.append_assoc, ← List.append_assoc t]
      exact congrArg (mark ++ ·) hrest
  | brace =>
      rw [hbrace rfl] at hrest
      rw [← List.mem_singleton.mp (Cursor.isAt_iff.mp hat).2]
      exact hrest

/-- What a phrase is read from renders it. -/
theorem Derives.rendered {g : Grammar} {c c' : Cursor} {p : Phrase} (h : Derives g c p c') :
    p.Rendered g c c' := by
  induction h with
  | @verbatim z c c' t hv =>
      refine ⟨t ++ [], PiecesRender.text PiecesRender.nil, ?_⟩
      rw [List.append_nil]
      exact hv.rest.symm
  | inlay _ _ ih =>
      rcases ih with ⟨t, ht, hrest⟩
      refine ⟨t ++ [], PiecesRender.inlay ht PiecesRender.nil, ?_⟩
      rw [List.append_nil]
      exact hrest
  | nest _ _ ih => exact ih
  | noPieces _ => exact ⟨[], PiecesRender.nil, rfl⟩
  | pieces _ _ _ ihpass ihrest =>
      rcases ihpass with ⟨t, ht, hrest⟩
      rcases ihrest with ⟨u, hu, hrest'⟩
      exact ⟨t ++ u, ht.append hu, by rw [hrest, hrest', List.append_assoc]⟩
  | @group c c₁ close ps hclose hps heof ih =>
      rcases ih with ⟨t, ht, hrest⟩
      refine ⟨c.current ++ (t ++ (c₁.current ++ [])),
        PiecesRender.text (ht.append (PiecesRender.text PiecesRender.nil)), ?_⟩
      rw [← c.current_append_rest_advance, hrest, ← c₁.current_append_rest_advance]
      simp only [List.append_nil, List.append_assoc]
  | @openCode c c' ps hg _ _ ih =>
      rcases ih with ⟨t, ht, hrest⟩
      have hrun : Run.Renders g { loc := c.loc } [] := ⟨[], CodeRenders.nil, rfl⟩
      refine ⟨t, [], (hrun.extend ht).flush, fun _ => rfl, fun hg' => ?_, ?_⟩
      · rw [hg] at hg'
        cases hg'
      · rw [hg]
        simpa only [Grammar.codeClose, List.nil_append, List.append_nil] using hrest
  | @bracedCode c c' ps hg hat hgroup ih =>
      -- The group renders with its braces, and the first segment with the mark;
      -- what is left of both without the marks is the same.
      rcases hgroup.group_inv with ⟨close, qs, c₁, hclose, _, hc₁, rfl, rfl⟩
      rw [Derives.closer?_of_brace hat hclose] at ih ⊢
      have hne : c.current ≠ [] := Cursor.current_ne_nil (Cursor.eof_of_isAt hat)
      rcases Rule.unbraced_group hne c.loc qs '}' with ⟨u, rest, hrun, hcode⟩
      rcases ih with ⟨s, hs, hrest⟩
      rcases PiecesRender.append_inv hs with ⟨t, v, ht, hv, rfl⟩
      cases ht with
      | @text _ t _ ht =>
      cases hv with
      | text hv =>
      cases hv with
      | nil =>
      have hstart : Run.Renders g { loc := c.loc, text := c.current } c.current :=
        ⟨[], CodeRenders.nil, rfl⟩
      have hclosed := (hstart.extend ht).closed
      rw [hrun] at hclosed
      generalize hall : c.current ++ t = all at hclosed
      cases hclosed with
      | @cons _ _ t₁ t₂ hfirst hrests =>
      cases hfirst with
      | text =>
      rw [List.append_assoc] at hall
      rw [hcode]
      refine ⟨u ++ t₂, c.current, CodeRenders.cons Segment.Renders.text hrests, fun hg' => ?_,
        fun _ => rfl, ?_⟩
      · rw [hg] at hg'
        cases hg'
      · rw [hrest, List.append_cancel_left hall, hg]
        simp only [Grammar.codeClose, List.append_assoc, List.append_nil]
  | @bare c _ _ =>
      rcases c.rest_pastName with ⟨w, hw, hrest⟩
      exact ⟨c.name, w, Attribute.Renders.bare, hw, hrest⟩
  | @quoted c c' v _ heq hv =>
      rcases c.rest_pastName with ⟨w, hw, hrest⟩
      rcases Cursor.rest_pastSign heq with ⟨w', hw', hrest'⟩
      have hne : v ≠ ['t', 'r', 'u', 'e'] := by
        rcases Rule.head_quotedString hv with ⟨u, rfl | rfl⟩ <;>
          exact fun h => absurd (List.cons.inj h).1 (by decide)
      refine ⟨_, [], Attribute.Renders.quoted hne hw hw', fun x hx => absurd hx List.not_mem_nil, ?_⟩
      rw [hrest, hrest', ← Rule.rest_quotedString hv]
      simp only [List.append_assoc, List.nil_append]
  | @computed c c' ss _ heq _ hbrace _ ih =>
      rcases c.rest_pastName with ⟨w, hw, hrest⟩
      rcases Cursor.rest_pastSign heq with ⟨w', hw', hrest'⟩
      rcases ih with ⟨t, mark, ht, hsigil, hcur, hrest''⟩
      refine ⟨_, [], Attribute.Renders.computed hw hw' ht, fun x hx => absurd hx List.not_mem_nil,
        ?_⟩
      have hmark : mark = g.valueMark := by
        cases g with
        | sigil => exact hsigil rfl
        | brace =>
            rw [hcur rfl]
            exact List.mem_singleton.mp (Cursor.isAt_iff.mp (hbrace rfl)).2
      rw [hrest, hrest', hrest'', hmark]
      simp only [List.append_assoc, List.nil_append]
  | @mixin c c' ss _ hat _ ih =>
      rcases Phrase.Rendered.behindMark hat (fun hg => by rw [hg]; rfl) ih with ⟨t, ht, hrest⟩
      refine ⟨_, [], Attribute.Renders.mixin ht, fun x hx => absurd hx List.not_mem_nil, ?_⟩
      rw [List.append_nil]
      exact hrest
  | noEntries _ => exact ⟨[], EntriesRender.nil, rfl⟩
  | @entries c c₁ c' a as _ _ _ ihentry ihrest =>
      rcases ihentry with ⟨t, w, ht, hw, hrest⟩
      rcases ihrest with ⟨u, hu, hrest'⟩
      rcases c₁.rest_skipBlank with ⟨w', hw', hskip⟩
      -- The blank space that the entry left behind goes on with what is passed.
      have hblank : Blank (w ++ w') := by
        intro x hx
        rcases List.mem_append.mp hx with hx | hx
        · exact hw x hx
        · exact hw' x hx
      refine ⟨t ++ (w ++ w') ++ u, EntriesRender.cons ht hblank hu, ?_⟩
      rw [hrest, ← hskip, hrest']
      simp only [List.append_assoc]
  | childElement _ ih =>
      rcases ih with ⟨t, ht, hrest⟩
      exact ⟨t, Child.Renders.element ht, hrest⟩
  | @insertion c c' ss hat _ ih =>
      rcases Phrase.Rendered.behindMark hat (fun hg => by rw [hg]; rfl) ih with ⟨t, ht, hrest⟩
      exact ⟨_, Child.Renders.insertion ht, hrest⟩
  | comment hcom =>
      rcases Rule.rest_comment hcom with ⟨body, rfl, hrest⟩
      exact ⟨_, Child.Renders.comment, hrest⟩
  | @text c _ _ _ => exact ⟨_, Child.Renders.text, (c.rest_takeUntil _).symm⟩
  | noChildren _ => exact ⟨[], ContentRenders.nil, rfl⟩
  | children _ _ _ ihchild ihrest =>
      rcases ihchild with ⟨t, ht, hrest⟩
      rcases ihrest with ⟨u, hu, hrest'⟩
      exact ⟨t ++ u, ContentRenders.cons ht hu, by rw [hrest, hrest', List.append_assoc]⟩
  | @emptyElement c c₁ as hat _ _ hclose ih =>
      rcases ih with ⟨t, ht, hrest⟩
      rcases c.advance.rest_pastName with ⟨w, hw, hname⟩
      refine ⟨_, Element.Renders.empty hw ht, ?_⟩
      rw [Cursor.rest_of_isAt hat, hname, hrest, Cursor.rest_of_isAt hclose]
      simp only [Marker.emptyClose, List.append_assoc]
  | @fullElement c c₁ c₂ as xs hat _ _ hclose _ hend htag hlast ihas ihxs =>
      rcases ihas with ⟨t, ht, hrest⟩
      rcases ihxs with ⟨u, hu, hrest'⟩
      rcases c.advance.rest_pastName with ⟨w, hw, hname⟩
      have hendName := c₂.advance.rest_split Pattern.identifier
      rw [htag] at hendName
      refine ⟨_, Element.Renders.full hw ht hu, ?_⟩
      rw [Cursor.rest_of_isAt hat, hname, hrest, Cursor.rest_of_isAt hclose, hrest',
        Cursor.rest_of_isAt hend, ← hendName, Cursor.rest_of_isAt hlast]
      simp only [Marker.endOpen, List.append_assoc]

/-- Reading leaves an end of what was unread. -/
theorem Derives.suffix {g : Grammar} {c c' : Cursor} {p : Phrase} (h : Derives g c p c') :
    c'.rest <:+ c.rest := by
  have hrendered := h.rendered
  cases p with
  | code ss =>
      rcases hrendered with ⟨t, mark, _, _, _, hrest⟩
      exact ⟨_, hrest.symm⟩
  | entry a =>
      rcases hrendered with ⟨t, w, _, _, hrest⟩
      exact ⟨_, hrest.symm⟩
  | _ =>
      rcases hrendered with ⟨t, _, hrest⟩
      exact ⟨t, hrest.symm⟩

theorem Derives.size_le {g : Grammar} {c c' : Cursor} {p : Phrase} (h : Derives g c p c') :
    c'.size ≤ c.size :=
  h.suffix.length_le

/-! ### Whole sources -/

/-- Leaving out empty texts leaves out no character. -/
theorem Cursor.rest_ofTexts (texts : List (List Char)) :
    (Cursor.ofTexts texts).rest = texts.flatten := by
  unfold Cursor.ofTexts Cursor.rest
  induction texts with
  | nil => rfl
  | cons t texts ih =>
      cases t with
      | nil => exact ih
      | cons x xs => exact congrArg ((x :: xs) ++ ·) ih

/-- At the end of the source nothing is left. -/
theorem Cursor.rest_of_eof {c : Cursor} (h : c.eof = true) : c.rest = [] := by
  unfold Cursor.rest
  rw [List.isEmpty_iff.mp h]
  rfl

/-- A source renders the tree that is read from it, whatever it is cut into. -/
theorem parse_renders (g : Grammar) (fragments : List (List Char)) (r : Root)
    (h : parse g fragments = .ok r) : r.Renders g fragments.flatten := by
  rcases parse_eq_ok_iff.mp h with ⟨ps, c', hps, rfl⟩
  rcases hps.rendered with ⟨t, ht, hrest⟩
  rw [Cursor.rest_of_eof hps.pieces_end, List.append_nil, Cursor.rest_ofTexts] at hrest
  have hstart : Run.Renders g { loc := {} } [] := ⟨[], CodeRenders.nil, rfl⟩
  rw [hrest]
  exact (hstart.extend ht).flush

/-- Fragments that no source is cut into: an empty one, and one that joins two
    names. The tree leaves out three gaps of the source. -/
theorem parse_renders_inlaid :
    ∃ r : Root,
      r.segments = [.text ['x'] ⟨0, 0, 0⟩,
        .element (.mk ['p'] [.fixed ['q'] ['"', '1', '"']]
          [.insertion [.text ['f', '('] ⟨1, 2, 13⟩, .element (.mk ['i'] [] [] ⟨1, 4, 15⟩),
            .text [')'] ⟨1, 8, 19⟩] ⟨1, 1, 12⟩] ⟨0, 1, 1⟩)] ∧
      parse .sigil
        [['x'], [], ['<'], ['p', ' ', 'q'], ['='], [' '], ['"'], ['1'], ['"'], ['\n'], ['>'],
          ['@'], ['f'], ['('], ['<'], ['i'], ['/', '>'], [')'], ['<', '/'], ['p'], ['>']] = .ok r ∧
      r.Renders .sigil
        ['x', '<', 'p', ' ', 'q', '=', ' ', '"', '1', '"', '\n', '>', '@', 'f', '(', '<', 'i', '/',
          '>', ')', '<', '/', 'p', '>'] := by
  refine ⟨⟨_⟩, rfl, ?_, ?_⟩
  · decide +kernel
  · exact parse_renders .sigil
      [['x'], [], ['<'], ['p', ' ', 'q'], ['='], [' '], ['"'], ['1'], ['"'], ['\n'], ['>'],
        ['@'], ['f'], ['('], ['<'], ['i'], ['/', '>'], [')'], ['<', '/'], ['p'], ['>']] _
      (by decide +kernel)

end Inlay
