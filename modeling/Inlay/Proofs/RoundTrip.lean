import Inlay.Proofs.MarkupRereading
import Inlay.Tree.Equality

/-!
# Printing and Reading Again

The canonical text of a tree that was read from a source is read as the same
tree, up to locations (`parseSource_canonical`).

The proof is an induction over the derivation of the tree. It does not hold of
every tree: a text that holds a quote, or open code that holds a space, would
not be read back. What the induction carries is that the parts of this tree
stood next to each other in a source, and that their canonical texts stand
next to each other in the same way or with a space between them.

## Main definitions

* `Phrase.Reread`: What is kept for each phrase.

## Theorems

* `Derives.reread`: The canonical text of a phrase is read again.
* `parseSource_canonical`: The canonical text of a tree is read again.
-/

namespace Inlay

/-- What is kept for each phrase. Only open code and content can begin behind
    a star, where a slash is a fragment of its own. -/
def Phrase.Reread (g : Grammar) (c c' : Cursor) : Phrase → Prop
  | .piece z ps =>
    (z ≠ .unnested → c.Lexed → WholeReread g c c' (.piece z) ps) ∧
      (z = .unnested → z.ends c = false → ∀ b, c.unread = cut b c.rest → OpenReread g b c c' ps)
  | .pieces z ps =>
    (z ≠ .unnested → c.Lexed → WholeReread g c c' (.pieces z) ps) ∧
      (z = .unnested → ∀ b, c.unread = cut b c.rest → OpenReread g b c c' ps)
  | .group ps => c.Lexed → GroupReread g c c' ps
  | .code ss => c.Lexed → CodeReread g c c' ss
  | .entry a => c.Lexed → EntryReread g c c' a
  | .entries as => c.Lexed → EntriesReread g c' as
  | .child x => c.contentEnds = false → ∀ b, c.unread = cut b c.rest → ChildReread g b c c' x
  | .children xs => ∀ b, c.unread = cut b c.rest → ContentReread g b c c' xs
  | .element e => c.Lexed → ElementReread g c c' e

/-- An element that is inlaid in code reads again in front of anything. -/
theorem whole_inlay {g : Grammar} {c c' : Cursor} {z : Zone} {e : Element} (hz : z ≠ .unnested)
    (he : ElementReread g c c' e) : WholeReread g c c' (.piece z) [.inlay e c'.loc] := by
  have htext : canonicalPieces g [.inlay e c'.loc] = e.canonical g := List.append_nil _
  refine ⟨he.lexed, fun k _ => by rw [htext]; exact he.alike k, fun k _ d hd => ?_⟩
  rw [htext] at hd
  rcases he.again k d hd with ⟨e', d', he', heq, hd'⟩
  refine ⟨_, d', Derives.inlay hz he', ?_, hd'⟩
  rw [flow, flow, heq]
  rfl

/-- The code of a mixin or an insertion begins at the fragments of a text. -/
theorem Cursor.Lexed.behindMark {c : Cursor} (h : c.Lexed) (g : Grammar) : (g.behindMark c).Lexed := by
  cases g with
  | sigil => exact h.advance
  | brace => exact h

/-- Whatever was read, its canonical text is read again. -/
theorem Derives.reread {g : Grammar} {c c' : Cursor} {p : Phrase} (h : Derives g c p c') :
    p.Reread g c c' := by
  -- On the derivation. What is kept for a phrase is carried in front of any
  -- text that goes on alike, so that a part can be used with the canonical
  -- text of the parts behind it.
  induction h with
  | @verbatim z c c' t hv =>
      refine ⟨fun hz hc => whole_verbatim hz hv hc, fun hz hend b hc => ?_⟩
      subst hz
      exact open_verbatim hv hc hend
  | inlay hz _ ih => exact ⟨fun _ hc => whole_inlay hz (ih hc), fun hz' => absurd hz' hz⟩
  | nest hz _ ih =>
      refine ⟨fun _ hc => whole_nest hz (ih hc), fun hz' hend b hc => ?_⟩
      subst hz'
      exact open_nest (ih (lexed_of_cut hc hend))
  | noPieces hend => exact ⟨fun _ hc => whole_noPieces hend hc, fun _ b hc => open_noPieces hc⟩
  | pieces hend _ _ ih ih' =>
      refine ⟨fun hz hc => ?_, fun hz b hc => ?_⟩
      · have hps := ih.1 hz hc
        exact whole_pieces hend hc hps (ih'.1 hz hps.lexed)
      · have hps := ih.2 hz hend b hc
        exact open_pieces hps (ih'.2 hz _ hps.cut)
  | @group c c₁ close ps hclose hps heof ih =>
      intro hc
      -- The pieces did not end with the source, so the delimiter is there.
      have hend := hps.pieces_end
      rw [Zone.ends, heof, Bool.false_or] at hend
      rw [List.mem_singleton.mp (Cursor.isAt_iff.mp hend).2]
      exact reread_group hclose hend hc (ih.1 (fun hz => by cases hz) hc.advance)
  | openCode hg hps hne ih =>
      intro hc
      subst hg
      exact reread_openCode hps.pieces_end hne (ih.2 rfl false (hc.trans (cut_false _).symm))
  | bracedCode hg hat hps ih =>
      intro hc
      subst hg
      have hgroup := ih hc
      rcases hps.group_inv with ⟨close, qs, c₁, hclose, _, _, rfl, _⟩
      rw [Derives.closer?_of_brace hat hclose] at hgroup ⊢
      exact reread_bracedCode hat hc hgroup
  | bare hid _ => exact reread_bare hid
  | quoted hid _ hv => exact reread_quoted hid hv
  | computed hid _ hquote hbrace _ ih =>
      intro hc
      exact reread_computed hid hquote hbrace hc (ih hc.name.skipBlank.advance.skipBlank)
  | mixin _ hat _ ih => exact fun hc => reread_mixin hat hc (ih (hc.behindMark g))
  | noEntries _ => exact reread_noEntries
  | entries _ _ has ih ih' =>
      intro hc
      have ha := ih hc
      rcases ha.cut with ⟨b, hcut⟩
      exact reread_entries ha (ih' (lexed_of_entries hcut has))
  | childElement he ih =>
      exact fun _ b hc => reread_childElement (ih (lexed_of_isAt (by decide) he.isAt_of_element hc))
  | @insertion c c' ss hat _ ih =>
      intro _ b hc
      have hlexed : c.Lexed := by
        cases g with
        | sigil => exact lexed_of_isAt (by decide) hat hc
        | brace => exact lexed_of_isAt (by decide) hat hc
      exact reread_insertion hat hlexed (ih (hlexed.behindMark g))
  | comment hx =>
      intro _ b hc
      have hat := (Rule.comment_eq_ok_iff.mp hx).1
      exact reread_comment hx (lexed_of_isAt (by decide) hat hc)
  | text hopen hmark hcomment =>
      exact fun hend b hc => reread_text hopen hmark hcomment hend hc
  | noChildren hend => exact fun b hc => reread_noChildren hend hc
  | children hend _ _ ih ih' => exact fun b hc => reread_children hend hc (ih hend b hc) ih'
  | emptyElement hat hne _ _ ih =>
      intro hc
      have has := ih hc.advance.name.skipBlank
      exact reread_emptyElement hat hne hc has has.lexed.advance
  | @fullElement c c₁ c₂ as xs hat hne _ _ _ hend htag hclose ih ih' =>
      intro hc
      have has := ih hc.advance.name.skipBlank
      have hxs := ih' false (has.lexed.advance.trans (cut_false _).symm)
      -- Without content the canonical text has no last tag.
      cases xs with
      | nil => exact reread_emptyElement hat hne hc has hxs.lexed.advance.name.advance
      | cons x xs => exact reread_fullElement hat hne hc has hxs hend htag hclose

/-- Printing a tree that was read and reading it again gives the tree back, up
    to locations. -/
theorem parseSource_canonical (g : Grammar) (s : List Char) (r : Root) (h : parseSource g s = .ok r) :
    ∃ r', parseSource g (r.canonical g) = .ok r' ∧ r'.unplaced = r.unplaced := by
  rcases parse_eq_ok_iff.mp h with ⟨ps, c', hps, rfl⟩
  have hc : (Cursor.ofTexts ((tokenize s).map Fragment.text)).Lexed :=
    Cursor.lexed_of_unread (Cursor.unread_ofTexts s)
  have hreread := hps.reread.1 (by decide) hc
  have hcanon : Root.canonical g { segments := (Run.extend { loc := {} } ps).flush.segments } =
      canonicalPieces g ps ++ [] := by
    rw [Root.canonical, Run.canonicalCode_flush, Run.canonical_extend, List.append_nil]
    rfl
  have hnil : Alike c'.rest [] := by
    rw [Cursor.rest_of_eof hps.pieces_end]
    exact Alike.nil
  rcases hreread.again [] hnil _ (Cursor.unread_ofTexts _) with ⟨qs, d', hqs, hflow, _⟩
  refine ⟨_, parse_eq_ok_iff.mpr ⟨qs, d', ?_, rfl⟩, ?_⟩
  · rw [hcanon]
    exact hqs
  · exact congrArg Root.mk (Run.unplaced_segments hflow {} {})

/-- A source where a slash is cut off a star, and whose canonical text has
    other spaces. -/
theorem parseSource_canonical_star :
    ∃ r r' : Root,
      parseSource .sigil
        ['<', 'a', '\n', 'x', '=', '"', '1', '"', '>', '@', 'b', '*', '/', '>', '<', '/', 'a',
          '>'] = .ok r ∧
      r.canonical .sigil =
        ['<', 'a', ' ', 'x', '=', '"', '1', '"', ' ', '>', '@', 'b', '*', '/', '>', '<', '/', 'a',
          '>'] ∧
      parseSource .sigil (r.canonical .sigil) = .ok r' ∧ r'.unplaced = r.unplaced := by
  have h : parseSource .sigil
      ['<', 'a', '\n', 'x', '=', '"', '1', '"', '>', '@', 'b', '*', '/', '>', '<', '/', 'a', '>'] =
      .ok ⟨[.element (.mk ['a'] [.fixed ['x'] ['"', '1', '"']]
        [.insertion [.text ['b', '*'] ⟨1, 7, 10⟩] ⟨1, 6, 9⟩, .text ['/', '>']] ⟨0, 0, 0⟩)]⟩ := by
    decide +kernel
  rcases parseSource_canonical _ _ _ h with ⟨r', hr', heq⟩
  exact ⟨_, r', h, by decide +kernel, hr', heq⟩

end Inlay
