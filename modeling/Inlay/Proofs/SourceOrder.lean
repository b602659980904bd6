import Inlay.Proofs.Placement
import Inlay.Proofs.Termination

/-!
# The Order of a Walk

The walk of a tree that was read follows the source. Of any two nodes that
keep their place, the one that comes first in the walk begins first, and what
it begins with is over where the other one begins: the text of a segment, the
bracket and the name of an element, the name of an attribute, the mark of a
mixin or an insertion. The texts of a tree are therefore disjoint.

In the grammar of signs no two nodes begin at one place, since all that nodes
begin with takes up room. Between braces a segment may be empty, and the node
behind it then begins where the segment does.

What is kept along a derivation is that the nodes of a phrase fit between the
offsets of its two cursors (`Ordered`), so that the nodes of one phrase come
in front of those of the next. A run fits up to where its pending text begins,
and this text reaches up to the cursor.

## Main definitions

* `Ordered`: Nodes that fit between two offsets, one behind the other.
* `Run.Ordered`: A run that fits between an offset and a cursor.
* `Phrase.Ordered`: A phrase that fits between two cursors.

## Theorems

* `Ordered.append`: Nodes that fit in front of others.
* `Ordered.pairwise`: What is over where a later node begins.
* `Derives.ordered`: What is read fits between where reading began and ended.
* `parse_walk_ordered`: The walk of a tree follows the source.
-/

namespace Inlay

/-! ### Nodes between two offsets -/

/-- Nodes that fit between two offsets. Each that keeps its place begins behind
    what the one before it begins with, and in the grammar of signs each begins
    with something. -/
inductive Ordered (g : Grammar) : Int → List Node → Int → Prop where
  | nil {lo hi : Int} : lo ≤ hi → Ordered g lo [] hi
  | free {lo hi : Int} {n : Node} {ns : List Node} :
    n.loc? = none → Ordered g lo ns hi → Ordered g lo (n :: ns) hi
  | located {lo hi : Int} {n : Node} {ns : List Node} {loc : Location} :
    n.loc? = some loc → lo ≤ loc.pos → (g = .sigil → n.opening g ≠ []) →
      Ordered g (loc.pos + (n.opening g).length) ns hi → Ordered g lo (n :: ns) hi

namespace Ordered

variable {g : Grammar} {lo lo' mid hi hi' : Int} {ns ms : List Node}

/-- What fits between two offsets fits between any around them. -/
theorem widen (h : Ordered g lo ns hi) (hlo : lo' ≤ lo) (hhi : hi ≤ hi') :
    Ordered g lo' ns hi' := by
  induction h generalizing lo' with
  | nil hle => exact .nil (by omega)
  | free hloc _ ih => exact .free hloc (ih hlo hhi)
  | located hloc hle hne _ ih => exact .located hloc (by omega) hne (ih (Int.le_refl _) hhi)

/-- Nodes that fit in front of others. -/
theorem append (h : Ordered g lo ns mid) (h' : Ordered g mid ms hi) :
    Ordered g lo (ns ++ ms) hi := by
  induction h with
  | nil hle => exact h'.widen hle (Int.le_refl _)
  | free hloc _ ih => exact .free hloc (ih h')
  | located hloc hle hne _ ih => exact .located hloc hle hne (ih h')

/-- A node that keeps no place fits anywhere. -/
theorem free_singleton {n : Node} (hloc : n.loc? = none) (hle : lo ≤ hi) : Ordered g lo [n] hi :=
  .free hloc (.nil hle)

/-- Every node begins behind the lower offset. -/
theorem lower (h : Ordered g lo ns hi) {m : Node} (hm : m ∈ ns) {b : Location}
    (hb : m.loc? = some b) : lo ≤ b.pos := by
  induction h with
  | nil _ => cases hm
  | free hloc _ ih =>
      rcases List.mem_cons.mp hm with rfl | hm
      · rw [hloc] at hb
        cases hb
      · exact ih hm
  | located hloc hle _ _ ih =>
      rcases List.mem_cons.mp hm with rfl | hm
      · rw [hloc, Option.some.injEq] at hb
        rwa [← hb]
      · have hbehind := ih hm
        omega

/-- What a node begins with is over where a later one begins, and in the
    grammar of signs it is not nothing. -/
theorem pairwise (h : Ordered g lo ns hi) :
    ns.Pairwise fun n m => ∀ a b : Location, n.loc? = some a → m.loc? = some b →
      a.pos + (n.opening g).length ≤ b.pos ∧ (g = .sigil → n.opening g ≠ []) := by
  induction h with
  | nil _ => exact List.Pairwise.nil
  | free hloc _ ih =>
      refine List.pairwise_cons.mpr ⟨fun m _ a b ha => ?_, ih⟩
      rw [hloc] at ha
      cases ha
  | located hloc _ hne hrest ih =>
      refine List.pairwise_cons.mpr ⟨fun m hm a b ha hb => ⟨?_, hne⟩, ih⟩
      rw [hloc, Option.some.injEq] at ha
      rw [← ha]
      exact hrest.lower hm hb

end Ordered

/-! ### Offsets of cursors -/

namespace Cursor

variable {c : Cursor} {t : List Char}

theorem pos_skipBlank (c : Cursor) : c.loc.pos ≤ c.skipBlank.loc.pos := by
  rcases c.rest_skipBlank with ⟨blank, _, hrest⟩
  have hpos := Counts.pos_eq (Counts.skipBlank rfl) hrest
  omega

theorem pos_pastName (c : Cursor) : c.loc.pos + c.name.length ≤ c.pastName.loc.pos := by
  rcases c.rest_pastName with ⟨blank, _, hrest⟩
  have hpos := Counts.pos_eq (Counts.pastName rfl) hrest.symm
  rw [List.length_append] at hpos
  omega

theorem pos_pastSign (c : Cursor) : c.loc.pos ≤ c.pastSign.loc.pos := by
  have hadvance := c.pos_advance
  have hskip := c.advance.pos_skipBlank
  unfold pastSign
  omega

/-- The current fragment is the only one that it is. -/
theorem current_of_isAt (h : c.isAt [t] = true) : c.current = t :=
  List.mem_singleton.mp (isAt_iff.mp h).2

end Cursor

/-- Reading never goes back. -/
theorem Derives.pos_le {g : Grammar} {c c' : Cursor} {p : Phrase} (h : Derives g c p c') :
    c.loc.pos ≤ c'.loc.pos := by
  have hcount : c'.Counts (c.loc.pos + c.size) := h.counts rfl
  have hsize := h.size_le
  unfold Cursor.Counts at hcount
  omega

theorem Verbatim.pos_eq {g : Grammar} {z : Zone} {c c' : Cursor} {t : List Char}
    (h : Verbatim z c t c') : c'.loc.pos = c.loc.pos + t.length :=
  Cursor.Counts.pos_eq ((Derives.verbatim (g := g) h).counts rfl) h.rest

namespace Grammar

/-- The offset from which the code behind a mark is kept: between braces, the
    opening mark belongs to the code and is left out of it. -/
def codePos : Grammar → Cursor → Int
  | sigil, c => c.loc.pos
  | brace, c => c.loc.pos + c.current.length

theorem le_codePos (g : Grammar) (c : Cursor) : c.loc.pos ≤ g.codePos c := by
  cases g with
  | sigil => exact Int.le_refl _
  | brace =>
      simp only [codePos]
      omega

/-- Behind a mark the code is kept from the end of the mark. -/
theorem codePos_behindMark (g : Grammar) (c : Cursor) :
    g.codePos (g.behindMark c) = c.loc.pos + c.current.length := by
  cases g with
  | sigil => exact c.pos_advance
  | brace => rfl

theorem insertionMark_ne_nil (g : Grammar) : g.insertionMark ≠ [] := by
  cases g <;> decide

theorem mixinMark_ne_nil (g : Grammar) : g.mixinMark ≠ [] := by
  cases g <;> decide

end Grammar

/-! ### Runs -/

namespace Run

/-- The finished segments of a run fit between an offset and its pending text,
    which reaches up to the cursor. -/
structure Ordered (g : Grammar) (lo : Int) (c : Cursor) (r : Run) : Prop where
  nodes : Inlay.Ordered g lo (walkCode r.segments) r.loc.pos
  text : r.loc.pos + r.text.length = c.loc.pos

variable {g : Grammar} {lo : Int} {c c' : Cursor} {r : Run}

/-- A run that is begun at the cursor. -/
theorem Ordered.start (g : Grammar) (c : Cursor) : Run.Ordered g c.loc.pos c { loc := c.loc } :=
  ⟨.nil (Int.le_refl _), Int.add_zero _⟩

theorem Ordered.append {t : List Char} (h : r.Ordered g lo c)
    (hpos : c'.loc.pos = c.loc.pos + t.length) : (r.append t).Ordered g lo c' := by
  refine ⟨h.nodes, ?_⟩
  have htext := h.text
  simp only [Run.append, List.length_append]
  omega

/-- The segments of a run fit also when its pending text is closed early. In
    the grammar of signs there has to be some. -/
theorem Ordered.closed {t : List Char} (h : (r.append t).Ordered g lo c)
    (hne : g = .sigil → r.text ≠ []) : Inlay.Ordered g lo (walkCode r.closed) c.loc.pos := by
  have htext := h.text
  simp only [Run.append, List.length_append] at htext
  rw [Run.closed, walkCode_append]
  refine h.nodes.append (.located rfl (Int.le_refl _) hne (.nil ?_))
  simp only [Node.opening]
  omega

theorem Ordered.flush (h : r.Ordered g lo c) :
    Inlay.Ordered g lo (walkCode r.flush.segments) c.loc.pos := by
  have htext := h.text
  by_cases hnone : r.text = []
  · rw [flush_of_none hnone]
    exact h.nodes.widen (Int.le_refl _) (by omega)
  · rw [flush_of_text hnone]
    exact (h.append (t := []) (Int.add_zero _).symm).closed fun _ => hnone

/-- Behind an inlaid element the run goes on at the cursor. -/
theorem Ordered.inlay {e : Element} (h : r.Ordered g lo c)
    (he : Inlay.Ordered g c.loc.pos e.walk c'.loc.pos) :
    (r.inlay e c'.loc).Ordered g lo c' := by
  refine ⟨?_, ?_⟩
  · rw [Run.inlay, walkCode_append]
    refine h.flush.append ?_
    rwa [walkCode, walkCode, List.append_nil]
  · rw [Run.inlay, r.text_flush]
    exact Int.add_zero _

end Run

/-! ### Phrases -/

/-- The nodes of a phrase that is read from `c` to `c'` fit between the two;
    the pieces of code do so behind any run that reaches up to `c`. -/
def Phrase.Ordered (g : Grammar) (c : Cursor) : Phrase → Cursor → Prop
  | .piece _ ps, c' => ∀ lo r, Run.Ordered g lo c r → Run.Ordered g lo c' (r.extend ps)
  | .pieces _ ps, c' => ∀ lo r, Run.Ordered g lo c r → Run.Ordered g lo c' (r.extend ps)
  | .group ps, c' => ∀ lo r, Run.Ordered g lo c r → Run.Ordered g lo c' (r.extend ps)
  | .code ss, c' => Inlay.Ordered g (g.codePos c) (walkCode ss) c'.loc.pos
  | .entry a, c' => Inlay.Ordered g c.loc.pos a.walk c'.loc.pos
  | .entries as, c' => Inlay.Ordered g c.loc.pos (walkAttributes as) c'.loc.pos
  | .child x, c' => Inlay.Ordered g c.loc.pos x.walk c'.loc.pos
  | .children xs, c' => Inlay.Ordered g c.loc.pos (walkContent xs) c'.loc.pos
  | .element e, c' => Inlay.Ordered g c.loc.pos e.walk c'.loc.pos

/-- Code between braces fits between where its opening mark ends and where it
    is over. -/
theorem ordered_unbraced {mark : List Char} {loc : Location} {c' : Cursor} {qs : List Piece}
    (hmark : mark ≠ [])
    (h : (Run.extend { loc } (.text mark :: qs ++ [.text ['}']])).Ordered .brace loc.pos c') :
    Ordered .brace (loc.pos + mark.length)
      (walkCode (Rule.unbraced mark.length
        (Run.extend { loc } (.text mark :: qs ++ [.text ['}']])))) c'.loc.pos := by
  rcases Rule.unbraced_group hmark loc qs '}' with ⟨u, rest, hrun, hcode⟩
  rw [Run.extend_group] at h
  have hnodes := h.closed (fun hsigil => nomatch hsigil)
  rw [hrun, walkCode] at hnodes
  rw [hcode, walkCode]
  -- The first text begins behind the mark and ends where it did.
  cases hnodes with
  | free hloc _ => cases hloc
  | located hloc _ _ hrest =>
      cases hloc
      refine .located rfl (Int.le_refl _) (fun hsigil => nomatch hsigil) ?_
      refine hrest.widen ?_ (Int.le_refl _)
      simp only [Node.opening, Location.shifted, List.length_append]
      omega

/-- A node in front of its code, which is kept from where the node's mark ends. -/
theorem ordered_marked {g : Grammar} {c : Cursor} {n : Node} {ss : Code} {hi : Int}
    (hloc : n.loc? = some c.loc) (hopen : n.opening g = c.current) (hne : c.current ≠ [])
    (h : Ordered g (g.codePos (g.behindMark c)) (walkCode ss) hi) :
    Ordered g c.loc.pos (n :: .code ss :: walkCode ss) hi := by
  refine .located hloc (Int.le_refl _) (fun _ => by rwa [hopen]) (.free rfl ?_)
  rwa [hopen, ← g.codePos_behindMark c]

/-- An element in front of what it holds, which begins behind its name. -/
theorem ordered_element {g : Grammar} {c : Cursor} {as : List Attribute} {xs : List Child}
    {hi : Int} (hat : c.isAt [['<']] = true)
    (h : Ordered g c.advance.pastName.loc.pos (walkAttributes as ++ walkContent xs) hi) :
    Ordered g c.loc.pos (Element.mk c.advance.name as xs c.loc).walk hi := by
  rw [Element.walk]
  refine .located rfl (Int.le_refl _) (fun _ => List.cons_ne_nil _ _) (h.widen ?_ (Int.le_refl _))
  have hadvance := c.pos_advance
  have hname := c.advance.pos_pastName
  rw [Cursor.current_of_isAt hat] at hadvance
  simp only [Node.opening, Element.tag, Element.loc, List.length_cons, List.length_nil]
    at hadvance ⊢
  omega

/-- What is read fits between where reading began and where it ended. -/
theorem Derives.ordered {g : Grammar} {c c' : Cursor} {p : Phrase} (h : Derives g c p c') :
    p.Ordered g c c' := by
  induction h with
  | verbatim hv => exact fun lo r hr => hr.append (hv.pos_eq (g := g))
  | inlay _ _ ih => exact fun lo r hr => hr.inlay ih
  | nest _ _ ih => exact ih
  | noPieces _ => exact fun lo r hr => hr
  | pieces _ _ _ ihpass ihrest =>
      intro lo r hr
      rw [Run.extend_append]
      exact ihrest lo _ (ihpass lo r hr)
  | @group c c₁ close ps _ _ _ ih =>
      intro lo r hr
      rw [List.cons_append, Run.extend_cons, Run.extend_append]
      -- Both delimiters are text of the run, around what they enclose.
      exact (ih lo _ (hr.append c.pos_advance)).append c₁.pos_advance
  | @openCode c c' ps hg _ _ ih =>
      subst hg
      exact (ih _ _ (Run.Ordered.start .sigil c)).flush
  | @bracedCode c c' ps hg hat hgroup ih =>
      subst hg
      have hrun := ih _ _ (Run.Ordered.start .brace c)
      rcases hgroup.group_inv with ⟨close, qs, c₁, hclose, _, _, rfl, rfl⟩
      rw [Derives.closer?_of_brace hat hclose] at hrun ⊢
      exact ordered_unbraced (Cursor.current_ne_nil (Cursor.eof_of_isAt hat)) hrun
  | @bare c hid hsign => exact .free_singleton rfl (Derives.bare (g := g) hid hsign).pos_le
  | quoted hid hsign hv => exact .free_singleton rfl (Derives.quoted (g := g) hid hsign hv).pos_le
  | @computed c c' ss hid _ _ _ _ ih =>
      refine .located rfl (Int.le_refl _) (fun _ => Cursor.name_ne_nil_iff.mpr hid) (.free rfl ?_)
      refine ih.widen ?_ (Int.le_refl _)
      have hname := c.pos_pastName
      have hsign := c.pastName.pos_pastSign
      have hcode := g.le_codePos c.pastName.pastSign
      simp only [Node.opening]
      omega
  | @mixin c c' ss _ hat _ ih =>
      have hcur := Cursor.current_of_isAt hat
      exact ordered_marked rfl hcur.symm (by rw [hcur]; exact g.mixinMark_ne_nil) ih
  | noEntries _ => exact .nil (Int.le_refl _)
  | @entries c c₁ c' a as _ _ _ ihentry ihrest =>
      exact ihentry.append (ihrest.widen c₁.pos_skipBlank (Int.le_refl _))
  | childElement _ ih => exact ih
  | @insertion c c' ss hat _ ih =>
      have hcur := Cursor.current_of_isAt hat
      exact ordered_marked rfl hcur.symm (by rw [hcur]; exact g.insertionMark_ne_nil) ih
  | @comment c c' x hcom =>
      have hle := (Derives.comment (g := g) hcom).pos_le
      rcases Rule.rest_comment hcom with ⟨body, rfl, _⟩
      exact .free_singleton rfl hle
  | text hopen hmark hcom => exact .free_singleton rfl (Derives.text hopen hmark hcom).pos_le
  | noChildren _ => exact .nil (Int.le_refl _)
  | children _ _ _ ihchild ihrest => exact ihchild.append ihrest
  | @emptyElement c c₁ as hat _ _ _ ih =>
      refine ordered_element hat (ih.append (.nil ?_))
      have hclose := c₁.pos_advance
      omega
  | @fullElement c c₁ c₂ as xs hat _ _ _ hxs hend htag hlast ihas ihxs =>
      -- The content begins behind the tag, and the end tag behind the content.
      have hclose := c₁.pos_advance
      have hopen := c₂.pos_advance
      have hname := Cursor.Counts.pos_eq (Cursor.Counts.split rfl Pattern.identifier)
        (c₂.advance.rest_split Pattern.identifier)
      have hlast := (c₂.advance.split Pattern.identifier).2.pos_advance
      exact ordered_element hat
        (ihas.append (ihxs.widen (by omega) (by omega)))

/-! ### Whole sources -/

/-- The walk of a tree follows the source. Of two nodes that keep their place
    the first begins first, strictly so in the grammar of signs. The text of a
    segment, and the bracket and the name of an element, are over where any
    later node begins. -/
theorem parse_walk_ordered (g : Grammar) (fragments : List (List Char)) (r : Root)
    (h : parse g fragments = .ok r) :
    r.walk.Pairwise fun n m => ∀ a b : Location, n.loc? = some a → m.loc? = some b →
      a.pos ≤ b.pos ∧ (g = .sigil → a.pos < b.pos) ∧
        (∀ t loc, n = .segment t loc → a.pos + t.length ≤ b.pos) ∧
        (∀ e, n = .element e → a.pos + 1 + e.tag.length ≤ b.pos) := by
  rcases parse_eq_ok_iff.mp h with ⟨ps, c', hps, rfl⟩
  have hrun := hps.ordered _ _ (Run.Ordered.start g _)
  refine hrun.flush.pairwise.imp fun {n m} hnm a b ha hb => ?_
  rcases hnm a b ha hb with ⟨hle, hne⟩
  refine ⟨by omega, fun hg => ?_, ?_, ?_⟩
  · have hpos := List.length_pos_iff.mpr (hne hg)
    omega
  · rintro t loc rfl
    exact hle
  · rintro e rfl
    simp only [Node.opening, List.length_cons] at hle
    omega

/-- Between braces the empty segment in front of an element begins where the
    element does. -/
theorem parse_walk_ordered_empty :
    ∃ r : Root,
      parse .brace [['<'], ['p'], ['>'], ['{'], ['<'], ['i'], ['/', '>'], ['}'], ['<', '/'], ['p'],
        ['>']] = .ok r ∧
      r.walk.filterMap Node.loc? =
        [⟨0, 0, 0⟩, ⟨0, 3, 3⟩, ⟨0, 4, 4⟩, ⟨0, 4, 4⟩, ⟨0, 8, 8⟩] ∧
      r.walk.Pairwise fun n m => ∀ a b : Location, n.loc? = some a → m.loc? = some b →
        a.pos ≤ b.pos ∧ (∀ t loc, n = .segment t loc → a.pos + t.length ≤ b.pos) ∧
          (∀ e, n = .element e → a.pos + 1 + e.tag.length ≤ b.pos) := by
  refine ⟨⟨[.element (.mk ['p'] [] [.insertion
    [.text [] ⟨0, 4, 4⟩, .element (.mk ['i'] [] [] ⟨0, 4, 4⟩), .text [] ⟨0, 8, 8⟩]
    ⟨0, 3, 3⟩] ⟨0, 0, 0⟩)]⟩, ?_, ?_, ?_⟩
  · decide +kernel
  · decide +kernel
  · refine (parse_walk_ordered .brace
      [['<'], ['p'], ['>'], ['{'], ['<'], ['i'], ['/', '>'], ['}'], ['<', '/'], ['p'], ['>']] _
      (by decide +kernel)).imp fun {n m} h a b ha hb => ?_
    rcases h a b ha hb with ⟨hle, _, htext, helement⟩
    exact ⟨hle, htext, helement⟩

end Inlay
