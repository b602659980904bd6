import Inlay.Proofs.Framing
import Inlay.Proofs.Lexing
import Inlay.Tree.Equality
import Inlay.Tree.Walk

/-!
# Where the Nodes of a Tree Stand

Every location in a tree is exact: it is the line, the column and the offset
of a place in the source, and what begins at that place is the node itself.

The location of a cursor follows the text that is passed, and it does so in
two ways, along the line and to the next line. Both are right only because of
how a source is cut: a fragment is a line break, or it holds none. That every
unread fragment is of this kind is therefore part of what is kept along a
derivation (`Cursor.Placed`), and it also survives the cutting of fragments,
since no stretch that is peeled off holds a line break.

A run remembers where its pending text begins while delimiters nest and
elements are inlaid. What is kept of it is that the pending text stands at its
location and reaches up to the cursor (`Run.Placed`). Code between braces is
shifted by the length of its opening mark afterwards, and the mark stands on
one line.

## Main definitions

* `Location.behind`: The line, column and offset behind some text.
* `Stands`: A text stands at a location of a source.
* `Node.opening`: The text that a node begins with.
* `Cursor.Placed`, `Run.Placed`, `Phrase.Placed`: What a derivation keeps.

## Theorems

* `Location.behind_append`, `Location.behind_line`: Passing text.
* `Cursor.Placed.passes`, `Cursor.Placed.split`, `Cursor.Placed.skipBlank`:
  Moving a cursor.
* `Derives.placed`: The nodes of a phrase stand where they say.
* `parseSource_placed`: The nodes of a tree stand where they say.
-/

namespace Inlay

/-! ### Locations -/

/-- The offset just behind the last line break of a text, zero without one. -/
def lineStart (before : List Char) : Nat :=
  before.length - before.reverse.idxOf '\n'

/-- The line, column and offset of the place behind some text. -/
def Location.behind (before : List Char) : Location :=
  { line := before.count '\n', col := before.length - lineStart before, pos := before.length }

/-- A text stands at a location of a source. -/
def Stands (s : List Char) (loc : Location) (t : List Char) : Prop :=
  ∃ before after, s = before ++ (t ++ after) ∧ loc = Location.behind before

theorem lineStart_append {before t : List Char} (ht : '\n' ∉ t) :
    lineStart (before ++ t) = lineStart before := by
  unfold lineStart
  rw [List.reverse_append, List.idxOf_append, if_neg (by rw [List.mem_reverse]; exact ht),
    List.length_append, List.length_reverse]
  omega

theorem lineStart_line (before : List Char) :
    lineStart (before ++ ['\n']) = before.length + 1 := by
  unfold lineStart
  rw [List.reverse_append, List.reverse_singleton, List.singleton_append, List.idxOf_cons_self,
    List.length_append]
  rfl

namespace Location

/-- Text without line breaks moves along the line. -/
theorem behind_append {before t : List Char} (ht : '\n' ∉ t) :
    behind (before ++ t) = (behind before).shifted t.length := by
  unfold behind shifted
  rw [lineStart_append ht, List.count_append, List.count_eq_zero_of_not_mem ht, List.length_append]
  simp only [Location.mk.injEq]
  omega

/-- A line break moves to the next line. -/
theorem behind_line (before : List Char) :
    behind (before ++ ['\n']) = (behind before).nextLine := by
  unfold behind nextLine
  rw [lineStart_line, List.count_append, List.length_append]
  simp only [List.count_singleton_self, List.length_singleton, Location.mk.injEq]
  omega

end Location

/-- A fragment that stands on one line, or is the break between two. -/
def Fragment.Single (f : Fragment) : Prop :=
  f.text = ['\n'] ∨ '\n' ∉ f.text

theorem Location.behind_past {f : Fragment} (hf : f.Single) (before : List Char) :
    (Location.behind before).past f = Location.behind (before ++ f.text) := by
  unfold Location.past
  by_cases hbreak : f.text = ['\n']
  · rw [if_pos hbreak, hbreak, Location.behind_line]
  · rw [if_neg hbreak, Location.behind_append (hf.resolve_left hbreak), Fragment.length_text]

/-! ### Cursors -/

/-- A cursor of a source: it stands at its location, and what it has not read
    is cut into fragments that are line breaks or hold none. -/
structure Cursor.Placed (s : List Char) (c : Cursor) : Prop where
  place : ∃ before, s = before ++ c.rest ∧ c.loc = Location.behind before
  single : ∀ f ∈ c.unread, f.Single

namespace Cursor

variable {s : List Char} {c c' : Cursor}

/-- What is unread begins with what stands at the cursor. -/
theorem Placed.stands {t k : List Char} (h : c.Placed s) (hrest : c.rest = t ++ k) :
    Stands s c.loc t := by
  rcases h.place with ⟨before, hs, hloc⟩
  exact ⟨before, k, by rw [hs, hrest], hloc⟩

/-- A cursor that stepped past fragments stands behind them. -/
theorem Placed.passes {fs : List Fragment} (h : c.Placed s) (hpass : c.Passes fs c') :
    c'.Placed s := by
  rcases h.place with ⟨before, hs, hloc⟩
  rcases hpass with ⟨hunread, hloc'⟩
  -- Each fragment moves the place behind `before` to behind its own text.
  have hfold : ∀ (fs : List Fragment) before, (∀ f ∈ fs, f.Single) →
      fs.foldl Location.past (Location.behind before) =
        Location.behind (before ++ fs.flatMap Fragment.text) := by
    intro fs
    induction fs with
    | nil =>
        intro before _
        rw [List.flatMap_nil, List.append_nil]
        rfl
    | cons f fs ih =>
        intro before hsingle
        rw [List.foldl_cons, Location.behind_past (hsingle f List.mem_cons_self),
          ih _ (fun f hf => hsingle f (List.mem_cons_of_mem _ hf)), List.flatMap_cons,
          List.append_assoc]
  refine ⟨⟨before ++ fs.flatMap Fragment.text, ?_, ?_⟩, ?_⟩
  · rw [hs, rest, hunread, List.flatMap_append, List.append_assoc]
    rfl
  · rw [hloc', hloc]
    refine hfold fs before fun f hf => h.single f ?_
    rw [hunread]
    exact List.mem_append_left _ hf
  · intro f hf
    refine h.single f ?_
    rw [hunread]
    exact List.mem_append_right _ hf

theorem Placed.advance (h : c.Placed s) : c.advance.Placed s := by
  rcases c.passes_advance with ⟨fs, hpass⟩
  exact h.passes hpass

/-- A cursor stands behind what was peeled off, if that is on one line. -/
theorem Placed.split {p : Pattern} (h : c.Placed s) (hline : '\n' ∉ (c.split p).1) :
    (c.split p).2.Placed s := by
  rcases h.place with ⟨before, hs, hloc⟩
  refine ⟨⟨before ++ (c.split p).1, ?_, ?_⟩, ?_⟩
  · rw [List.append_assoc, rest_split, hs]
  · rw [loc_split, hloc, Location.behind_append hline]
  · intro f hf
    cases hunread : c.unread with
    | nil =>
        have hsame : (c.split p).2 = c := by rw [Cursor.split, hunread]
        rw [hsame] at hf
        exact h.single f hf
    | cons f' fs =>
        rw [unread_split_cons p hunread] at hf
        rcases List.mem_append.mp hf with hf | hf
        · -- What is left of the fragment is the fragment, or holds no break.
          have htext : f.text = f'.text.drop (c.split p).1.length := by
            cases hleft : f'.text.drop (c.split p).1.length with
            | nil =>
                rw [hleft] at hf
                cases hf
            | cons x xs =>
                rw [hleft] at hf
                rw [List.mem_singleton.mp hf]
                rfl
          rcases h.single f' (by rw [hunread]; exact List.mem_cons_self) with hbreak | hno
          · have hnil : (c.split p).1 = [] := by
              rw [split_fst, current, hunread] at hline ⊢
              simp only at hline ⊢
              rw [hbreak] at hline ⊢
              cases hn : (p ['\n']).getD 0 with
              | zero => rfl
              | succ n =>
                  rw [hn] at hline
                  exact absurd List.mem_cons_self hline
            rw [hnil] at htext
            exact Or.inl (htext.trans hbreak)
          · refine Or.inr fun hmem => hno ?_
            rw [htext] at hmem
            exact List.mem_of_mem_drop hmem
        · refine h.single f ?_
          rw [hunread]
          exact List.mem_cons_of_mem _ hf

theorem Placed.name (h : c.Placed s) : (c.split Pattern.identifier).2.Placed s := by
  refine h.split ?_
  rw [← Cursor.name]
  by_cases hne : c.name = []
  · rw [hne]
    exact List.not_mem_nil
  · intro hmem
    exact absurd ((isName_name hne).mem _ hmem) (by decide)

/-- Blank space that is passed is passed as line breaks and as stretches of
    lines. -/
theorem Placed.skipBlank (h : c.Placed s) : c.skipBlank.Placed s := by
  rcases c with ⟨unread, index, loc⟩
  unfold Cursor.skipBlank
  simp only
  induction unread generalizing index loc with
  | nil => exact ⟨h.place, h.single⟩
  | cons f fs ih =>
      have hnext := h.advance
      have hsingle := h.single f List.mem_cons_self
      simp only [Cursor.advance, Location.past] at hnext
      simp only [skipBlankFrom]
      by_cases hbreak : f.text = ['\n']
      · rw [if_pos hbreak] at hnext ⊢
        exact ih _ _ hnext
      · rw [if_neg hbreak] at hnext ⊢
        cases hleft : f.text.dropWhile Text.isBlank with
        | nil => exact ih _ _ hnext
        | cons x xs =>
            -- Passing the blank part of a fragment is peeling it off.
            have hcut := List.takeWhile_append_dropWhile (p := Text.isBlank) (l := f.text)
            have hno := hsingle.resolve_left hbreak
            rw [hleft] at hcut
            rw [← hcut] at hno
            rcases h.place with ⟨before, hs, hloc⟩
            simp only at hloc
            refine ⟨⟨before ++ f.text.takeWhile Text.isBlank, ?_, ?_⟩, ?_⟩
            · have hjoin : f.text ++ fs.flatMap Fragment.text =
                  f.text.takeWhile Text.isBlank ++ (x :: xs ++ fs.flatMap Fragment.text) := by
                rw [← List.append_assoc, hcut]
              rw [hs, rest_cons, rest_cons, List.append_assoc, hjoin]
              rfl
            · rw [hloc, Location.behind_append (fun hmem => hno (List.mem_append_left _ hmem))]
            · intro f' hf'
              rcases List.mem_cons.mp hf' with rfl | hf'
              · exact Or.inr fun hmem => hno (List.mem_append_right _ hmem)
              · exact h.single f' (List.mem_cons_of_mem _ hf')

/-- The tag of an element stands where the element begins. -/
theorem Placed.stands_element (h : c.Placed s) (hat : c.isAt [['<']] = true) :
    Stands s c.loc ('<' :: c.advance.name) := by
  rcases c.advance.rest_pastName with ⟨w, _, hrest⟩
  rw [List.append_assoc] at hrest
  refine h.stands (k := w ++ c.advance.pastName.rest) ?_
  rw [rest_of_isAt hat, hrest]
  rfl

theorem Placed.pastName (h : c.Placed s) : c.pastName.Placed s :=
  h.name.skipBlank

theorem Placed.pastSign (h : c.Placed s) : c.pastSign.Placed s :=
  h.advance.skipBlank

end Cursor

theorem Cursor.Placed.behindMark {s : List Char} {c : Cursor} (h : c.Placed s) (g : Grammar) :
    (g.behindMark c).Placed s := by
  cases g with
  | sigil => exact h.advance
  | brace => exact h

/-- A cursor stands behind the text that was taken over. -/
theorem Cursor.Placed.verbatim {s : List Char} {z : Zone} {c c' : Cursor} {t : List Char}
    (h : c.Placed s) (hv : Verbatim z c t c') : c'.Placed s := by
  rcases hv.passes with ⟨fs, hpass⟩ | rfl
  · exact h.passes hpass
  · refine h.split fun hmem => ?_
    exact absurd (c.mem_codeStretch _ hmem) (by decide)

/-! ### Nodes -/

/-- The text that a node begins with, for the kinds that keep their place. -/
def Node.opening (g : Grammar) : Node → List Char
  | .segment t _ => t
  | .element e => '<' :: e.tag
  | .computed name _ _ => name
  | .mixin _ _ => g.mixinMark
  | .insertion _ _ => g.insertionMark
  | .root _ | .text _ | .comment _ | .fixed _ _ | .code _ => []

/-- A node that begins where it says it does, if it says so. -/
def Node.Placed (g : Grammar) (s : List Char) (n : Node) : Prop :=
  ∀ loc, n.loc? = some loc → Stands s loc (n.opening g)

/-- A node that stands at its own place is placed. -/
theorem Node.Placed.of_stands {g : Grammar} {s : List Char} {n : Node} {loc : Location}
    (hloc : n.loc? = some loc) (h : Stands s loc (n.opening g)) : n.Placed g s := by
  intro loc' hloc'
  rw [← Option.some.inj (hloc.symm.trans hloc')]
  exact h

/-- Code that keeps no place of its own is placed. -/
theorem Node.placed_code (g : Grammar) (s : List Char) (ss : Code) : (Node.code ss).Placed g s := by
  intro loc hloc
  cases hloc

theorem walkCode_append (ss ss' : Code) : walkCode (ss ++ ss') = walkCode ss ++ walkCode ss' := by
  induction ss with
  | nil => rfl
  | cons x ss ih => rw [List.cons_append, walkCode, ih, walkCode, List.append_assoc]

/-! ### Runs -/

/-- The finished segments of a run stand where they say, and its pending text
    stands at its location and reaches up to the cursor. -/
structure Run.Placed (g : Grammar) (s : List Char) (c : Cursor) (r : Run) : Prop where
  nodes : ∀ n ∈ walkCode r.segments, n.Placed g s
  text : ∃ before, s = before ++ (r.text ++ c.rest) ∧ r.loc = Location.behind before

namespace Run

variable {g : Grammar} {s : List Char} {c c' : Cursor} {r : Run}

/-- A run that is begun at the cursor. -/
theorem Placed.start (hc : c.Placed s) : Run.Placed g s c { loc := c.loc } :=
  ⟨fun _ hn => absurd hn List.not_mem_nil, hc.place⟩

theorem Placed.append {t : List Char} (h : r.Placed g s c) (hrest : c.rest = t ++ c'.rest) :
    (r.append t).Placed g s c' := by
  rcases h.text with ⟨before, hs, hloc⟩
  refine ⟨h.nodes, before, ?_, hloc⟩
  rw [hs, hrest, Run.append, List.append_assoc]

/-- The segments of a run are placed, also those that end its pending text
    early. -/
theorem Placed.closed {t : List Char} (h : (r.append t).Placed g s c) :
    ∀ n ∈ walkCode r.closed, n.Placed g s := by
  intro n hn
  rw [Run.closed, walkCode_append] at hn
  rcases List.mem_append.mp hn with hn | hn
  · exact h.nodes n hn
  · rw [List.mem_singleton.mp hn]
    intro loc hloc
    cases hloc
    rcases h.text with ⟨before, hs, hloc⟩
    refine ⟨before, t ++ c.rest, ?_, hloc⟩
    rw [hs, Run.append, List.append_assoc]
    rfl

theorem Placed.flush (h : r.Placed g s c) : ∀ n ∈ walkCode r.flush.segments, n.Placed g s := by
  unfold Run.flush
  by_cases htext : r.text.isEmpty = true
  · rw [if_pos htext]
    exact h.nodes
  · rw [if_neg htext]
    refine Placed.closed (t := []) (c := c) ?_
    exact h.append (by rw [List.nil_append])

/-- Behind an inlaid element the text goes on at the cursor. -/
theorem Placed.inlay {e : Element} (h : r.Placed g s c) (he : ∀ n ∈ e.walk, n.Placed g s)
    (hc' : c'.Placed s) : (r.inlay e c'.loc).Placed g s c' := by
  rcases hc'.place with ⟨before, hs, hloc⟩
  refine ⟨?_, before, ?_, hloc⟩
  · intro n hn
    rw [Run.inlay, walkCode_append] at hn
    rcases List.mem_append.mp hn with hn | hn
    · exact h.flush n hn
    · rw [walkCode, walkCode, List.append_nil] at hn
      exact he n hn
  · rw [hs, Run.inlay, r.text_flush, List.nil_append]

end Run

/-! ### Phrases -/

/-- The nodes of a phrase that is read from `c` to `c'` stand where they say;
    the pieces of code do so in any run that reaches up to `c`. -/
def Phrase.Placed (g : Grammar) (s : List Char) (c : Cursor) : Phrase → Cursor → Prop
  | .piece _ ps, c' => ∀ r : Run, r.Placed g s c → (r.extend ps).Placed g s c'
  | .pieces _ ps, c' => ∀ r : Run, r.Placed g s c → (r.extend ps).Placed g s c'
  | .group ps, c' => ∀ r : Run, r.Placed g s c → (r.extend ps).Placed g s c'
  | .code ss, _ => ∀ n ∈ walkCode ss, n.Placed g s
  | .entry a, _ => ∀ n ∈ a.walk, n.Placed g s
  | .entries as, _ => ∀ n ∈ walkAttributes as, n.Placed g s
  | .child x, _ => ∀ n ∈ x.walk, n.Placed g s
  | .children xs, _ => ∀ n ∈ walkContent xs, n.Placed g s
  | .element e, _ => ∀ n ∈ e.walk, n.Placed g s

/-- A text behind a mark on the same line stands as many characters further. -/
theorem Stands.shifted {s mark t : List Char} {loc : Location} (h : Stands s loc (mark ++ t))
    (hline : '\n' ∉ mark) : Stands s (loc.shifted mark.length) t := by
  rcases h with ⟨before, after, hs, hloc⟩
  refine ⟨before ++ mark, after, ?_, ?_⟩
  · rw [hs, List.append_assoc, List.append_assoc]
  · rw [hloc, Location.behind_append hline]

/-- A node in front of the nodes of its code. -/
theorem placed_cons {g : Grammar} {s : List Char} {n : Node} {ns : List Node} (hn : n.Placed g s)
    (hns : ∀ m ∈ ns, m.Placed g s) : ∀ m ∈ n :: ns, m.Placed g s := by
  intro m hm
  rcases List.mem_cons.mp hm with rfl | hm
  · exact hn
  · exact hns m hm

/-- A node that keeps no place stands wherever it is. -/
theorem placed_unlocated {g : Grammar} {s : List Char} {n : Node} (h : n.loc? = none) :
    ∀ m ∈ [n], m.Placed g s := by
  refine placed_cons (fun loc hloc => ?_) fun m hm => absurd hm List.not_mem_nil
  rw [h] at hloc
  cases hloc

theorem placed_append {g : Grammar} {s : List Char} {ns ms : List Node}
    (hns : ∀ n ∈ ns, n.Placed g s) (hms : ∀ n ∈ ms, n.Placed g s) :
    ∀ n ∈ ns ++ ms, n.Placed g s := by
  intro n hn
  rcases List.mem_append.mp hn with hn | hn
  · exact hns n hn
  · exact hms n hn

/-- The nodes of code between braces stand where they say: the first text is
    shifted by the length of the mark that was cut off it. -/
theorem placed_unbraced {g : Grammar} {s mark : List Char} {loc : Location} {c' : Cursor}
    {qs : List Piece} (hmark : mark ≠ []) (hline : '\n' ∉ mark)
    (h : (Run.extend { loc } (.text mark :: qs ++ [.text ['}']])).Placed g s c') :
    ∀ n ∈ walkCode (Rule.unbraced mark.length
      (Run.extend { loc } (.text mark :: qs ++ [.text ['}']]))), n.Placed g s := by
  rcases Rule.unbraced_group hmark loc qs '}' with ⟨u, rest, hrun, hcode⟩
  rw [Run.extend_group] at h
  have hnodes := h.closed
  rw [hrun, walkCode] at hnodes
  rw [hcode, walkCode]
  refine placed_append (placed_cons ?_ fun n hn => absurd hn List.not_mem_nil)
    fun n hn => hnodes n (List.mem_append_right _ hn)
  have hfirst := hnodes (.segment (mark ++ u) loc) (List.mem_append_left _ (List.mem_singleton_self _))
  intro loc' hloc'
  cases hloc'
  exact (hfirst loc rfl).shifted hline

/-- The nodes of a phrase stand where they say. -/
theorem Derives.placed {g : Grammar} {s : List Char} {c c' : Cursor} {p : Phrase}
    (h : Derives g c p c') (hc : c.Placed s) : c'.Placed s ∧ p.Placed g s c c' := by
  induction h with
  | verbatim hv =>
      exact ⟨hc.verbatim hv, fun r hr => hr.append hv.rest.symm⟩
  | inlay _ _ ih =>
      rcases ih hc with ⟨hc', he⟩
      exact ⟨hc', fun r hr => hr.inlay he hc'⟩
  | nest _ _ ih => exact ih hc
  | noPieces _ => exact ⟨hc, fun r hr => hr⟩
  | pieces _ _ _ ihpass ihrest =>
      rcases ihpass hc with ⟨hc₁, hps⟩
      rcases ihrest hc₁ with ⟨hc', hqs⟩
      refine ⟨hc', fun r hr => ?_⟩
      rw [Run.extend_append]
      exact hqs _ (hps r hr)
  | @group c c₁ close ps _ _ _ ih =>
      rcases ih hc.advance with ⟨hc₁, hps⟩
      refine ⟨hc₁.advance, fun r hr => ?_⟩
      rw [List.cons_append, Run.extend_cons, Run.extend_append]
      -- Both delimiters are text of the run, around what they enclose.
      have hopen : (r.append c.current).Placed g s c.advance :=
        hr.append c.current_append_rest_advance.symm
      exact (hps _ hopen).append c₁.current_append_rest_advance.symm
  | openCode _ _ _ ih =>
      rcases ih hc with ⟨hc', hps⟩
      exact ⟨hc', (hps _ (Run.Placed.start hc)).flush⟩
  | @bracedCode c c' ps _ hat hgroup ih =>
      rcases ih hc with ⟨hc', hps⟩
      have hrun := hps _ (Run.Placed.start hc)
      rcases hgroup.group_inv with ⟨close, qs, c₁, hclose, _, _, rfl, rfl⟩
      rw [Derives.closer?_of_brace hat hclose] at hrun ⊢
      -- The mark is on one line, so the text behind it stands further along.
      have hline : '\n' ∉ c.current := by
        have hmarks : ∀ t ∈ [['{'], Marker.spread], '\n' ∉ t := by decide
        exact hmarks _ (Cursor.isAt_iff.mp hat).2
      exact ⟨hc', placed_unbraced (Cursor.current_ne_nil (Cursor.eof_of_isAt hat)) hline hrun⟩
  | bare _ _ => exact ⟨hc.pastName, placed_unlocated rfl⟩
  | quoted _ _ hv =>
      rcases Rule.quotedString_frame hv with ⟨fs, hfs, _⟩
      exact ⟨hc.pastName.pastSign.passes hfs, placed_unlocated rfl⟩
  | @computed c c' ss _ _ _ _ _ ih =>
      rcases ih hc.pastName.pastSign with ⟨hc', hss⟩
      rcases c.rest_pastName with ⟨w, _, hrest⟩
      rw [List.append_assoc] at hrest
      exact ⟨hc', placed_cons (Node.Placed.of_stands rfl (hc.stands hrest))
        (placed_cons (Node.placed_code g s ss) hss)⟩
  | @mixin c c' ss _ hat _ ih =>
      rcases ih (hc.behindMark g) with ⟨hc', hss⟩
      have hmark := Node.Placed.of_stands (n := .mixin ss c.loc) rfl
        (hc.stands (Cursor.rest_of_isAt hat))
      exact ⟨hc', placed_cons hmark (placed_cons (Node.placed_code g s ss) hss)⟩
  | noEntries _ => exact ⟨hc, fun n hn => absurd hn List.not_mem_nil⟩
  | entries _ _ _ ihentry ihrest =>
      rcases ihentry hc with ⟨hc₁, ha⟩
      rcases ihrest hc₁.skipBlank with ⟨hc', has⟩
      exact ⟨hc', placed_append ha has⟩
  | childElement _ ih => exact ih hc
  | @insertion c c' ss hat _ ih =>
      rcases ih (hc.behindMark g) with ⟨hc', hss⟩
      have hmark := Node.Placed.of_stands (n := .insertion ss c.loc) rfl
        (hc.stands (Cursor.rest_of_isAt hat))
      exact ⟨hc', placed_cons hmark (placed_cons (Node.placed_code g s ss) hss)⟩
  | comment hcom =>
      rcases Rule.comment_frame hcom with ⟨fs, hfs, _⟩
      rcases Rule.rest_comment hcom with ⟨body, rfl, _⟩
      exact ⟨hc.passes hfs, placed_unlocated rfl⟩
  | @text c _ _ _ =>
      rcases c.takeUntil_frame g.textStops with ⟨fs, hfs, _, _⟩
      exact ⟨hc.passes hfs, placed_unlocated rfl⟩
  | noChildren _ => exact ⟨hc, fun n hn => absurd hn List.not_mem_nil⟩
  | children _ _ _ ihchild ihrest =>
      rcases ihchild hc with ⟨hc₁, hx⟩
      rcases ihrest hc₁ with ⟨hc', hxs⟩
      exact ⟨hc', placed_append hx hxs⟩
  | @emptyElement c c₁ as hat _ _ _ ih =>
      rcases ih hc.advance.pastName with ⟨hc₁, has⟩
      refine ⟨hc₁.advance, placed_cons ?_ (placed_append has fun n hn => absurd hn List.not_mem_nil)⟩
      exact Node.Placed.of_stands rfl (hc.stands_element hat)
  | @fullElement c c₁ c₂ as xs hat _ _ _ _ _ _ _ ihas ihxs =>
      rcases ihas hc.advance.pastName with ⟨hc₁, has⟩
      rcases ihxs hc₁.advance with ⟨hc₂, hxs⟩
      refine ⟨hc₂.advance.name.advance, placed_cons ?_ (placed_append has hxs)⟩
      exact Node.Placed.of_stands rfl (hc.stands_element hat)

/-! ### Whole sources -/

/-- The cursor at the start of a source. -/
theorem Cursor.placed_start (s : List Char) :
    (Cursor.ofTexts ((tokenize s).map Fragment.text)).Placed s := by
  have hunread := Cursor.unread_ofTexts s
  refine ⟨⟨[], ?_, rfl⟩, ?_⟩
  · rw [Cursor.rest_of_unread hunread]
    rfl
  · rw [hunread]
    exact tokenize_lines s

/-- Every node of a tree that keeps its place stands there: its location is
    the offset, line and column of a place in the source, and the source goes
    on there with what the node begins with. -/
theorem parseSource_placed (g : Grammar) (s : List Char) (r : Root) (h : parseSource g s = .ok r) :
    ∀ n ∈ r.walk, ∀ loc, n.loc? = some loc →
      ∃ pos : Nat, pos ≤ s.length ∧ loc.pos = pos ∧ loc.line = (s.take pos).count '\n' ∧
        loc.col = pos - lineStart (s.take pos) ∧ n.opening g <+: s.drop pos := by
  rcases parse_eq_ok_iff.mp h with ⟨ps, c', hps, rfl⟩
  have hstart := Cursor.placed_start s
  have hrun := (hps.placed hstart).2 { loc := {} } (Run.Placed.start hstart)
  intro n hn loc hloc
  rcases hrun.flush n hn loc hloc with ⟨before, after, hs, rfl⟩
  refine ⟨before.length, ?_, rfl, ?_, ?_, ?_⟩
  · rw [hs, List.length_append]
    exact Nat.le_add_right _ _
  · rw [hs, List.take_left]
    rfl
  · rw [hs, List.take_left]
    rfl
  · rw [hs, List.drop_left]
    exact List.prefix_append _ _

/-- A source of three lines whose tag begins on the second and whose code goes
    on to the third. -/
theorem parseSource_placed_lines :
    ∃ r : Root,
      parseSource .brace
        ['a', '\n', '<', 'p', ' ', 'q', '=', '{', '\n', '(', '<', 'i', '/', '>', ')', '}', '/',
          '>'] = .ok r ∧
      r.walk.filterMap Node.loc? =
        [⟨0, 0, 0⟩, ⟨1, 0, 2⟩, ⟨1, 3, 5⟩, ⟨1, 6, 8⟩, ⟨2, 1, 10⟩, ⟨2, 5, 14⟩] ∧
      ∀ n ∈ r.walk, ∀ loc, n.loc? = some loc →
        ∃ pos : Nat, pos ≤ 18 ∧ loc.pos = pos ∧
          n.opening .brace <+:
            ['a', '\n', '<', 'p', ' ', 'q', '=', '{', '\n', '(', '<', 'i', '/', '>', ')', '}', '/',
              '>'].drop pos := by
  refine ⟨⟨[.text ['a', '\n'] ⟨0, 0, 0⟩,
    .element (.mk ['p'] [.computed ['q']
      [.text ['\n', '('] ⟨1, 6, 8⟩, .element (.mk ['i'] [] [] ⟨2, 1, 10⟩), .text [')'] ⟨2, 5, 14⟩]
      ⟨1, 3, 5⟩] [] ⟨1, 0, 2⟩)]⟩, ?_, ?_, ?_⟩
  · decide +kernel
  · decide +kernel
  · intro n hn loc hloc
    rcases parseSource_placed .brace
      ['a', '\n', '<', 'p', ' ', 'q', '=', '{', '\n', '(', '<', 'i', '/', '>', ')', '}', '/', '>']
      _ (by decide +kernel) n hn loc hloc with ⟨pos, hle, hpos, _, _, hpre⟩
    exact ⟨pos, hle, hpos, hpre⟩

end Inlay
