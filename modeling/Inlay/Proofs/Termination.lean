import Inlay.Proofs.Framing
import Inlay.Proofs.Lexing
import Inlay.Proofs.Nesting
import Inlay.Proofs.Rendering

/-!
# Termination

Reading comes to an end, with a tree or with a failure, whatever the fragments
are (`parse_settles`).

The measure is the number of unread characters and not the number of unread
fragments, since a name or a stretch of code can be peeled off a fragment
without using it up. Every pass of every loop makes it smaller or stops with a
failure. For code outside any nesting this rests on two patterns that have to
complement each other: where no boundary stands, the stretch that is peeled
off is not empty. Everything that nests is entered with a smaller measure than
the element or the group that it stands in.

What is read is counted by the offset of the location. The offset and the
number of unread characters add up to the same at every cursor, so the offset
at the end is the length of the source.

## Main definitions

* `Advances`: One pass of a loop.
* `LoopsAdvance`, `NestsBelow`, `BracesEnclose`: What the argument is made of.
* `Cursor.Counts`: The offset and the unread characters add up.

## Theorems

* `loopsAdvance`, `nestsBelow`, `bracesEnclose`: They hold of the grammar.
* `Derives.counts`: Reading goes on counting.
* `parse_settles`: Every source is read or rejected.
-/

namespace Inlay

/-! ### Loops of a cursor -/

namespace Cursor

/-- Peeling off something leaves less unread. -/
theorem size_split_lt_of_ne {p : Pattern} {c : Cursor} (h : (c.split p).1 ≠ []) :
    (c.split p).2.size < c.size := by
  have hlen := congrArg List.length (c.rest_split p)
  have hpos := List.length_pos_iff.mpr h
  rw [List.length_append] at hlen
  unfold size
  omega

/-- Blank space is passed a line break or a stretch at a time, each of which
    leaves less unread. -/
theorem skipBlank_step (c : Cursor) :
    c.skipBlank = c ∨ ∃ c₁, (c₁ = c.advance ∨ c₁ = (c.split Pattern.blanks).2) ∧
      c₁.size < c.size ∧ c.skipBlank = c₁.skipBlank := by
  rcases c with ⟨unread, index, loc⟩
  cases unread with
  | nil => exact Or.inl rfl
  | cons f fs =>
      by_cases hbreak : f.text = ['\n']
      · refine Or.inr ⟨_, Or.inl rfl, size_advance_lt rfl, ?_⟩
        simp only [skipBlank, skipBlankFrom, advance, Location.past, if_pos hbreak]
      · -- The blank space that the fragment begins with is peeled off, and what
        -- is left of the fragment begins with something else.
        have hpeel : ((Cursor.mk (f :: fs) index loc).split Pattern.blanks).1 =
            f.text.takeWhile Text.isBlank := split_oneOrMore _ _
        have hsnd := split_snd Pattern.blanks (d := ⟨f :: fs, index, loc⟩) rfl hpeel
        have hcut := List.takeWhile_append_dropWhile (p := Text.isBlank) (l := f.text)
        have hdrop : (f.text.takeWhile Text.isBlank ++ f.text.dropWhile Text.isBlank).drop
            (f.text.takeWhile Text.isBlank).length = f.text.dropWhile Text.isBlank := List.drop_left
        rw [hcut] at hdrop
        rw [hdrop] at hsnd
        by_cases hnone : f.text.takeWhile Text.isBlank = []
        · refine Or.inl (skipBlankFrom_of_head ?_ fs index loc)
          by_cases hblank : Text.isBlank f.head = true
          · rw [Fragment.text, List.takeWhile_cons_of_pos hblank] at hnone
            cases hnone
          · exact Bool.eq_false_iff.mpr hblank
        · refine Or.inr ⟨_, Or.inr rfl, size_split_lt_of_ne (by rw [hpeel]; exact hnone), ?_⟩
          rw [hsnd]
          simp only [skipBlank, skipBlankFrom, if_neg hbreak]
          cases hleft : f.text.dropWhile Text.isBlank with
          -- A fragment that is blank throughout is passed whole.
          | nil =>
              rw [hleft, List.append_nil] at hcut
              simp only [hcut, Fragment.length_text]
          | cons x xs =>
              have hx : Text.isBlank x = false := by
                have hhead := List.head?_dropWhile_not Text.isBlank f.text
                rw [hleft] at hhead
                exact hhead
              exact (skipBlankFrom_of_head hx fs _ _).symm

/-- Fragments are taken one at a time. -/
theorem takeUntil_step (stops : List (List Char)) (c : Cursor) :
    c.takeUntil stops = ([], c) ∨ c.advance.size < c.size ∧
      c.takeUntil stops =
        (c.current ++ (c.advance.takeUntil stops).1, (c.advance.takeUntil stops).2) := by
  rcases c with ⟨unread, index, loc⟩
  cases unread with
  | nil => exact Or.inl rfl
  | cons f fs =>
      by_cases hstop : stops.contains f.text = true
      · refine Or.inl ?_
        rw [takeUntil, takeUntilFrom, if_pos hstop]
      · refine Or.inr ⟨size_advance_lt rfl, ?_⟩
        rw [takeUntil, takeUntilFrom, if_neg hstop]
        rfl

/-- The fragments of a string are taken one at a time. -/
theorem takeQuoted_step (quote text : List Char) (c : Cursor) :
    takeQuotedFrom quote text c.unread c.index c.loc = (text, c) ∨ c.advance.size < c.size ∧
      takeQuotedFrom quote text c.unread c.index c.loc =
        takeQuotedFrom quote (text ++ c.current) c.advance.unread c.advance.index c.advance.loc := by
  rcases c with ⟨unread, index, loc⟩
  cases unread with
  | nil => exact Or.inl rfl
  | cons f fs =>
      by_cases hclose : (f.text = quote && !endsEscaped text) = true
      · refine Or.inl ?_
        rw [takeQuotedFrom, if_pos hclose]
      · refine Or.inr ⟨size_advance_lt rfl, ?_⟩
        rw [takeQuotedFrom, if_neg hclose]
        rfl

end Cursor

/-! ### Loops of the grammar -/

/-- One pass of a loop: it leaves less unread, or stops with a failure. -/
def Advances {σ α : Type} (size : σ → Nat) (body : EStateM Stop σ α) (s : σ) : Prop :=
  (∃ a s', body s = .ok a s' ∧ size s' < size s) ∨ ∃ f s', body s = .error (.failure f) s'

theorem Contract.advances {σ α : Type} {size : σ → Nat} {P : σ → Prop} {body : EStateM Stop σ α}
    {s : σ} (h : Contract P body (fun _ s' => size s' < size s) Ordinary) (hs : P s) :
    Advances size body s := by
  have hbody := h s hs
  cases hr : body s with
  | ok a s' =>
      rw [hr] at hbody
      exact Or.inl ⟨a, s', hr, hbody⟩
  | error e s' =>
      rw [hr] at hbody
      cases e with
      | failure f => exact Or.inr ⟨f, s', hr⟩
      | exhausted => exact absurd rfl hbody

/-- Every pass of every loop leaves less unread, ends its loop, or stops with a
    failure. The loops are those over a whole source, over what delimiters
    enclose, over code outside any nesting, over the entries of a tag and over
    content, and those of the cursor over blank space, up to a mark and to the
    end of a string. -/
structure LoopsAdvance (g : Grammar) : Prop where
  source : ∀ (depth : Nat) (d : Draft), d.cursor.size < depth → d.cursor.eof = false →
    Advances (fun d => d.cursor.size)
      (Rule.piece (Rule.nested g depth) (Drafting.write Read.take)) d
  group : ∀ (depth : Nat) (d : Draft) (close : List Char), d.cursor.size < depth →
    (d.cursor.eof || d.cursor.isAt [close]) = false →
    Advances (fun d => d.cursor.size) (Rule.groupPiece (Rule.nested g depth)) d
  unnested : ∀ (depth : Nat) (d : Draft), d.cursor.size < depth →
    (d.cursor.eof || (d.cursor.matched? Pattern.codeEnd).isSome) = false →
    Advances (fun d => d.cursor.size) (Rule.openPiece (Rule.nested g depth)) d
  entries : ∀ (depth : Nat) (c : Cursor), c.size < depth →
    (c.eof || c.isAt [['>'], Marker.emptyClose]) = false →
    Advances Cursor.size (Rule.spacedEntry g (Rule.nested g depth)) c
  content : ∀ (depth : Nat) (c : Cursor), c.size < depth →
    (c.eof || c.isAt [Marker.endOpen]) = false →
    Advances Cursor.size (Rule.child g (Rule.nested g depth)) c
  blank : ∀ c : Cursor, c.skipBlank = c ∨
    ∃ c₁, (c₁ = c.advance ∨ c₁ = (c.split Pattern.blanks).2) ∧ c₁.size < c.size ∧
      c.skipBlank = c₁.skipBlank
  mark : ∀ (stops : List (List Char)) (c : Cursor), c.takeUntil stops = ([], c) ∨
    c.advance.size < c.size ∧
      c.takeUntil stops =
        (c.current ++ (c.advance.takeUntil stops).1, (c.advance.takeUntil stops).2)
  string : ∀ (quote text : List Char) (c : Cursor),
    Cursor.takeQuotedFrom quote text c.unread c.index c.loc = (text, c) ∨
      c.advance.size < c.size ∧
        Cursor.takeQuotedFrom quote text c.unread c.index c.loc =
          Cursor.takeQuotedFrom quote (text ++ c.current) c.advance.unread c.advance.index
            c.advance.loc

theorem loopsAdvance (g : Grammar) : LoopsAdvance g where
  source := fun depth _ hd hend =>
    (Rule.piece_shrinks (Rule.nested_bounded g depth) hd Rule.write_take_shrinks).advances
      ⟨Nat.le_refl _, hend⟩
  group := fun depth _ _ hd hend =>
    (Rule.groupPiece_shrinks (Rule.nested_bounded g depth) hd).advances
      ⟨Nat.le_refl _, (Bool.or_eq_false_iff.mp hend).1⟩
  unnested := fun depth _ hd hend =>
    (Rule.openPiece_shrinks (Rule.nested_bounded g depth) hd).advances
      ⟨Nat.le_refl _, (Bool.or_eq_false_iff.mp hend).1, hend⟩
  entries := fun depth _ hc _ =>
    (Rule.spacedEntry_shrinks (Rule.nested_bounded g depth) hc).advances (Nat.le_refl _)
  content := fun depth _ hc hend =>
    (Rule.child_shrinks (Rule.nested_bounded g depth) hc).advances
      ⟨Nat.le_refl _, Bool.or_eq_false_iff.mp hend⟩
  blank := Cursor.skipBlank_step
  mark := Cursor.takeUntil_step
  string := Cursor.takeQuoted_step

/-- Every element and every group is entered with less unread than the one
    that it stands in: barring everything else leaves the outcome as it is, and
    the outcome is not that of a bar. -/
structure NestsBelow (g : Grammar) : Prop where
  element : ∀ (depth : Nat) (c : Cursor), c.size < depth →
    (Rule.descending g depth).element c = (Rule.nested g depth).element c ∧
      ∀ c', (Rule.nested g depth).element c ≠ .error .exhausted c'
  group : ∀ (depth : Nat) (d : Draft), d.cursor.size < depth →
    (Rule.descending g depth).group d = (Rule.nested g depth).group d ∧
      ∀ d', (Rule.nested g depth).group d ≠ .error .exhausted d'

theorem nestsBelow (g : Grammar) : NestsBelow g where
  element := fun depth c hc =>
    ⟨Rule.element_descending g hc,
      ((Rule.nested_bounded g depth).element c.size hc).ne_exhausted (Nat.le_refl _)⟩
  group := fun depth d hd =>
    ⟨Rule.group_descending g hd,
      ((Rule.nested_bounded g depth).group d.cursor.size hd).ne_exhausted (Nat.le_refl _)⟩

/-! ### Braces -/

/-- What is collected between braces begins with a text that begins with the
    opening mark, and its last text ends with the closing brace. -/
def BracesEnclose (g : Grammar) : Prop :=
  ∀ (depth : Nat) (c c' : Cursor) (run : Run), c.isAt [['{'], Marker.spread] = true →
    Read.collect { loc := c.loc } (Rule.nested g depth).group c = .ok run c' →
    (∃ t rest, run.segments ++ [.text run.text.dropLast run.loc] =
      .text (c.current ++ t) c.loc :: rest) ∧ ∃ t, run.text = t ++ ['}']

theorem bracesEnclose (g : Grammar) : BracesEnclose g := by
  intro depth c c' run hat h
  rcases Read.collect_eq_ok_iff.mp h with ⟨u, hgroup⟩
  rcases (Rule.nested_derived g depth).group hgroup with ⟨ps, hps, hrun⟩
  simp only at hps hrun
  rcases hps.group_inv with ⟨close, qs, c₁, hclose, _, _, rfl, _⟩
  rw [Derives.closer?_of_brace hat hclose, Run.extend_group] at hrun
  have hne : c.current ≠ [] := Cursor.current_ne_nil (Cursor.eof_of_isAt hat)
  rcases Rule.unbraced_group hne c.loc qs '}' with ⟨t, rest, hclosed, _⟩
  rw [hrun]
  refine ⟨⟨t, rest, ?_⟩, _, rfl⟩
  rw [← hclosed, Run.closed, Run.append]
  simp only [List.dropLast_concat]

/-! ### Counting -/

namespace Cursor

/-- The offset and the number of unread characters add up to `n`. -/
def Counts (n : Int) (c : Cursor) : Prop :=
  c.loc.pos + c.size = n

variable {n : Int} {c c' : Cursor}

theorem pos_past (loc : Location) (f : Fragment) : (loc.past f).pos = loc.pos + f.length := by
  unfold Location.past
  by_cases hbreak : f.text = ['\n']
  · have hlen := f.length_text
    rw [hbreak] at hlen
    rw [if_pos hbreak, ← hlen]
    rfl
  · rw [if_neg hbreak]
    rfl

theorem Counts.passes {fs : List Fragment} (h : c.Counts n) (hpass : c.Passes fs c') :
    c'.Counts n := by
  have hpos : ∀ (fs : List Fragment) (loc : Location),
      (fs.foldl Location.past loc).pos = loc.pos + (fs.flatMap Fragment.text).length := by
    intro fs
    induction fs with
    | nil => intro loc; exact (Int.add_zero _).symm
    | cons f fs ih =>
        intro loc
        rw [List.foldl_cons, ih, pos_past, List.flatMap_cons, List.length_append,
          Fragment.length_text]
        omega
  have hlen := congrArg List.length hpass.rest
  rw [List.length_append] at hlen
  unfold Counts size at h ⊢
  rw [hpass.2, hpos]
  omega

theorem Counts.advance (h : c.Counts n) : c.advance.Counts n := by
  rcases c.passes_advance with ⟨fs, hpass⟩
  exact h.passes hpass

theorem Counts.split (h : c.Counts n) (p : Pattern) : (c.split p).2.Counts n := by
  have hlen := congrArg List.length (c.rest_split p)
  rw [List.length_append] at hlen
  have hpos : (c.split p).2.loc.pos = c.loc.pos + (c.split p).1.length := by
    rw [loc_split]
    rfl
  unfold Counts size at h ⊢
  omega

/-- An offset moves by the text that is passed. -/
theorem Counts.pos_eq {text : List Char} (h : c'.Counts (c.loc.pos + c.size))
    (hrest : text ++ c'.rest = c.rest) : c'.loc.pos = c.loc.pos + text.length := by
  have hlen := congrArg List.length hrest
  rw [List.length_append] at hlen
  unfold Counts size at h
  omega

theorem pos_advance (c : Cursor) : c.advance.loc.pos = c.loc.pos + c.current.length :=
  Counts.pos_eq (Counts.advance rfl) c.current_append_rest_advance

theorem Counts.skipBlank (h : c.Counts n) : c.skipBlank.Counts n := by
  -- Along the passes of the loop, each of which leaves less unread.
  induction hm : c.size using Nat.strongRecOn generalizing c with
  | _ m ih =>
  rcases c.skipBlank_step with heq | ⟨c₁, hstep, hless, heq⟩
  · rw [heq]
    exact h
  · have hc₁ : c₁.Counts n := by
      rcases hstep with rfl | rfl
      · exact h.advance
      · exact h.split Pattern.blanks
    rw [heq]
    exact ih c₁.size (by rw [← hm]; exact hless) hc₁ rfl

theorem Counts.pastName (h : c.Counts n) : c.pastName.Counts n :=
  (h.split Pattern.identifier).skipBlank

theorem Counts.pastSign (h : c.Counts n) : c.pastSign.Counts n :=
  h.advance.skipBlank

theorem Counts.behindMark (h : c.Counts n) (g : Grammar) : (g.behindMark c).Counts n := by
  cases g with
  | sigil => exact h.advance
  | brace => exact h

end Cursor

/-- Reading goes on counting. -/
theorem Derives.counts {g : Grammar} {n : Int} {c c' : Cursor} {p : Phrase}
    (h : Derives g c p c') (hc : c.Counts n) : c'.Counts n := by
  induction h with
  | verbatim hv =>
      -- Only a stretch of open code ends inside a fragment.
      rcases hv.passes with ⟨fs, hpass⟩ | rfl
      · exact hc.passes hpass
      · exact hc.split Pattern.codeStretch
  | inlay _ _ ih => exact ih hc
  | nest _ _ ih => exact ih hc
  | noPieces _ => exact hc
  | pieces _ _ _ ih ih' => exact ih' (ih hc)
  | group _ _ _ ih => exact (ih hc.advance).advance
  | openCode _ _ _ ih => exact ih hc
  | bracedCode _ _ _ ih => exact ih hc
  | bare _ _ => exact hc.pastName
  | quoted _ _ hv =>
      rcases Rule.quotedString_frame hv with ⟨fs, hpass, _⟩
      exact hc.pastName.pastSign.passes hpass
  | computed _ _ _ _ _ ih => exact ih hc.pastName.pastSign
  | mixin _ _ _ ih => exact ih (hc.behindMark g)
  | noEntries _ => exact hc
  | entries _ _ _ ih ih' => exact ih' (ih hc).skipBlank
  | childElement _ ih => exact ih hc
  | insertion _ _ ih => exact ih (hc.behindMark g)
  | comment hx =>
      rcases Rule.comment_frame hx with ⟨fs, hpass, _⟩
      exact hc.passes hpass
  | @text c _ _ _ =>
      rcases c.takeUntil_frame g.textStops with ⟨fs, hpass, _⟩
      exact hc.passes hpass
  | noChildren _ => exact hc
  | children _ _ _ ih ih' => exact ih' (ih hc)
  | emptyElement _ _ _ _ ih => exact (ih hc.advance.pastName).advance
  | fullElement _ _ _ _ _ _ _ _ ih ih' =>
      exact ((ih' (ih hc.advance.pastName).advance).advance.split Pattern.identifier).advance

/-! ### Whole sources -/

theorem settle_eq_error_iff {σ α : Type} {r : EStateM.Result Stop σ α}
    {h : ∀ s, r ≠ .error .exhausted s} {f : Failure} {s : σ} :
    settle r h = .error f s ↔ r = .error (.failure f) s := by
  match r, h with
  | .ok b s', h => simp only [settle, reduceCtorEq]
  | .error (.failure f') s', h =>
      simp only [settle, EStateM.Result.error.injEq, Stop.failure.injEq]
  | .error .exhausted s', h => exact absurd rfl (h s')

/-- Where a source that was read has been left. -/
theorem topLevel_end {g : Grammar} {fragments : List (List Char)} {r : Root} {c' : Cursor}
    (h : Parser.topLevel g (Cursor.ofTexts fragments) = .ok r c') :
    c'.eof = true ∧ c'.loc.pos = fragments.flatten.length := by
  rcases topLevel_eq_ok_iff.mp h with ⟨ps, hps, _⟩
  have heof : c'.eof = true := hps.pieces_end
  have hstart : (Cursor.ofTexts fragments).Counts fragments.flatten.length := by
    rw [Cursor.Counts, Cursor.size, Cursor.rest_ofTexts]
    exact Int.zero_add _
  have hcount := hps.counts hstart
  rw [Cursor.Counts, Cursor.size, Cursor.rest_of_eof heof] at hcount
  exact ⟨heof, (Int.add_zero _).symm.trans hcount⟩

/-- Every sequence of fragments is read or rejected. Every pass of every loop
    leaves less unread, everything that nests is entered with less unread, and
    so reading ends with a tree, at the end of the source, or with a failure.
    The depth of nesting that is allowed plays no part in it, as long as it is
    above the length of the source. -/
theorem parse_settles (g : Grammar) (fragments : List (List Char)) :
    LoopsAdvance g ∧ NestsBelow g ∧ BracesEnclose g ∧
      ∀ depth, fragments.flatten.length < depth →
        (∃ r c', Rule.topLevel (Rule.nested g depth) (Cursor.ofTexts fragments) = .ok r c' ∧
          parse g fragments = .ok r ∧ c'.eof = true ∧ c'.loc.pos = fragments.flatten.length) ∨
        ∃ f c', Rule.topLevel (Rule.nested g depth) (Cursor.ofTexts fragments) =
          .error (.failure f) c' ∧ parse g fragments = .error (f.diagnostic fragments.flatten) := by
  refine ⟨loopsAdvance g, nestsBelow g, bracesEnclose g, fun depth hdepth => ?_⟩
  have hsize : (Cursor.ofTexts fragments).size < depth := by
    rw [Cursor.size, Cursor.rest_ofTexts]
    exact hdepth
  rw [Rule.topLevel_nested g hsize (Nat.lt_succ_self _), parse]
  cases hread : Parser.topLevel g (Cursor.ofTexts fragments) with
  | ok r c' =>
      rcases topLevel_end hread with ⟨heof, hpos⟩
      exact Or.inl ⟨r, c', settle_eq_ok_iff.mp hread, rfl, heof, hpos⟩
  | error f c' => exact Or.inr ⟨f, c', settle_eq_error_iff.mp hread, rfl⟩

end Inlay
