import Inlay.Proofs.Placement
import Inlay.Proofs.Rejection
import Inlay.Proofs.RoundTrip

/-!
# What Peeling Leaves

Open code is peeled off the fragments it stands in, so a fragment may be left
in part. Where markup goes on behind it, it should meet the fragments that the
rest of the source is cut into, and it almost does. A stretch of code ends in
front of a character that ends code, and of the markers of more than one
character only two have such a character in them behind others that do not.
The end of a comment in content, of which a closing bracket is left, is no
trouble: the bracket is a fragment of its own anyway. The end of a comment in
code is. It is cut between its star and its slash, and the slash stands alone
from then on, also where a slash would have been the beginning of a marker.

`code_unread` says this of every point of a reading at which code has been
read, and `code_cuts_marker` shows a tag that does not close because of it.

The points of a reading are the tasks that are reached from the start. How
much is known of the unread fragments depends on the task (`Task.Lexed`):
content and the entries of a tag may stand behind open code, everything else
begins at a fragment of the source.

## Main definitions

* `Task.Lexed`: The unread fragments of a task are those of its text.

## Theorems

* `Enters.placed`, `Enters.lexed`: What holds at every point of a reading.
* `Derives.code_cut`: What is left behind code.
* `code_unread`: What is left behind code, at every point of a reading.
-/

namespace Inlay

variable {g : Grammar} {s : List Char} {c c' : Cursor}

/-! ### Where the tasks of a reading stand -/

theorem TagRead.placed {c₁ : Cursor} (h : TagRead g c c₁) (hc : c.Placed s) : c₁.Placed s := by
  rcases h with ⟨_, _, as, has⟩
  exact (has.placed hc.advance.pastName).1

/-- Every task of a reading stands at its location. -/
theorem Enters.placed {t t' : Task} (h : Enters g t t') (ht : t.cursor.Placed s) :
    t'.cursor.Placed s := by
  cases h with
  | inlay _ _ => exact ht
  | nest _ _ => exact ht
  | piece _ => exact ht
  | pieces _ hpass => exact (hpass.placed ht).1
  | group _ => exact ht.advance
  | openCode _ => exact ht
  | bracedCode _ _ => exact ht
  | computed _ _ _ => exact ht.pastName.pastSign
  | mixin _ _ => exact ht.behindMark g
  | entry _ => exact ht
  | entries _ hentry => exact (hentry.placed ht).1.skipBlank
  | childElement _ => exact ht
  | insertion _ => exact ht.behindMark g
  | child _ => exact ht
  | children _ hchild => exact (hchild.placed ht).1
  | tag _ _ => exact ht.advance.pastName
  | content htag _ => exact (htag.placed ht).advance

/-! ### Which fragments are left for them -/

/-- Behind blank space that was passed there is no blank space. -/
theorem Cursor.head_skipBlank (c : Cursor) :
    ∀ x, c.skipBlank.rest.head? = some x → Text.isBlank x = false := by
  rcases c with ⟨unread, index, loc⟩
  unfold Cursor.skipBlank
  simp only
  induction unread generalizing index loc with
  | nil =>
      intro x hx
      cases hx
  | cons f fs ih =>
      rw [skipBlankFrom]
      by_cases hbreak : f.text = ['\n']
      · rw [if_pos hbreak]
        exact ih _ _
      · rw [if_neg hbreak]
        cases hleft : f.text.dropWhile Text.isBlank with
        | nil => exact ih _ _
        | cons y ys =>
            intro x hx
            cases hx
            have hnot := List.head?_dropWhile_not Text.isBlank f.text
            rw [hleft] at hnot
            exact hnot

/-- Blank space is passed in the same way behind open code. -/
theorem Cursor.cut_skipBlank {b : Bool} (h : c.unread = cut b c.rest) :
    ∃ b', c.skipBlank.unread = cut b' c.skipBlank.rest := by
  by_cases hslash : b = true ∧ c.rest.head? = some '/'
  · have hunread : c.unread = ⟨'/', []⟩ :: tokenize c.rest.tail := h.trans (if_pos hslash)
    have hskip : c.skipBlank = c := by
      rw [Cursor.skipBlank, hunread, skipBlankFrom_of_head (by decide), ← hunread]
    rw [hskip]
    exact ⟨b, h⟩
  · have hlexed : c.Lexed := h.trans (if_neg hslash)
    exact ⟨false, hlexed.skipBlank.trans (cut_false _).symm⟩

/-- A name is read from the fragments of the text. -/
theorem Cursor.lexed_of_name {b : Bool} (hid : (c.matched? Pattern.identifier).isSome = true)
    (hc : c.unread = cut b c.rest) : c.Lexed := by
  rcases (isName_name (name_ne_nil_iff.mpr hid)).head with ⟨x, xs, hname, hx⟩
  refine hc.trans (cut_of_head b fun hhead => ?_)
  rw [← c.rest_split Pattern.identifier, ← Cursor.name, hname] at hhead
  rw [Option.some.inj hhead] at hx
  exact absurd hx (by decide)

/-- A mark of the grammar is read from the fragments of the text. -/
theorem Cursor.lexed_of_mark {b : Bool} {mark : List Char}
    (hmark : mark = g.mixinMark ∨ mark = g.insertionMark) (hat : c.isAt [mark] = true)
    (hc : c.unread = cut b c.rest) : c.Lexed := by
  cases g with
  | sigil => rcases hmark with rfl | rfl <;> exact lexed_of_isAt (by decide) hat hc
  | brace => rcases hmark with rfl | rfl <;> exact lexed_of_isAt (by decide) hat hc

/-- The unread fragments of a task are those of its text. A slash may stand
    alone where open code can have ended: in code itself, between the entries
    of a tag, and in content. Entries stand behind blank space. -/
def Task.Lexed : Task → Prop
  | ⟨.pieces z, c⟩ => (z ≠ .unnested → c.Lexed) ∧ ∃ b, c.unread = cut b c.rest
  | ⟨.entry, c⟩ | ⟨.entries, c⟩ =>
    (∃ b, c.unread = cut b c.rest) ∧ ∀ x, c.rest.head? = some x → Text.isBlank x = false
  | ⟨.child, c⟩ | ⟨.children, c⟩ => ∃ b, c.unread = cut b c.rest
  | ⟨.piece _, c⟩ | ⟨.group, c⟩ | ⟨.code, c⟩ | ⟨.element, c⟩ => c.Lexed

theorem Cursor.Lexed.cut (h : c.Lexed) : ∃ b, c.unread = cut b c.rest :=
  ⟨false, h.trans (cut_false _).symm⟩

theorem TagRead.lexed {c₁ : Cursor} (h : TagRead g c c₁) (hc : c.Lexed) : c₁.Lexed := by
  rcases h with ⟨_, _, as, has⟩
  exact (has.reread hc.advance.name.skipBlank).lexed

theorem ContentRead.lexed {c₂ : Cursor} (h : ContentRead g c c₂) (hc : c.Lexed) : c₂.Lexed := by
  rcases h with ⟨c₁, xs, htag, _, hxs⟩
  rcases (htag.lexed hc).advance.cut with ⟨b, hcut⟩
  exact (hxs.reread b hcut).lexed

/-- Every task of a reading is at the fragments of its text. -/
theorem Enters.lexed {t t' : Task} (h : Enters g t t') (ht : t.Lexed) : t'.Lexed := by
  cases h with
  | inlay _ _ => exact ht
  | nest _ _ => exact ht
  | @piece z c hend =>
      rcases ht with ⟨hwhole, b, hcut⟩
      by_cases hz : z = .unnested
      · subst hz
        exact lexed_of_cut hcut hend
      · exact hwhole hz
  | @pieces z c c₁ ps hend hpass =>
      rcases ht with ⟨hwhole, b, hcut⟩
      by_cases hz : z = .unnested
      · exact ⟨fun hz' => absurd hz hz', _, (hpass.reread.2 hz hend b hcut).cut⟩
      · have hlexed := (hpass.reread.1 hz (hwhole hz)).lexed
        exact ⟨fun _ => hlexed, hlexed.cut⟩
  | group _ => exact ⟨fun _ => Cursor.Lexed.advance ht, (Cursor.Lexed.advance ht).cut⟩
  | openCode _ => exact ⟨fun _ => ht, Cursor.Lexed.cut ht⟩
  | bracedCode _ _ => exact ht
  | computed hvalue _ _ =>
      rcases ht with ⟨⟨b, hcut⟩, _⟩
      have hlexed := Cursor.lexed_of_name hvalue.1 hcut
      exact hlexed.name.skipBlank.advance.skipBlank
  | mixin _ hat =>
      rcases ht with ⟨⟨b, hcut⟩, _⟩
      exact (Cursor.lexed_of_mark (Or.inl rfl) hat hcut).behindMark g
  | entry _ => exact ht
  | @entries c c₁ a _ hentry =>
      rcases ht with ⟨⟨b, hcut⟩, _⟩
      -- An entry does not begin with a slash, so it was read from the text.
      have hlexed : c.Lexed := by
        cases hentry with
        | bare hid _ => exact Cursor.lexed_of_name hid hcut
        | quoted hid _ _ => exact Cursor.lexed_of_name hid hcut
        | computed hid _ _ _ _ => exact Cursor.lexed_of_name hid hcut
        | mixin _ hat _ => exact Cursor.lexed_of_mark (Or.inl rfl) hat hcut
      rcases (hentry.reread hlexed).cut with ⟨b₁, hcut₁⟩
      exact ⟨Cursor.cut_skipBlank hcut₁, c₁.head_skipBlank⟩
  | childElement hat =>
      rcases ht with ⟨b, hcut⟩
      exact lexed_of_isAt (by decide) hat hcut
  | insertion hat =>
      rcases ht with ⟨b, hcut⟩
      exact (Cursor.lexed_of_mark (Or.inr rfl) hat hcut).behindMark g
  | child _ => exact ht
  | children hend hchild =>
      rcases ht with ⟨b, hcut⟩
      rcases (hchild.reread hend b hcut).again with ⟨b₁, hcut₁, _⟩
      exact ⟨b₁, hcut₁⟩
  | @tag c _ _ =>
      have hlexed : c.advance.pastName.Lexed :=
        Cursor.Lexed.skipBlank (Cursor.Lexed.advance ht).name
      exact ⟨hlexed.cut, Cursor.head_skipBlank _⟩
  | content htag _ => exact (htag.lexed ht).advance.cut

/-- What is known of every point of a reading. -/
theorem Reaches.sound {t : Task} (h : Reaches g (Task.source s) t) :
    t.cursor.Placed s ∧ t.Lexed := by
  have hstart : (Task.source s).cursor.Lexed := Cursor.lexed_of_unread (Cursor.unread_ofTexts s)
  refine ⟨h.invariant (fun henter ht => henter.placed ht) (Cursor.placed_start s), ?_⟩
  exact h.invariant (fun henter ht => henter.lexed ht) ⟨fun _ => hstart, hstart.cut⟩

/-! ### Behind code -/

/-- Whether some text ends with a star is a matter of its last character. -/
theorem starred_iff {t : List Char} (ht : t ≠ []) (b : Bool) :
    starred b t = true ↔ t.getLast? = some '*' := by
  rcases List.eq_nil_or_concat t with rfl | ⟨u, x, rfl⟩
  · exact absurd rfl ht
  · rw [List.concat_eq_append, starred_concat, beq_iff_eq, List.getLast?_concat, Option.some.injEq]

/-- A group is text that ends with its closing delimiter. -/
theorem Derives.group_text {ps : List Piece} (h : Derives g c (.group ps) c') :
    ∃ t x, c.rest = t ++ [x] ++ c'.rest ∧ x ≠ '*' := by
  rcases h.group_inv with ⟨close, qs, c₁, hclose, hqs, hend, _, rfl⟩
  rcases closer_parts hclose with ⟨y, rfl, hy, _⟩
  rcases hqs.rendered with ⟨t, _, hrest⟩
  refine ⟨c.current ++ t, y, ?_, beq_eq_false_iff_ne.mp hy⟩
  rw [← c.current_append_rest_advance, hrest, Cursor.rest_of_isAt hend, List.append_assoc,
    List.append_assoc]

/-- One piece of open code leaves a slash alone exactly if it ends with a
    star. -/
theorem Derives.piece_cut {ps : List Piece} {b : Bool} (h : Derives g c (.piece .unnested ps) c')
    (hend : Zone.unnested.ends c = false) (hc : c.unread = cut b c.rest) :
    ∃ t, c.rest = t ++ c'.rest ∧ c'.unread = cut (starred b t) c'.rest := by
  have hlexed := lexed_of_cut hc hend
  cases h with
  | verbatim hv =>
      refine ⟨_, hv.rest.symm, ?_⟩
      cases hv with
      | string ht =>
          rcases Rule.quotedString_again ht hlexed with ⟨hc', hlast, _⟩
          rw [hlast, cut_false]
          exact hc'
      | lineComment hz _ => exact absurd rfl hz
      | blockComment hz _ => exact absurd rfl hz
      | plain hz _ => exact absurd rfl hz
      | stretch hclose hquote => exact (Cursor.cut_codeStretch hlexed hend hclose hquote).2 b
  | inlay hz _ => exact absurd rfl hz
  | nest _ hgroup =>
      rcases hgroup.group_text with ⟨t, x, hrest, hx⟩
      refine ⟨t ++ [x], hrest, ?_⟩
      rw [starred_concat, beq_eq_false_iff_ne.mpr hx, cut_false]
      exact (hgroup.reread hlexed).lexed

/-- Open code leaves a slash alone exactly if it ends with a star. -/
theorem Derives.pieces_cut {ps : List Piece} {b : Bool} (h : Derives g c (.pieces .unnested ps) c')
    (hc : c.unread = cut b c.rest) :
    ∃ t, c.rest = t ++ c'.rest ∧ c'.unread = cut (starred b t) c'.rest := by
  generalize hp : Phrase.pieces .unnested ps = p at h
  induction h generalizing b ps with
  | noPieces _ => exact ⟨[], rfl, hc⟩
  | pieces hend hpass _ _ ih =>
      cases hp
      rcases hpass.piece_cut hend hc with ⟨t, ht, hc₁⟩
      rcases ih hc₁ rfl with ⟨u, hu, hc'⟩
      refine ⟨t ++ u, ?_, ?_⟩
      · rw [ht, hu, List.append_assoc]
      · rw [starred_append]
        exact hc'
  | _ => cases hp

/-- Open code that says something takes something. -/
theorem Derives.text_ne_nil {ps : List Piece} {loc : Location} {t : List Char}
    (h : Derives g c (.pieces .unnested ps) c')
    (hne : (Run.extend { loc } ps).flush.segments ≠ []) (hrest : c.rest = t ++ c'.rest) :
    t ≠ [] := by
  rintro rfl
  cases h with
  | noPieces _ => exact hne rfl
  | pieces hend hpass hmore =>
      have hless := hpass.size_lt hend
      have hle := hmore.size_le
      have hsame : c.size = c'.size := congrArg List.length hrest
      omega

/-- Code leaves a slash alone exactly if it is open and ends with a star. -/
theorem Derives.code_cut {ss : Code} (h : Derives g c (.code ss) c') (hc : c.Lexed) :
    ∃ t, t ≠ [] ∧ c.rest = t ++ c'.rest ∧ c'.unread = cut (g.endsStarred t) c'.rest := by
  cases h with
  | openCode hg hps hne =>
      subst hg
      rcases hps.pieces_cut (b := false) (hc.trans (cut_false _).symm) with ⟨t, hrest, hc'⟩
      exact ⟨t, hps.text_ne_nil hne hrest, hrest, hc'⟩
  | bracedCode hg _ hgroup =>
      subst hg
      rcases hgroup.group_text with ⟨t, x, hrest, _⟩
      refine ⟨t ++ [x], List.concat_ne_nil x t, hrest, ?_⟩
      exact (hgroup.reread hc).lexed.trans (cut_false _).symm

/-- The code of a mixin is reached that is the first entry of the first tag. -/
theorem reaches_mixin {g : Grammar} {s : List Char} {c : Cursor}
    (hc : (Task.source s).cursor = c) (hat : c.isAt [['<']] = true) (hname : c.advance.name ≠ [])
    (hend : c.advance.pastName.tagEnds = false)
    (hid : (c.advance.pastName.matched? Pattern.identifier).isSome = false)
    (hmark : c.advance.pastName.isAt [g.mixinMark] = true) :
    Reaches g (Task.source s) ⟨.code, g.behindMark c.advance.pastName⟩ := by
  subst hc
  have hsource : Enters g (Task.source s) ⟨.piece .source, (Task.source s).cursor⟩ :=
    Enters.piece (Cursor.eof_of_isAt hat)
  refine Relation.ReflTransGen.head hsource ?_
  refine Relation.ReflTransGen.head (Enters.inlay (by decide) hat) ?_
  refine Relation.ReflTransGen.head (Enters.tag hat hname) ?_
  refine Relation.ReflTransGen.head (Enters.entry hend) ?_
  exact Relation.ReflTransGen.single (Enters.mixin hid hmark)

/-- Wherever code has been read, the unread fragments are those that the rest
    of the source is cut into, unless the code is open and ended between a star
    and a slash. The slash is then the first of them, and the others are those
    of what follows it. -/
theorem code_unread (g : Grammar) (s : List Char) (depth : Nat) (c c' : Cursor) (ss : Code)
    (hreach : Reaches g (Task.source s) ⟨.code, c⟩)
    (hcode : Rule.code g (Rule.nested g depth) c = .ok ss c') :
    ∃ pos : Nat, pos ≤ s.length ∧ c'.loc.pos = pos ∧
      c'.unread =
        if g = .sigil ∧ (s.take pos).getLast? = some '*' ∧ (s.drop pos).head? = some '/' then
          ⟨'/', []⟩ :: tokenize (s.drop (pos + 1))
        else tokenize (s.drop pos) := by
  rcases hreach.sound with ⟨hplaced, hlexed⟩
  rcases (Rule.code_derives (Rule.nested_derived g depth) hcode).code_cut hlexed with
    ⟨t, hne, hrest, hcut⟩
  have hplaced' := ((Rule.code_derives (Rule.nested_derived g depth) hcode).placed hplaced).1
  rcases hplaced.place with ⟨before, hs, _⟩
  rcases hplaced'.place with ⟨before', hs', hloc⟩
  -- The code stands in front of what is left of the source.
  have hbefore : before' = before ++ t := by
    have hjoin := hs'.symm.trans hs
    simp only at hjoin
    rw [hrest, ← List.append_assoc] at hjoin
    exact List.append_cancel_right hjoin
  have htake : s.take before'.length = before' := by rw [hs', List.take_left]
  have hdrop : s.drop before'.length = c'.rest := by rw [hs', List.drop_left]
  have hlast : g.endsStarred t = true ↔
      g = .sigil ∧ (s.take before'.length).getLast? = some '*' := by
    have hne' : before ++ t ≠ [] := List.append_ne_nil_of_right_ne_nil _ hne
    rw [htake, hbefore, ← starred_iff hne' false, starred_append, starred_congr hne _ false]
    cases g with
    | sigil => exact (and_iff_right rfl).symm
    | brace => exact iff_of_false Bool.false_ne_true fun h => by cases h.1
  refine ⟨before'.length, ?_, by rw [hloc]; rfl, ?_⟩
  · rw [hs', List.length_append]
    exact Nat.le_add_right _ _
  · rw [hcut, cut, ← List.drop_drop, hdrop, List.drop_one]
    simp only [hlast, and_assoc]

/-- A mixin in front of a marker that is not cut. -/
theorem code_unread_mixin :
    ∃ c c' : Cursor, Reaches .sigil (Task.source ['<', 'p', ' ', '@', 'a', '/', '>']) ⟨.code, c⟩ ∧
      Rule.code .sigil (Rule.nested .sigil 8) c = .ok [.text ['a'] ⟨0, 4, 4⟩] c' ∧
      ∃ pos : Nat, pos ≤ 7 ∧ c'.loc.pos = pos ∧
        c'.unread =
          if Grammar.sigil = .sigil ∧
              (['<', 'p', ' ', '@', 'a', '/', '>'].take pos).getLast? = some '*' ∧
              (['<', 'p', ' ', '@', 'a', '/', '>'].drop pos).head? = some '/' then
            ⟨'/', []⟩ :: tokenize (['<', 'p', ' ', '@', 'a', '/', '>'].drop (pos + 1))
          else tokenize (['<', 'p', ' ', '@', 'a', '/', '>'].drop pos) := by
  have hreach := reaches_mixin (g := .sigil) (s := ['<', 'p', ' ', '@', 'a', '/', '>'])
    (c := { unread := [⟨'<', []⟩, ⟨'p', [' ']⟩, ⟨'@', []⟩, ⟨'a', []⟩, ⟨'/', ['>']⟩] })
    (by decide +kernel) (by decide) (by decide) (by decide) (by decide) (by decide)
  have hcode : Rule.code .sigil (Rule.nested .sigil 8)
      { unread := [⟨'a', []⟩, ⟨'/', ['>']⟩], index := 3, loc := ⟨0, 4, 4⟩ } =
      .ok [.text ['a'] ⟨0, 4, 4⟩]
        { unread := [⟨'/', ['>']⟩], index := 4, loc := ⟨0, 5, 5⟩ } := rfl
  exact ⟨_, _, hreach, hcode, code_unread .sigil _ 8 _ _ _ hreach hcode⟩

/-- A tag whose mixin ends with a star. Its closing mark is cut out of the
    fragments: its slash belonged to a fragment with the star, and alone it
    does not close the tag. -/
theorem code_cuts_marker :
    ∃ c c' : Cursor,
      Reaches .sigil (Task.source ['<', 'p', ' ', '@', 'a', '*', '/', '>']) ⟨.code, c⟩ ∧
      Rule.code .sigil (Rule.nested .sigil 9) c = .ok [.text ['a', '*'] ⟨0, 4, 4⟩] c' ∧
      c'.loc.pos = 6 ∧
      c'.unread ≠ tokenize (['<', 'p', ' ', '@', 'a', '*', '/', '>'].drop 6) ∧
      parseSource .sigil ['<', 'p', ' ', '@', 'a', '*', '/', '>'] =
        .error ⟨Cause.unrecognizedEntry.message, ⟨0, 6, 6⟩, "/>"⟩ := by
  have hreach := reaches_mixin (g := .sigil) (s := ['<', 'p', ' ', '@', 'a', '*', '/', '>'])
    (c := { unread := [⟨'<', []⟩, ⟨'p', [' ']⟩, ⟨'@', []⟩, ⟨'a', []⟩, ⟨'*', ['/']⟩, ⟨'>', []⟩] })
    (by decide +kernel) (by decide) (by decide) (by decide) (by decide) (by decide)
  have hcode : Rule.code .sigil (Rule.nested .sigil 9)
      { unread := [⟨'a', []⟩, ⟨'*', ['/']⟩, ⟨'>', []⟩], index := 3, loc := ⟨0, 4, 4⟩ } =
      .ok [.text ['a', '*'] ⟨0, 4, 4⟩]
        { unread := [⟨'/', []⟩, ⟨'>', []⟩], index := 4, loc := ⟨0, 6, 6⟩ } := rfl
  exact ⟨_, _, hreach, hcode, rfl, by decide +kernel, by decide +kernel⟩

end Inlay
