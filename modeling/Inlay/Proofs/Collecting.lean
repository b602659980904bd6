import Inlay.Proofs.Adequacy
import Inlay.Source.Conservation

/-!
# Collected Code

What the steps of a derivation take from the unread text, and what a run makes
of the pieces it is given.

A step that takes text over conserves it: the text and what is left are what
was unread (`Verbatim.rest`). The steps inside a tag pass blank space as well.

A run joins the texts of its pieces until an element comes. Code between
braces is such a run: the opening mark is the first piece and the closing
brace the last one, and both are cut off when the run is over. The first
segment still begins with the opening mark by then, because the mark is not
empty and a run never drops a text that is not empty. So the cut removes the
marks and nothing else (`Rule.unbraced_group`).

## Main definitions

* `Run.closed`: The segments of a run, its pending text included.
* `Run.Rests`: A run of which an element is the last that is finished.
* `Run.Headed`: A run whose first text begins with a mark.

## Theorems

* `Verbatim.rest`: Text that is taken over is conserved.
* `Derives.pieces_end`: A loop over code ends where the code of its zone ends.
* `Derives.group_inv`: The parts of a group.
* `Rule.unbraced_group`: Code between braces is its group without the marks.
-/

namespace Inlay

namespace Cursor

/-- The current fragment stands in front of the rest. -/
theorem rest_of_isAt {c : Cursor} {t : List Char} (h : c.isAt [t] = true) :
    c.rest = t ++ c.advance.rest := by
  rw [← c.current_append_rest_advance, List.mem_singleton.mp (isAt_iff.mp h).2]

theorem suffix_advance (c : Cursor) : c.advance.rest <:+ c.rest :=
  ⟨_, c.current_append_rest_advance⟩

theorem suffix_split (p : Pattern) (c : Cursor) : (c.split p).2.rest <:+ c.rest :=
  ⟨_, c.rest_split p⟩

theorem suffix_skipBlank (c : Cursor) : c.skipBlank.rest <:+ c.rest := by
  rcases c.rest_skipBlank with ⟨blank, _, hrest⟩
  exact ⟨blank, hrest⟩

theorem suffix_pastName (c : Cursor) : c.pastName.rest <:+ c.rest :=
  (suffix_skipBlank _).trans (c.suffix_split _)

theorem suffix_pastSign (c : Cursor) : c.pastSign.rest <:+ c.rest :=
  (suffix_skipBlank _).trans c.suffix_advance

/-- A text is not empty if less is left behind it. -/
theorem ne_nil_of_size_lt {c c' : Cursor} {t : List Char} (hrest : t ++ c'.rest = c.rest)
    (hless : c'.size < c.size) : t ≠ [] := by
  intro hnil
  have hlen := congrArg List.length hrest
  rw [hnil, List.nil_append] at hlen
  unfold size at hless
  omega

/-- Blank space is all that is passed behind a name. -/
theorem rest_pastName (c : Cursor) :
    ∃ w, (∀ x ∈ w, Text.isBlank x = true) ∧ c.rest = c.name ++ w ++ c.pastName.rest := by
  rcases (c.split Pattern.identifier).2.rest_skipBlank with ⟨w, hw, hrest⟩
  refine ⟨w, hw, ?_⟩
  rw [List.append_assoc, pastName, hrest, name, c.rest_split]

/-- Blank space is all that is passed behind a sign. -/
theorem rest_pastSign {c : Cursor} {t : List Char} (h : c.isAt [t] = true) :
    ∃ w, (∀ x ∈ w, Text.isBlank x = true) ∧ c.rest = t ++ w ++ c.pastSign.rest := by
  rcases c.advance.rest_skipBlank with ⟨w, hw, hrest⟩
  refine ⟨w, hw, ?_⟩
  rw [List.append_assoc, pastSign, hrest, rest_of_isAt h]

/-- A loop that takes fragments up to a mark leaves the cursor at the mark or
    at the end. -/
theorem isAt_takeUntil (stops : List (List Char)) (c : Cursor)
    (h : (c.takeUntil stops).2.eof = false) : (c.takeUntil stops).2.isAt stops = true := by
  rcases c with ⟨unread, index, loc⟩
  unfold takeUntil at h ⊢
  simp only at h ⊢
  induction unread generalizing index loc with
  | nil => cases h
  | cons f fs ih =>
      simp only [takeUntilFrom] at h ⊢
      by_cases hf : stops.contains f.text = true
      · rw [if_pos hf]
        simp only [isAt, eof, current, List.isEmpty_cons, hf, Bool.not_false, Bool.and_self]
      · rw [if_neg hf] at h ⊢
        exact ih (index + 1) (loc.past f) h

end Cursor

namespace Rule

variable {c c' : Cursor} {t : List Char}

theorem rest_quotedString (h : quotedString c = .ok t c') : t ++ c'.rest = c.rest := by
  rcases quotedString_eq_ok_iff.mp h with ⟨_, _, rfl, rfl⟩
  rw [List.append_assoc, Cursor.current_append_rest_advance, Cursor.rest_takeQuoted,
    Cursor.current_append_rest_advance]

/-- A string begins with its opening quote. -/
theorem head_quotedString (h : quotedString c = .ok t c') :
    ∃ u, t = '"' :: u ∨ t = '\'' :: u := by
  rcases quotedString_eq_ok_iff.mp h with ⟨hat, _, ht, _⟩
  have hlen : c.current.length ≤ t.length := by
    have hquote := Cursor.le_length_takeQuotedFrom c.current c.current c.advance.unread
      c.advance.index c.advance.loc
    rw [ht, List.length_append]
    exact Nat.le_trans hquote (Nat.le_add_right _ _)
  have hrest := rest_quotedString h
  rw [← c.current_append_rest_advance] at hrest
  -- Both sides of the equation begin with as many characters as the quote has.
  cases t with
  | nil =>
      rcases Cursor.isAt_quotes hat with hq | hq <;>
        rw [List.mem_singleton.mp (Cursor.isAt_iff.mp hq).2] at hlen <;> cases hlen
  | cons x u =>
      refine ⟨u, ?_⟩
      rcases Cursor.isAt_quotes hat with hq | hq
      · rw [List.mem_singleton.mp (Cursor.isAt_iff.mp hq).2] at hrest
        rw [(List.cons.inj hrest).1]
        exact Or.inl rfl
      · rw [List.mem_singleton.mp (Cursor.isAt_iff.mp hq).2] at hrest
        rw [(List.cons.inj hrest).1]
        exact Or.inr rfl

theorem rest_lineComment (h : lineComment c = .ok t c') : t ++ c'.rest = c.rest := by
  rcases lineComment_eq_ok_iff.mp h with ⟨_, ⟨_, rfl, rfl⟩ | ⟨_, rfl, rfl⟩⟩
  · exact Cursor.rest_takeUntil _ _
  · rw [List.append_assoc, Cursor.current_append_rest_advance, Cursor.rest_takeUntil]

theorem rest_blockComment (h : blockComment c = .ok t c') : t ++ c'.rest = c.rest := by
  rcases blockComment_eq_ok_iff.mp h with ⟨_, _, rfl, rfl⟩
  rw [List.append_assoc, Cursor.current_append_rest_advance, Cursor.rest_takeUntil]

/-- A comment is its body between its marks. -/
theorem rest_comment {x : Child} (h : comment c = .ok x c') :
    ∃ body, x = .comment body ∧
      c.rest = Marker.commentOpen ++ body ++ Marker.commentClose ++ c'.rest := by
  rcases comment_eq_ok_iff.mp h with ⟨hat, heof, rfl, rfl⟩
  refine ⟨_, rfl, ?_⟩
  have hclose := Cursor.isAt_takeUntil [Marker.commentClose] c.advance heof
  rw [List.append_assoc, ← Cursor.rest_of_isAt hclose, List.append_assoc, Cursor.rest_takeUntil,
    Cursor.rest_of_isAt hat]

end Rule

/-- Text that is taken over is conserved. -/
theorem Verbatim.rest {z : Zone} {c c' : Cursor} {t : List Char} (h : Verbatim z c t c') :
    t ++ c'.rest = c.rest := by
  cases h with
  | string ht => exact Rule.rest_quotedString ht
  | lineComment _ ht => exact Rule.rest_lineComment ht
  | blockComment _ ht => exact Rule.rest_blockComment ht
  | plain _ _ => exact c.current_append_rest_advance
  | stretch _ _ => exact c.rest_split _

/-! ### Where loops and groups end -/

namespace Derives

variable {g : Grammar} {c c' : Cursor}

/-- A loop over code ends where the code of its zone ends. -/
theorem pieces_end {z : Zone} {ps : List Piece} (h : Derives g c (.pieces z ps) c') :
    z.ends c' = true := by
  generalize hp : Phrase.pieces z ps = p at h
  induction h generalizing ps with
  | noPieces hend =>
      cases hp
      exact hend
  | pieces _ _ _ _ ih =>
      cases hp
      exact ih rfl
  | _ => cases hp

/-- A group is an opening delimiter, code, and the delimiter that closes it. -/
theorem group_inv {ps : List Piece} (h : Derives g c (.group ps) c') :
    ∃ close qs c₁, c.closer? = some close ∧ Derives g c.advance (.pieces (.group close) qs) c₁ ∧
      c₁.isAt [close] = true ∧ ps = .text c.current :: qs ++ [.text close] ∧
      c' = c₁.advance := by
  cases h with
  | @group c c₁ close qs hclose hqs heof =>
      have hend := hqs.pieces_end
      rw [Zone.ends, heof, Bool.false_or] at hend
      refine ⟨close, qs, c₁, hclose, hqs, hend, ?_, rfl⟩
      rw [List.mem_singleton.mp (Cursor.isAt_iff.mp hend).2]

/-- Braces are closed by a brace. -/
theorem closer?_of_brace {close : List Char} (hat : c.isAt [['{'], Marker.spread] = true)
    (hclose : c.closer? = some close) : close = ['}'] := by
  rcases Cursor.closer?_cases hclose with ⟨hc, _⟩ | ⟨hc, _⟩ | ⟨_, h⟩ | ⟨_, h⟩
  · rw [Cursor.isAt_eq_contains hc] at hat
    exact absurd hat (by decide)
  · rw [Cursor.isAt_eq_contains hc] at hat
    exact absurd hat (by decide)
  · exact h
  · exact h

end Derives

/-! ### Runs -/

namespace Run

/-- The segments of a run with its pending text behind them, also when that
    is empty. -/
def closed (r : Run) : Code :=
  r.segments ++ [.text r.text r.loc]

/-- Closing the pending text leaves none. -/
theorem text_flush (r : Run) : r.flush.text = [] := by
  unfold flush
  by_cases htext : r.text.isEmpty = true
  · rw [if_pos htext]
    exact List.isEmpty_iff.mp htext
  · rw [if_neg htext]

theorem flush_of_text {r : Run} (h : r.text ≠ []) : r.flush.segments = r.closed := by
  rw [flush, if_neg (by rwa [List.isEmpty_iff])]
  rfl

theorem flush_of_none {r : Run} (h : r.text = []) : r.flush.segments = r.segments := by
  rw [flush, if_pos (by rwa [List.isEmpty_iff])]

/-- An element is the last that is finished, if anything is. -/
def Rests (r : Run) : Prop :=
  r.segments = [] ∨ ∃ ss e, r.segments = ss ++ [.element e]

theorem rests_start (loc : Location) (t : List Char) : Rests { loc, text := t } :=
  Or.inl rfl

theorem Rests.add {r : Run} (h : r.Rests) (p : Piece) : (r.add p).Rests := by
  cases p with
  | text t => exact h
  | inlay e resume => exact Or.inr ⟨_, e, rfl⟩

/-- Text is finished by an element behind it, so a run never ends with one. -/
theorem Rests.extend {r : Run} (h : r.Rests) (ps : List Piece) : (r.extend ps).Rests := by
  induction ps generalizing r with
  | nil => exact h
  | cons p ps ih => exact ih (h.add p)

/-- A run whose first text begins with a mark and stands at `loc`. -/
def Headed (mark : List Char) (loc : Location) (r : Run) : Prop :=
  ∃ u rest, r.closed = .text (mark ++ u) loc :: rest

theorem headed_start (mark : List Char) (loc : Location) :
    Headed mark loc { loc, text := mark } :=
  ⟨[], [], by rw [List.append_nil]; rfl⟩

/-- Whatever is added to a run, its first text goes on beginning with the
    mark. -/
theorem Headed.add {mark : List Char} {loc : Location} {r : Run} (hmark : mark ≠ [])
    (h : r.Headed mark loc) (p : Piece) : (r.add p).Headed mark loc := by
  rcases h with ⟨u, rest, h⟩
  rcases r with ⟨segments, text, rloc⟩
  cases segments with
  | nil =>
      simp only [closed, List.nil_append, List.cons.injEq, Segment.text.injEq] at h
      rcases h with ⟨⟨rfl, rfl⟩, rfl⟩
      cases p with
      | text t =>
          refine ⟨u ++ t, [], ?_⟩
          simp only [Run.add, append, closed, List.nil_append, List.append_assoc]
      | inlay e resume =>
          -- The pending text holds the mark, so it is not empty and is kept.
          have hne : (mark ++ u).isEmpty = false := by
            simp only [List.isEmpty_eq_false_iff, ne_eq, List.append_eq_nil_iff, hmark, false_and,
              not_false_eq_true]
          refine ⟨u, [.element e, .text [] resume], ?_⟩
          simp only [Run.add, inlay, flush, hne, closed, Bool.false_eq_true, if_false,
            List.nil_append, List.cons_append]
  | cons s ss =>
      simp only [closed, List.cons_append, List.cons.injEq] at h
      rcases h with ⟨rfl, _⟩
      cases p with
      | text t => exact ⟨u, _, rfl⟩
      | inlay e resume =>
          simp only [Headed, Run.add, inlay, flush]
          by_cases htext : text.isEmpty = true
          · rw [if_pos htext]
            exact ⟨u, _, rfl⟩
          · rw [if_neg htext]
            exact ⟨u, _, rfl⟩

theorem Headed.extend {mark : List Char} {loc : Location} {r : Run} (hmark : mark ≠ [])
    (h : r.Headed mark loc) (ps : List Piece) : (r.extend ps).Headed mark loc := by
  induction ps generalizing r with
  | nil => exact h
  | cons p ps ih => exact ih (h.add hmark p)

/-- A run that is given a group holds the group. -/
theorem extend_group (loc : Location) (mark last : List Char) (qs : List Piece) :
    Run.extend { loc } (.text mark :: qs ++ [.text last]) =
      (Run.extend { loc, text := mark } qs).append last := by
  rw [List.cons_append, extend_cons, extend_append]
  rfl

end Run

/-- Code between braces is what the braces enclose: the first segment without
    the opening mark, and the pending text without the closing brace. -/
theorem Rule.unbraced_group {mark : List Char} (hmark : mark ≠ []) (loc : Location)
    (qs : List Piece) (x : Char) :
    ∃ u rest, (Run.extend { loc, text := mark } qs).closed = .text (mark ++ u) loc :: rest ∧
      unbraced mark.length (Run.extend { loc } (.text mark :: qs ++ [.text [x]])) =
        .text u (loc.shifted mark.length) :: rest := by
  rcases (Run.headed_start mark loc).extend hmark qs with ⟨u, rest, hrun⟩
  refine ⟨u, rest, hrun, ?_⟩
  rw [Run.extend_group, unbraced, Run.append]
  simp only [List.dropLast_concat]
  rw [Run.closed] at hrun
  rw [hrun]
  simp only [List.drop_left]

end Inlay
