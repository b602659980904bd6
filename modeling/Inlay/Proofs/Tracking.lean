import Inlay.Proofs.Embedding
import Inlay.Proofs.Seams
import Inlay.Proofs.Tasks

/-!
# Reading Within a Larger Source

What is read from a text is also read where the text stands within a larger
source, with its runs cut further, behind more lines and in front of more
text. It is moved by the lines in front, and nothing else changes, also where
reading fails.

One pass over code takes a run at once, or peels a stretch off it. Where the
run is cut, several passes take the place of one, and the text they collect
comes in several pieces. This is the only place where the two readings are out
of step, and so a pass is compared with a number of passes (`Laps`). All other
parts of the grammar begin and end at marks, which are never cut, and names,
which do not go on across a cut.

Reading does not look past the place where it ends. Some phrases end where
something else begins, which must then be the same in both sources. Elements
and groups end with a mark of their own, so that whatever follows them makes
no difference.

## Main definitions

* `Zone.Marked`: Code that ends at a mark, if it ends at a fragment.
* `Laps`: Some passes over code.
* `Phrase.Tracked`: What a derivation keeps.

## Theorems

* `laps_run`: A run that is cut further is taken in several passes.
* `Derives.tracked`: What is read is read within a larger source, and moved.
* `Fails.tracked`: What fails also fails at the end of a larger source, with
  the failure moved.
-/

namespace Inlay

/-! ### Zones -/

/-- The code of a zone ends at a mark, if it ends at a fragment at all. -/
def Zone.Marked : Zone → Prop
  | .group close => Marks [close]
  | _ => True

/-- Delimiters are closed by marks. -/
theorem Cursor.marks_closer? {c : Cursor} {close : List Char} (h : c.closer? = some close) :
    Marks [close] := by
  rcases closer?_cases h with ⟨_, rfl⟩ | ⟨_, rfl⟩ | ⟨_, rfl⟩ | ⟨_, rfl⟩ <;> decide

namespace Cursor

variable {c : Cursor}

/-- A group begins at one of the opening delimiters. -/
theorem isAt_opener {close : List Char} (h : c.closer? = some close) :
    c.isAt [['('], ['['], ['{'], Marker.spread] = true := by
  rcases closer?_cases h with ⟨hat, _⟩ | ⟨hat, _⟩ | ⟨hat, _⟩ | ⟨hat, _⟩ <;>
    rw [isAt_eq_contains hat] <;> decide

theorem marks_quote (h : c.isAt quotes = true) : Marks [c.current] := by
  rcases isAt_quotes h with hat | hat
  · rw [List.mem_singleton.mp (isAt_iff.mp hat).2]
    decide
  · rw [List.mem_singleton.mp (isAt_iff.mp hat).2]
    decide

/-- A string that does not go on to the end is followed by its quote. -/
theorem isAt_takeQuoted {quote : List Char} (h : (c.takeQuoted quote).2.eof = false) :
    (c.takeQuoted quote).2.isAt [quote] = true :=
  isAt_iff.mpr ⟨h, List.mem_singleton.mpr (current_takeQuoted h)⟩

end Cursor

/-- A run is none of some marks. -/
theorem PlainText.isAt {c : Cursor} (h : PlainText c.current) {texts : List (List Char)}
    (hm : Marks texts) : c.isAt texts = false := by
  rw [Cursor.isAt, h.not_mem hm, Bool.and_false]

namespace Cursor.Tracks

variable {us : List Fragment} {lines chars : Int} {c d : Cursor}

/-- The code of a zone ends at both cursors, or at none. -/
theorem ends (h : c.Tracks us lines chars d) {z : Zone} (hz : z.Marked) : z.ends d = z.ends c := by
  cases z with
  | source => exact h.eof
  | group close => rw [Zone.ends, Zone.ends, h.eof, h.isAt hz]
  | unnested => rw [Zone.ends_unnested, Zone.ends_unnested, h.head]

theorem plain (h : c.Tracks us lines chars d) (z : Zone) : z.plain d = z.plain c := by
  rw [Zone.plain, Zone.plain, h.isAt (by decide), h.isAt (by decide), h.isAt (by decide),
    h.isAt (by decide), h.closer?]

theorem tagEnds (h : c.Tracks us lines chars d) : d.tagEnds = c.tagEnds := by
  rw [Cursor.tagEnds, Cursor.tagEnds, h.eof, h.isAt (by decide)]

theorem contentEnds (h : c.Tracks us lines chars d) : d.contentEnds = c.contentEnds := by
  rw [Cursor.contentEnds, Cursor.contentEnds, h.eof, h.isAt (by decide)]

/-- The name of an element, and the place where its entries begin. -/
theorem tag (h : c.Tracks us lines chars d) (hat : c.isAt [['<']] = true)
    (ho : c.advance.pastName.Open us) :
    d.isAt [['<']] = true ∧ d.advance.name = c.advance.name ∧
      c.advance.pastName.Tracks us lines chars d.advance.pastName := by
  have hname : c.advance.Open us := ho.of_suffix (suffix_pastName _)
  have hin := (h.advance (by decide) hat).2.opened hname
  exact ⟨by rw [h.isAt (by decide), hat], hin.name, hin.pastName ho⟩

/-- A string that is not closed at the end of the text is not closed at the
    end of a larger source. -/
theorem unclosed (h : c.Tracks [] lines chars d) (hat : c.isAt quotes = true)
    (heof : (c.advance.takeQuoted c.current).2.eof = true) :
    d.isAt quotes = true ∧ (d.advance.takeQuoted d.current).2.eof = true := by
  rcases h.advance (by decide) hat with ⟨hquote, hin⟩
  have hleft := (hin.takeQuoted (Cursor.marks_quote hat) (Or.inl rfl)).2
  exact ⟨by rw [h.isAt (by decide), hat], by rw [hquote, hleft.eof, heof]⟩

end Cursor.Tracks

/-- What begins a mixin or an insertion is a mark. -/
theorem Grammar.marks_mixinMark (g : Grammar) : Marks [g.mixinMark] := by
  cases g <;> decide

theorem Grammar.marks_insertionMark (g : Grammar) : Marks [g.insertionMark] := by
  cases g <;> decide

theorem Grammar.marks_textStops (g : Grammar) : Marks g.textStops := by
  cases g <;> decide

/-! ### Literals -/

namespace Rule

variable {us : List Fragment} {lines chars : Int} {c c' d : Cursor} {t : List Char}

theorem quotedString_tracked (h : quotedString c = .ok t c') (hd : c.Tracks us lines chars d) :
    ∃ d', quotedString d = .ok t d' ∧ c'.Within us lines chars d' := by
  rcases quotedString_eq_ok_iff.mp h with ⟨hat, heof, rfl, rfl⟩
  rcases hd.advance (by decide) hat with ⟨hquote, hopen⟩
  have hmark := c.marks_quote hat
  rcases hopen.takeQuoted hmark (Or.inr heof) with ⟨htext, hleft⟩
  rcases hleft.advance hmark (Cursor.isAt_takeQuoted heof) with ⟨hlast, hclose⟩
  refine ⟨_, quotedString_eq_ok_iff.mpr ⟨?_, ?_, ?_, rfl⟩, ?_⟩
  · rw [hd.isAt (by decide), hat]
  · rw [hquote, hleft.eof, heof]
  · rw [hquote, htext, hlast]
  · rw [hquote]
    exact hclose

/-- A text up to a mark that is passed as well. -/
theorem takeThrough_tracked {stops : List (List Char)} (hm : Marks stops)
    (heof : (c.takeUntil stops).2.eof = false) (hd : c.Within us lines chars d) :
    (d.takeUntil stops).2.eof = false ∧ (d.takeUntil stops).1 = (c.takeUntil stops).1 ∧
      (d.takeUntil stops).2.current = (c.takeUntil stops).2.current ∧
      (c.takeUntil stops).2.advance.Within us lines chars (d.takeUntil stops).2.advance := by
  rcases hd.takeUntil hm (Or.inr heof) with ⟨htext, hleft⟩
  rcases hleft.advance hm (Cursor.isAt_takeUntil stops c heof) with ⟨hlast, hclose⟩
  exact ⟨by rw [hleft.eof, heof], htext, hlast, hclose⟩

/-- A comment that ends with its line does not end where the text does, unless
    nothing follows. -/
theorem lineComment_tracked (h : lineComment c = .ok t c') (hd : c.Tracks us lines chars d)
    (ho : (c.takeUntil [['\n']]).2.Open us) :
    ∃ d', lineComment d = .ok t d' ∧ c'.Within us lines chars d' := by
  rcases lineComment_eq_ok_iff.mp h with ⟨hat, hend⟩
  have hat' : d.isAt [Marker.lineComment] = true := by rw [hd.isAt (by decide), hat]
  rcases hend with ⟨heof, rfl, rfl⟩ | ⟨heof, rfl, rfl⟩
  · rcases hd.takeUntil (by decide) ho with ⟨htext, hleft⟩
    refine ⟨_, lineComment_eq_ok_iff.mpr ⟨hat', Or.inl ⟨?_, htext.symm, rfl⟩⟩, hleft.toWithin⟩
    rw [hleft.eof, heof]
  · rcases takeThrough_tracked (by decide) heof hd.toWithin with ⟨heof', htext, hlast, hclose⟩
    exact ⟨_, lineComment_eq_ok_iff.mpr ⟨hat', Or.inr ⟨heof', by rw [htext, hlast], rfl⟩⟩, hclose⟩

/-- Where the text goes on behind a comment, the comment ended with its line. -/
theorem open_lineComment (h : lineComment c = .ok t c') (ho : c'.Open us) :
    (c.takeUntil [['\n']]).2.Open us := by
  rcases (lineComment_eq_ok_iff.mp h).2 with ⟨_, _, rfl⟩ | ⟨heof, _, _⟩
  · exact ho
  · exact Or.inr heof

theorem blockComment_tracked (h : blockComment c = .ok t c') (hd : c.Tracks us lines chars d) :
    ∃ d', blockComment d = .ok t d' ∧ c'.Within us lines chars d' := by
  rcases blockComment_eq_ok_iff.mp h with ⟨hat, heof, rfl, rfl⟩
  rcases takeThrough_tracked (by decide) heof hd.toWithin with ⟨heof', htext, hlast, hclose⟩
  refine ⟨_, blockComment_eq_ok_iff.mpr ⟨?_, heof', by rw [htext, hlast], rfl⟩, hclose⟩
  rw [hd.isAt (by decide), hat]

theorem comment_tracked {x : Child} (h : comment c = .ok x c') (hd : c.Tracks us lines chars d) :
    ∃ d', comment d = .ok x d' ∧ c'.Within us lines chars d' := by
  rcases comment_eq_ok_iff.mp h with ⟨hat, heof, rfl, rfl⟩
  rcases hd.advance (by decide) hat with ⟨_, hopen⟩
  rcases takeThrough_tracked (by decide) heof hopen with ⟨heof', htext, _, hclose⟩
  refine ⟨_, comment_eq_ok_iff.mpr ⟨?_, heof', by rw [htext], rfl⟩, hclose⟩
  rw [hd.isAt (by decide), hat]

end Rule

/-! ### Passes -/

/-- Some passes over the code of a zone, none of which begins where the code
    ends. -/
inductive Laps (g : Grammar) (z : Zone) : Cursor → List Piece → Cursor → Prop where
  | nil {c : Cursor} : Laps g z c [] c
  | cons {c c₁ c' : Cursor} {ps qs : List Piece} :
    z.ends c = false → Derives g c (.piece z ps) c₁ → Laps g z c₁ qs c' →
      Laps g z c (ps ++ qs) c'

namespace Laps

variable {g : Grammar} {z : Zone} {c c' c'' : Cursor} {ps qs : List Piece}

theorem one (hend : z.ends c = false) (h : Derives g c (.piece z ps) c') : Laps g z c ps c' := by
  have hlap := Laps.cons hend h Laps.nil
  rwa [List.append_nil] at hlap

theorem append (h : Laps g z c ps c') (h' : Laps g z c' qs c'') : Laps g z c (ps ++ qs) c'' := by
  induction h with
  | nil => exact h'
  | cons hend hp _ ih =>
      rw [List.append_assoc]
      exact Laps.cons hend hp (ih h')

/-- A loop over code begins with some passes. -/
theorem pieces (h : Laps g z c ps c') (hqs : Derives g c' (.pieces z qs) c'') :
    Derives g c (.pieces z (ps ++ qs)) c'' := by
  induction h with
  | nil => exact hqs
  | cons hend hp _ ih =>
      rw [List.append_assoc]
      exact Derives.pieces hend hp (ih hqs)

theorem reaches (h : Laps g z c ps c') : Reaches g ⟨.pieces z, c⟩ ⟨.pieces z, c'⟩ := by
  induction h with
  | nil => exact Relation.ReflTransGen.refl
  | cons hend hp _ ih => exact ih.head (Enters.pieces hend hp)

end Laps

/-- The characters of a run that one pass over the code of a zone takes. -/
def Zone.takes : Zone → Char → Bool
  | .unnested, x => !Pattern.endsCode x
  | _, _ => true

theorem Zone.takes_eq_true {z : Zone} (hz : z ≠ .unnested) (x : Char) : z.takes x = true := by
  cases z with
  | source => rfl
  | group close => rfl
  | unnested => exact absurd rfl hz

theorem Zone.takeWhile_takes {z : Zone} (hz : z ≠ .unnested) (t : List Char) :
    t.takeWhile z.takes = t := by
  have hpos : (t ++ []).takeWhile z.takes = t ++ [].takeWhile z.takes :=
    List.takeWhile_append_of_pos fun x _ => Zone.takes_eq_true hz x
  rwa [List.append_nil, List.takeWhile_nil, List.append_nil] at hpos

/-- A run is taken in one pass, as far as the code of the zone goes. -/
theorem lap_run (g : Grammar) {z : Zone} (hz : z.Marked) {d : Cursor} {f : Fragment}
    {fs : List Fragment} (hd : d.unread = f :: fs) (hplain : PlainText f.text)
    (hf : z.takes f.head = true) :
    z.ends d = false ∧ ∃ d', Derives g d (.piece z [.text (f.text.takeWhile z.takes)]) d' ∧
      d'.unread = Fragment.listOf (f.text.dropWhile z.takes) ++ fs ∧
      d'.loc = d.loc.shifted (f.text.takeWhile z.takes).length := by
  rcases Cursor.of_unread_cons hd with ⟨heof, hcur, hadv⟩
  have hrun : PlainText d.current := by
    rw [hcur]
    exact hplain
  by_cases hopen : z = .unnested
  · subst hopen
    have hstretch : (d.split Pattern.codeStretch).1 = f.text.takeWhile Zone.unnested.takes := by
      rw [Cursor.split_codeStretch, hcur]
      rfl
    refine ⟨?_, (d.split Pattern.codeStretch).2, Derives.verbatim ?_, ?_, ?_⟩
    · rw [Zone.ends_unnested, hd]
      change Pattern.endsCode f.head = false
      simpa only [Zone.takes, Bool.not_eq_true'] using hf
    · rw [← hstretch]
      exact Verbatim.stretch (Cursor.closer?_plain hrun) (hrun.isAt (by decide))
    · rw [Cursor.unread_split_cons _ hd, hstretch, drop_length_takeWhile]
    · rw [Cursor.loc_split, hstretch]
  · -- Everywhere else a pass takes the fragment as a whole.
    have hall := Zone.takeWhile_takes hopen f.text
    have hnone : f.text.dropWhile z.takes = [] := by
      rw [← drop_length_takeWhile, hall, List.drop_length]
    rw [hall, hnone]
    refine ⟨?_, d.advance, Derives.verbatim ?_, hadv, ?_⟩
    · cases z with
      | source => exact heof
      | group close => rw [Zone.ends, heof, hrun.isAt hz, Bool.or_false]
      | unnested => exact absurd rfl hopen
    · rw [← hcur]
      refine Verbatim.plain hopen ?_
      rw [Zone.plain, hrun.isAt (by decide), hrun.isAt (by decide), hrun.isAt (by decide),
        hrun.isAt (by decide), Cursor.closer?_plain hrun]
      simp only [Bool.not_false, Bool.and_self, Option.isNone_none, Bool.or_true]
    · rw [← Location.past_plain hplain, Cursor.advance, hd]

/-- A run that is cut further is taken in several passes, which leave what one
    pass leaves of the whole run. -/
theorem laps_run (g : Grammar) (lines chars : Int) {z : Zone} (hz : z.Marked)
    {f : Fragment} {us fs gs : List Fragment} (h : Recut us (f :: fs) gs)
    (hplain : PlainText f.text) (hf : z.takes f.head = true) {d : Cursor} (hd : d.unread = gs) :
    ∃ ps d', Laps g z d ps d' ∧ Says lines chars [.text (f.text.takeWhile z.takes)] ps ∧
      Recut us (Fragment.listOf (f.text.dropWhile z.takes) ++ fs) d'.unread ∧
      d'.loc = d.loc.shifted (f.text.takeWhile z.takes).length := by
  generalize hl : f :: fs = l at h
  induction h generalizing f fs d with
  | nil => cases hl
  | keep hrest _ =>
      cases hl
      rcases lap_run g hz hd hplain hf with ⟨hend, d', hlap, hunread, hloc⟩
      refine ⟨_, d', Laps.one hend hlap, Says.text _, ?_, hloc⟩
      rw [hunread]
      exact hrest.prepend _
  | @cut f x y fs gs htext _ hapart hrest ih =>
      cases hl
      have hparts := hplain
      rw [htext] at hparts
      rcases PlainText.append_iff.mp hparts with ⟨hx, hy⟩
      have hhead : f.head = x.head := (List.cons.inj htext).1
      rcases lap_run g hz hd hx (by rw [← hhead]; exact hf) with ⟨hend, d₁, hlap, hunread, hloc⟩
      by_cases hleft : x.text.dropWhile z.takes = []
      · -- The first part is taken as a whole, and the rest of the run is next.
        have hx' : x.text.takeWhile z.takes = x.text := by
          have hcut := List.takeWhile_append_dropWhile (p := z.takes) (l := x.text)
          rwa [hleft, List.append_nil] at hcut
        have htake : f.text.takeWhile z.takes = x.text ++ y.text.takeWhile z.takes := by
          rw [htext, List.takeWhile_append, hx', if_pos rfl]
        have hdrop : f.text.dropWhile z.takes = y.text.dropWhile z.takes := by
          rw [htext, List.dropWhile_append, hleft, if_pos List.isEmpty_nil]
        have hd₁ : d₁.unread = gs := by rw [hunread, hleft]; rfl
        rw [hx'] at hlap hloc
        rw [htake, hdrop]
        by_cases hy' : z.takes y.head = true
        · rcases ih hy hy' hd₁ rfl with ⟨ps, d', hlaps, hsays, hrecut, hloc'⟩
          refine ⟨_, d', Laps.cons hend hlap hlaps, hsays.divide, hrecut, ?_⟩
          rw [hloc', hloc, Location.shifted_shifted, List.length_append, Int.natCast_add]
        · have hnone : y.text.takeWhile z.takes = [] := List.takeWhile_cons_of_neg hy'
          have hkept : y.text.dropWhile z.takes = y.text := List.dropWhile_cons_of_neg hy'
          rw [hnone, hkept, List.append_nil]
          refine ⟨_, d₁, Laps.one hend hlap, Says.text _, ?_, hloc⟩
          rw [hd₁]
          exact hrest
      · -- The first part holds the character that ends the code.
        rcases (Recut.cut htext hplain hapart hrest).dropWhile hleft with ⟨htake, hrecut⟩
        rw [htake]
        refine ⟨_, d₁, Laps.one hend hlap, Says.text _, ?_, hloc⟩
        rw [hunread]
        exact hrecut

theorem Zone.eof_of_ends {z : Zone} {c : Cursor} (h : z.ends c = false) : c.eof = false := by
  cases z with
  | source => exact h
  | group close => exact (Bool.or_eq_false_iff.mp h).1
  | unnested => exact (Bool.or_eq_false_iff.mp h).1

/-- The part of a run that a pass takes is taken within a larger source, in
    some number of passes. -/
theorem Cursor.Tracks.laps (g : Grammar) {us : List Fragment} {lines chars : Int} {z : Zone}
    {c c' d : Cursor} (hd : c.Tracks us lines chars d) (hz : z.Marked)
    (hplain : PlainText c.current) (hend : z.ends c = false) {f : Fragment} {fs : List Fragment}
    (hc : c.unread = f :: fs)
    (hunread : c'.unread = Fragment.listOf (f.text.dropWhile z.takes) ++ fs)
    (hloc : c'.loc = c.loc.shifted (f.text.takeWhile z.takes).length) :
    ∃ ps d', Laps g z d ps d' ∧ Says lines chars [.text (f.text.takeWhile z.takes)] ps ∧
      c'.Within us lines chars d' := by
  rw [(of_unread_cons hc).2.1] at hplain
  have hf : z.takes f.head = true := by
    by_cases hopen : z = .unnested
    · subst hopen
      rw [Zone.ends_unnested, hc] at hend
      change Pattern.endsCode f.head = false at hend
      rw [Zone.takes, hend]
      rfl
    · exact Zone.takes_eq_true hopen _
  have hrecut := hd.unread
  rw [hc] at hrecut
  rcases laps_run g lines chars hz hrecut hplain hf rfl with ⟨ps, d', hlaps, hsays, hleft, hloc'⟩
  refine ⟨ps, d', hlaps, hsays, ?_, ?_⟩
  · rw [hunread]
    exact hleft
  · rw [hloc', hloc, hd.loc, Location.moved_shifted]

/-- A pass over code that takes text over is followed by passes that take the
    same text over. Whatever follows the text makes a difference to comments
    that end with their line, and to nothing else. -/
theorem Verbatim.tracked (g : Grammar) {us : List Fragment} {lines chars : Int} {z : Zone}
    {c c' d : Cursor} {t : List Char} (h : Verbatim z c t c') (hz : z.Marked)
    (hend : z.ends c = false) (hd : c.Tracks us lines chars d)
    (hline : Rule.lineComment c = .ok t c' → (c.takeUntil [['\n']]).2.Open us) :
    ∃ ps d', Laps g z d ps d' ∧ Says lines chars [.text t] ps ∧ c'.Within us lines chars d' := by
  have hend' : z.ends d = false := by rw [hd.ends hz, hend]
  cases h with
  | string ht =>
      rcases Rule.quotedString_tracked ht hd with ⟨d', hread, hwithin⟩
      exact ⟨_, d', Laps.one hend' (Derives.verbatim (Verbatim.string hread)), Says.text t, hwithin⟩
  | lineComment hopen ht =>
      rcases Rule.lineComment_tracked ht hd (hline ht) with ⟨d', hread, hwithin⟩
      exact ⟨_, d', Laps.one hend' (Derives.verbatim (Verbatim.lineComment hopen hread)),
        Says.text t, hwithin⟩
  | blockComment hopen ht =>
      rcases Rule.blockComment_tracked ht hd with ⟨d', hread, hwithin⟩
      exact ⟨_, d', Laps.one hend' (Derives.verbatim (Verbatim.blockComment hopen hread)),
        Says.text t, hwithin⟩
  | plain hopen hplain =>
      rcases hd.current with hsame | ⟨_, hrun⟩
      · have hplain' : z.plain d = true := by rw [hd.plain, hplain]
        refine ⟨_, d.advance, Laps.one hend' (Derives.verbatim (Verbatim.plain hopen hplain')), ?_,
          hd.advance_of_current hsame⟩
        rw [hsame]
        exact Says.text _
      · rcases Cursor.unread_of_eof (Zone.eof_of_ends hend) with ⟨f, hf, hcur, hpass⟩
        have hall := Zone.takeWhile_takes hopen f.text
        have hloc : c.advance.loc = c.loc.shifted (f.text.takeWhile z.takes).length := by
          rw [hall, ← Location.past_plain (by rw [← hcur]; exact hrun)]
          exact hpass.2
        have hunread : c.advance.unread =
            Fragment.listOf (f.text.dropWhile z.takes) ++ c.advance.unread := by
          rw [← drop_length_takeWhile, hall, List.drop_length]
          rfl
        rcases hd.laps g hz hrun hend hf hunread hloc with ⟨ps, d', hlaps, hsays, hwithin⟩
        rw [hall, ← hcur] at hsays
        exact ⟨ps, d', hlaps, hsays, hwithin⟩
  | stretch hclose hquote =>
      rcases hd.current with hsame | ⟨_, hrun⟩
      · have hpeeled : (d.split Pattern.codeStretch).1 = (c.split Pattern.codeStretch).1 := by
          rw [Cursor.split_fst, Cursor.split_fst, hsame]
        have hverb : Verbatim .unnested d (d.split Pattern.codeStretch).1
            (d.split Pattern.codeStretch).2 :=
          Verbatim.stretch (by rw [hd.closer?, hclose]) (by rw [hd.isAt (by decide), hquote])
        refine ⟨_, _, Laps.one hend' (Derives.verbatim hverb), ?_, hd.split hpeeled⟩
        rw [hpeeled]
        exact Says.text _
      · rcases Cursor.unread_of_eof (Zone.eof_of_ends hend) with ⟨f, hf, hcur, _⟩
        have hpeeled : (c.split Pattern.codeStretch).1 = f.text.takeWhile Zone.unnested.takes := by
          rw [Cursor.split_codeStretch, hcur]
          rfl
        rw [hpeeled]
        refine hd.laps g hz hrun hend hf ?_ ?_
        · rw [Cursor.unread_split_cons _ hf, hpeeled, drop_length_takeWhile]
        · rw [Cursor.loc_split, hpeeled]

/-! ### Derivations -/

/-- A phrase that ends at `c'` is read from every cursor that tracks `c`, if
    the text goes on at `c'`. -/
def ReadsAlong (g : Grammar) (us : List Fragment) (lines chars : Int) (c : Cursor) (p : Phrase)
    (c' : Cursor) : Prop :=
  ∀ d, c.Tracks us lines chars d → c'.Open us →
    ∃ d', Derives g d p d' ∧ c'.Tracks us lines chars d'

/-- What is kept along a derivation. Code comes in pieces that say the same;
    everything else is moved. -/
def Phrase.Tracked (g : Grammar) (us : List Fragment) (lines chars : Int) (c : Cursor) :
    Phrase → Cursor → Prop
  | .piece z ps, c' =>
    z.Marked → z.ends c = false → ∀ d, c.Tracks us lines chars d → c'.Open us →
      ∃ qs d', Laps g z d qs d' ∧ Says lines chars ps qs ∧ c'.Tracks us lines chars d'
  | .pieces z ps, c' =>
    z.Marked → ∀ d, c.Tracks us lines chars d → c'.Open us →
      ∃ qs d', Derives g d (.pieces z qs) d' ∧ Says lines chars ps qs ∧ c'.Tracks us lines chars d'
  | .group ps, c' =>
    ∀ d, c.Tracks us lines chars d →
      ∃ qs d', Derives g d (.group qs) d' ∧ Says lines chars ps qs ∧ c'.Within us lines chars d'
  | .code ss, c' => ReadsAlong g us lines chars c (.code (movedCode lines chars ss)) c'
  | .entry a, c' => ReadsAlong g us lines chars c (.entry (a.moved lines chars)) c'
  | .entries as, c' => ReadsAlong g us lines chars c (.entries (movedAttributes lines chars as)) c'
  | .child x, c' => ReadsAlong g us lines chars c (.child (x.moved lines chars)) c'
  | .children xs, c' => ReadsAlong g us lines chars c (.children (movedContent lines chars xs)) c'
  | .element e, c' =>
    ∀ d, c.Tracks us lines chars d →
      ∃ d', Derives g d (.element (e.moved lines chars)) d' ∧ c'.Within us lines chars d'

/-- What is read from a text is read within a larger source, and moved. -/
theorem Derives.tracked {g : Grammar} {c c' : Cursor} {p : Phrase} (h : Derives g c p c')
    (us : List Fragment) (lines chars : Int) : p.Tracked g us lines chars c c' := by
  induction h with
  | verbatim ht =>
      intro hmarked hend d hd ho
      rcases ht.tracked g hmarked hend hd fun hline => Rule.open_lineComment hline ho with
        ⟨qs, d', hlaps, hsays, hwithin⟩
      exact ⟨qs, d', hlaps, hsays, hwithin.opened ho⟩
  | inlay hz _ ih =>
      intro hmarked hend d hd ho
      rcases ih d hd with ⟨d', hread, hwithin⟩
      refine ⟨_, d', Laps.one ?_ (Derives.inlay hz hread), ?_, hwithin.opened ho⟩
      · rw [hd.ends hmarked, hend]
      · rw [hwithin.loc]
        exact Says.inlay _ _
  | nest hz _ ih =>
      intro hmarked hend d hd ho
      rcases ih d hd with ⟨qs, d', hread, hsays, hwithin⟩
      refine ⟨qs, d', Laps.one ?_ (Derives.nest hz hread), hsays, hwithin.opened ho⟩
      rw [hd.ends hmarked, hend]
  | noPieces hend =>
      intro hmarked d hd _
      exact ⟨[], d, Derives.noPieces (by rw [hd.ends hmarked, hend]), Says.nil, hd⟩
  | pieces hend _ hqs ihp ihqs =>
      intro hmarked d hd ho
      rcases ihp hmarked hend d hd (ho.of_suffix hqs.suffix) with ⟨ps', d₁, hlaps, hsays, hd₁⟩
      rcases ihqs hmarked d₁ hd₁ ho with ⟨qs', d', hread, hsays', htracks⟩
      exact ⟨_, d', hlaps.pieces hread, hsays.append hsays', htracks⟩
  | @group c c₁ close ps hclose hps heof ih =>
      intro d hd
      have hmark := Cursor.marks_closer? hclose
      have hat : c₁.isAt [close] = true := by
        have hend := hps.pieces_end
        rwa [Zone.ends, heof, Bool.false_or] at hend
      have ho₁ : c₁.Open us := Or.inr heof
      rcases hd.advance (by decide) (Cursor.isAt_opener hclose) with ⟨hopen, hin⟩
      rcases ih hmark d.advance (hin.opened (ho₁.of_suffix hps.suffix)) ho₁ with
        ⟨qs, d₁, hread, hsays, hd₁⟩
      rcases hd₁.advance hmark hat with ⟨hlast, hout⟩
      refine ⟨_, _, Derives.group (by rw [hd.closer?, hclose]) hread (by rw [hd₁.eof, heof]), ?_,
        hout⟩
      rw [hopen, hlast]
      exact ((Says.text c.current).append hsays).append (Says.text c₁.current)
  | openCode hg _ hne ih =>
      intro d hd ho
      rcases ih trivial d hd ho with ⟨qs, d', hread, hsays, htracks⟩
      refine ⟨d', ?_, htracks⟩
      rw [← hsays.flush, ← hd.loc]
      refine Derives.openCode hg hread ?_
      rw [hd.loc, hsays.flush]
      exact movedCode_ne_nil lines chars hne
  | bracedCode hg hat _ ih =>
      intro d hd ho
      rcases ih d hd with ⟨qs, d', hread, hsays, hwithin⟩
      refine ⟨d', ?_, hwithin.opened ho⟩
      rw [← hsays.unbraced, ← hd.loc, ← (hd.advance (by decide) hat).1]
      exact Derives.bracedCode hg (by rw [hd.isAt (by decide), hat]) hread
  | bare hname hsign =>
      intro d hd ho
      have hd' := hd.pastName ho
      refine ⟨d.pastName, ?_, hd'⟩
      rw [Attribute.moved, ← hd.name]
      exact Derives.bare (by rw [hd.matched?, hname]) (by rw [hd'.isAt (by decide), hsign])
  | quoted hname hsign ht =>
      intro d hd ho
      have hd' := hd.pastName (Cursor.open_of_isAt hsign)
      have hquote := (Rule.quotedString_eq_ok_iff.mp ht).1
      have hvalue := hd'.pastSign (by decide) hsign (Cursor.open_of_isAt hquote)
      rcases Rule.quotedString_tracked ht hvalue with ⟨d', hread, hwithin⟩
      refine ⟨d', ?_, hwithin.opened ho⟩
      rw [Attribute.moved, ← hd.name]
      exact Derives.quoted (by rw [hd.matched?, hname]) (by rw [hd'.isAt (by decide), hsign]) hread
  | computed hname hsign hquote hbrace hcode ih =>
      intro d hd ho
      have hd' := hd.pastName (Cursor.open_of_isAt hsign)
      have hvalue := hd'.pastSign (by decide) hsign (ho.of_suffix hcode.suffix)
      rcases ih _ hvalue ho with ⟨d', hread, htracks⟩
      refine ⟨d', ?_, htracks⟩
      rw [Attribute.moved, ← hd.name, ← hd.loc]
      refine Derives.computed (by rw [hd.matched?, hname])
        (by rw [hd'.isAt (by decide), hsign]) (by rw [hvalue.isAt (by decide), hquote])
        (fun hg => ?_) hread
      rw [hvalue.isAt (by decide), hbrace hg]
  | mixin hname hat hcode ih =>
      intro d hd ho
      have hin := hd.behindMark g.marks_mixinMark hat g (ho.of_suffix hcode.suffix)
      rcases ih _ hin ho with ⟨d', hread, htracks⟩
      refine ⟨d', ?_, htracks⟩
      rw [Attribute.moved, ← hd.loc]
      exact Derives.mixin (by rw [hd.matched?, hname])
        (by rw [hd.isAt g.marks_mixinMark, hat]) hread
  | noEntries hend =>
      intro d hd _
      exact ⟨d, Derives.noEntries (by rw [hd.tagEnds, hend]), hd⟩
  | @entries c c₁ c' a as hend _ has iha ihas =>
      intro d hd ho
      have ho₁ : c₁.skipBlank.Open us := ho.of_suffix has.suffix
      rcases iha d hd (ho₁.of_suffix c₁.suffix_skipBlank) with ⟨d₁, hread, hd₁⟩
      rcases ihas _ (hd₁.skipBlank ho₁) ho with ⟨d', hread', htracks⟩
      exact ⟨d', Derives.entries (by rw [hd.tagEnds, hend]) hread hread', htracks⟩
  | childElement _ ih =>
      intro d hd ho
      rcases ih d hd with ⟨d', hread, hwithin⟩
      exact ⟨d', Derives.childElement hread, hwithin.opened ho⟩
  | insertion hat hcode ih =>
      intro d hd ho
      have hin := hd.behindMark g.marks_insertionMark hat g (ho.of_suffix hcode.suffix)
      rcases ih _ hin ho with ⟨d', hread, htracks⟩
      refine ⟨d', ?_, htracks⟩
      rw [Child.moved, ← hd.loc]
      exact Derives.insertion (by rw [hd.isAt g.marks_insertionMark, hat]) hread
  | comment ht =>
      intro d hd ho
      rcases Rule.comment_tracked ht hd with ⟨d', hread, hwithin⟩
      rcases Rule.rest_comment ht with ⟨body, rfl, _⟩
      exact ⟨d', Derives.comment hread, hwithin.opened ho⟩
  | text hopen hinsert hcomment =>
      intro d hd ho
      rcases hd.takeUntil g.marks_textStops ho with ⟨htext, htracks⟩
      refine ⟨_, ?_, htracks⟩
      rw [Child.moved, ← htext]
      exact Derives.text (by rw [hd.isAt (by decide), hopen])
        (by rw [hd.isAt g.marks_insertionMark, hinsert]) (by rw [hd.isAt (by decide), hcomment])
  | noChildren hend =>
      intro d hd _
      exact ⟨d, Derives.noChildren (by rw [hd.contentEnds, hend]), hd⟩
  | children hend _ hxs ihx ihxs =>
      intro d hd ho
      rcases ihx d hd (ho.of_suffix hxs.suffix) with ⟨d₁, hread, hd₁⟩
      rcases ihxs d₁ hd₁ ho with ⟨d', hread', htracks⟩
      exact ⟨d', Derives.children (by rw [hd.contentEnds, hend]) hread hread', htracks⟩
  | @emptyElement c c₁ as hat hname has hclose ih =>
      intro d hd
      have ho₁ : c₁.Open us := Cursor.open_of_isAt hclose
      rcases hd.tag hat (ho₁.of_suffix has.suffix) with ⟨hat', htag, hin⟩
      rcases ih _ hin ho₁ with ⟨d₁, hread, hd₁⟩
      refine ⟨d₁.advance, ?_, (hd₁.advance (by decide) hclose).2⟩
      rw [Element.moved, ← htag, ← hd.loc]
      rw [← htag] at hname
      exact Derives.emptyElement hat' hname hread (by rw [hd₁.isAt (by decide), hclose])
  | @fullElement c c₁ c₂ as xs hat hname has hclose hxs hend htag hlast ihas ihxs =>
      intro d hd
      have ho₁ : c₁.Open us := Cursor.open_of_isAt hclose
      have ho₂ : c₂.Open us := Cursor.open_of_isAt hend
      rcases hd.tag hat (ho₁.of_suffix has.suffix) with ⟨hat', hname', hin⟩
      rcases ihas _ hin ho₁ with ⟨d₁, hread, hd₁⟩
      have hbody := (hd₁.advance (by decide) hclose).2.opened (ho₂.of_suffix hxs.suffix)
      rcases ihxs _ hbody ho₂ with ⟨d₂, hread', hd₂⟩
      -- The end tag is read up to its last mark, which is there.
      have ho₃ : (c₂.advance.split Pattern.identifier).2.Open us := Cursor.open_of_isAt hlast
      have hout := (hd₂.advance (by decide) hend).2.opened (ho₃.of_suffix (Cursor.suffix_split _ _))
      have htag' := hout.pastTag.opened ho₃
      refine ⟨_, ?_, (htag'.advance (by decide) hlast).2⟩
      rw [Element.moved, ← hname', ← hd.loc]
      refine Derives.fullElement hat' ?_ hread (by rw [hd₁.isAt (by decide), hclose]) hread'
        (by rw [hd₂.isAt (by decide), hend]) ?_ (by rw [htag'.isAt (by decide), hlast])
      · rw [hname']
        exact hname
      · rw [hname', ← htag]
        exact hout.name

/-! ### Tasks -/

/-- The code of a goal ends at a mark, if the goal is code. -/
def Goal.Marked : Goal → Prop
  | .piece z => z.Marked
  | .pieces z => z.Marked
  | _ => True

/-- The same is to be read at the end of a larger source. -/
structure Task.Tracks (lines chars : Int) (t u : Task) : Prop where
  goal : u.goal = t.goal
  marked : t.goal.Marked
  cursor : t.cursor.Tracks [] lines chars u.cursor

section

variable {g : Grammar} {lines chars : Int} {c c₁ c₂ d : Cursor} {t t' u : Task} {f : Failure}

/-- Where nothing follows the text, it need not go on. -/
theorem Cursor.open_nil (c : Cursor) : c.Open [] :=
  Or.inl rfl

theorem TagRead.tracked (h : TagRead g c c₁) (hd : c.Tracks [] lines chars d) :
    ∃ d₁, TagRead g d d₁ ∧ c₁.Tracks [] lines chars d₁ := by
  rcases h with ⟨hat, hname, as, has⟩
  rcases hd.tag hat (Cursor.open_nil _) with ⟨hat', htag, hin⟩
  rcases has.tracked [] lines chars _ hin (Cursor.open_nil _) with ⟨d₁, hread, hd₁⟩
  rw [← htag] at hname
  exact ⟨d₁, ⟨hat', hname, _, hread⟩, hd₁⟩

theorem ContentRead.tracked (h : ContentRead g c c₂) (hd : c.Tracks [] lines chars d) :
    ∃ d₂, ContentRead g d d₂ ∧ c₂.Tracks [] lines chars d₂ := by
  rcases h with ⟨c₁, xs, htag, hclose, hxs⟩
  rcases htag.tracked hd with ⟨d₁, htag', hd₁⟩
  have hbody := (hd₁.advance (by decide) hclose).2.opened (Cursor.open_nil _)
  rcases hxs.tracked [] lines chars _ hbody (Cursor.open_nil _) with ⟨d₂, hread, hd₂⟩
  exact ⟨d₂, ⟨d₁, _, htag', by rw [hd₁.isAt (by decide), hclose], hread⟩, hd₂⟩

/-- The names in the tags of an element of which the content has been read. -/
theorem ContentRead.names (h : ContentRead g c c₂) (heof : c₂.eof = false)
    (hd : c.Tracks [] lines chars d) {d₂ : Cursor} (hd₂ : c₂.Tracks [] lines chars d₂) :
    d.advance.name = c.advance.name ∧ c₂.advance.Tracks [] lines chars d₂.advance := by
  have hout := (hd₂.advance (by decide) (h.isAt_endOpen heof)).2.opened (Cursor.open_nil _)
  rcases h with ⟨_, _, htag, _⟩
  exact ⟨(hd.tag htag.1 (Cursor.open_nil _)).2.1, hout⟩

theorem ValueNext.tracked (h : ValueNext c) (hd : c.Tracks [] lines chars d) :
    ValueNext d ∧ c.pastName.pastSign.Tracks [] lines chars d.pastName.pastSign := by
  rcases h with ⟨hname, hsign⟩
  have hd' := hd.pastName (Cursor.open_nil _)
  refine ⟨⟨?_, ?_⟩, hd'.pastSign (by decide) hsign (Cursor.open_nil _)⟩
  · rw [hd.matched?, hname]
  · rw [hd'.isAt (by decide), hsign]

/-- What a task enters is reached from a task that tracks it. -/
theorem Enters.tracked (h : Enters g t t') (hu : t.Tracks lines chars u) :
    ∃ u', Reaches g u u' ∧ t'.Tracks lines chars u' := by
  rcases u with ⟨goal, d⟩
  rcases hu with ⟨hgoal, hmarked, hd⟩
  -- All but one of the steps are followed by a single step.
  have hone : ∀ u', Enters g ⟨goal, d⟩ u' → t'.Tracks lines chars u' →
      ∃ u', Reaches g ⟨goal, d⟩ u' ∧ t'.Tracks lines chars u' :=
    fun u' henter htracks => ⟨u', Relation.ReflTransGen.single henter, htracks⟩
  cases h with
  | inlay hz hat =>
      cases hgoal
      exact hone _ (Enters.inlay hz (by rw [hd.isAt (by decide), hat])) ⟨rfl, trivial, hd⟩
  | nest hz hclose =>
      cases hgoal
      exact hone _ (Enters.nest hz (by rw [hd.closer?, hclose])) ⟨rfl, trivial, hd⟩
  | piece hend =>
      cases hgoal
      exact hone _ (Enters.piece (by rw [hd.ends hmarked, hend])) ⟨rfl, hmarked, hd⟩
  | pieces hend hps =>
      cases hgoal
      rcases hps.tracked [] lines chars hmarked hend d hd (Cursor.open_nil _) with
        ⟨qs, d₁, hlaps, _, hd₁⟩
      exact ⟨_, hlaps.reaches, rfl, hmarked, hd₁⟩
  | group hclose =>
      cases hgoal
      have hin := (hd.advance (by decide) (Cursor.isAt_opener hclose)).2
      exact hone _ (Enters.group (by rw [hd.closer?, hclose]))
        ⟨rfl, Cursor.marks_closer? hclose, hin.opened (Cursor.open_nil _)⟩
  | openCode hg =>
      cases hgoal
      exact hone _ (Enters.openCode hg) ⟨rfl, trivial, hd⟩
  | bracedCode hg hat =>
      cases hgoal
      exact hone _ (Enters.bracedCode hg (by rw [hd.isAt (by decide), hat])) ⟨rfl, trivial, hd⟩
  | computed hvalue hquote hbrace =>
      cases hgoal
      rcases hvalue.tracked hd with ⟨hvalue', hd'⟩
      refine hone _ (Enters.computed hvalue' ?_ fun hg => ?_) ⟨rfl, trivial, hd'⟩
      · rw [hd'.isAt (by decide), hquote]
      · rw [hd'.isAt (by decide), hbrace hg]
  | mixin hname hat =>
      cases hgoal
      exact hone _ (Enters.mixin (by rw [hd.matched?, hname])
        (by rw [hd.isAt g.marks_mixinMark, hat]))
        ⟨rfl, trivial, hd.behindMark g.marks_mixinMark hat g (Cursor.open_nil _)⟩
  | entry hend =>
      cases hgoal
      exact hone _ (Enters.entry (by rw [hd.tagEnds, hend])) ⟨rfl, trivial, hd⟩
  | entries hend ha =>
      cases hgoal
      rcases ha.tracked [] lines chars d hd (Cursor.open_nil _) with ⟨d₁, hread, hd₁⟩
      exact hone _ (Enters.entries (by rw [hd.tagEnds, hend]) hread)
        ⟨rfl, trivial, hd₁.skipBlank (Cursor.open_nil _)⟩
  | childElement hat =>
      cases hgoal
      exact hone _ (Enters.childElement (by rw [hd.isAt (by decide), hat])) ⟨rfl, trivial, hd⟩
  | insertion hat =>
      cases hgoal
      exact hone _ (Enters.insertion (by rw [hd.isAt g.marks_insertionMark, hat]))
        ⟨rfl, trivial, hd.behindMark g.marks_insertionMark hat g (Cursor.open_nil _)⟩
  | child hend =>
      cases hgoal
      exact hone _ (Enters.child (by rw [hd.contentEnds, hend])) ⟨rfl, trivial, hd⟩
  | children hend hx =>
      cases hgoal
      rcases hx.tracked [] lines chars d hd (Cursor.open_nil _) with ⟨d₁, hread, hd₁⟩
      exact hone _ (Enters.children (by rw [hd.contentEnds, hend]) hread) ⟨rfl, trivial, hd₁⟩
  | tag hat hname =>
      cases hgoal
      rcases hd.tag hat (Cursor.open_nil _) with ⟨hat', htag, hin⟩
      rw [← htag] at hname
      exact hone _ (Enters.tag hat' hname) ⟨rfl, trivial, hin⟩
  | content htag hclose =>
      cases hgoal
      rcases htag.tracked hd with ⟨d₁, htag', hd₁⟩
      exact hone _ (Enters.content htag' (by rw [hd₁.isAt (by decide), hclose]))
        ⟨rfl, trivial, (hd₁.advance (by decide) hclose).2.opened (Cursor.open_nil _)⟩

theorem Reaches.tracked (h : Reaches g t t') (hu : t.Tracks lines chars u) :
    ∃ u', Reaches g u u' ∧ t'.Tracks lines chars u' := by
  induction h with
  | refl => exact ⟨u, Relation.ReflTransGen.refl, hu⟩
  | tail _ henter ih =>
      rcases ih with ⟨u₁, hreach, hu₁⟩
      rcases henter.tracked hu₁ with ⟨u', hreach', hu'⟩
      exact ⟨u', hreach.trans hreach', hu'⟩

/-- What a task fails with is what a task that tracks it fails with. -/
theorem Raises.tracked (h : Raises g t f) (hu : t.Tracks lines chars u) :
    Raises g u (f.moved lines chars) := by
  rcases u with ⟨goal, d⟩
  rcases hu with ⟨hgoal, hmarked, hd⟩
  cases h with
  | string hat heof =>
      cases hgoal
      rcases hd.unclosed hat heof with ⟨hat', heof'⟩
      rw [Failure.moved, ← hd.loc]
      exact Raises.string hat' heof'
  | block hz hat heof =>
      cases hgoal
      have hclose : Marks [Marker.blockClose] := by decide
      rw [Failure.moved, ← hd.loc]
      refine Raises.block hz (by rw [hd.isAt (by decide), hat]) ?_
      rw [(hd.takeUntil hclose (Cursor.open_nil _)).2.eof, heof]
  | group hclose hps heof =>
      cases hgoal
      have hin := (hd.advance (by decide) (Cursor.isAt_opener hclose)).2.opened (Cursor.open_nil _)
      rcases hps.tracked [] lines chars (Cursor.marks_closer? hclose) _ hin (Cursor.open_nil _) with
        ⟨qs, d₁, hread, _, hd₁⟩
      rw [Failure.moved, ← hd.loc]
      exact Raises.group (by rw [hd.closer?, hclose]) hread (by rw [hd₁.eof, heof])
  | code hg hend =>
      cases hgoal
      have hmark : Zone.unnested.Marked := trivial
      rw [Failure.moved, ← hd.loc]
      exact Raises.code hg (by rw [hd.ends hmark, hend])
  | quoted hvalue hat heof =>
      cases hgoal
      rcases hvalue.tracked hd with ⟨hvalue', hd'⟩
      rcases hd'.unclosed hat heof with ⟨hat', heof'⟩
      rw [Failure.moved, ← hd'.loc]
      exact Raises.quoted hvalue' hat' heof'
  | value hg hvalue hquote hbrace =>
      cases hgoal
      rcases hvalue.tracked hd with ⟨hvalue', hd'⟩
      rw [Failure.moved, ← hd'.loc]
      exact Raises.value hg hvalue' (by rw [hd'.isAt (by decide), hquote])
        (by rw [hd'.isAt (by decide), hbrace])
  | entry hname hat =>
      cases hgoal
      rw [Failure.moved, ← hd.loc]
      exact Raises.entry (by rw [hd.matched?, hname]) (by rw [hd.isAt g.marks_mixinMark, hat])
  | comment hat heof =>
      cases hgoal
      have hclose : Marks [Marker.commentClose] := by decide
      have hin := (hd.advance (by decide) hat).2
      rw [Failure.moved, ← hd.loc]
      refine Raises.comment (by rw [hd.isAt (by decide), hat]) ?_
      rw [(hin.takeUntil hclose (Cursor.open_nil _)).2.eof, heof]
  | name hat hname =>
      cases hgoal
      rcases hd.tag hat (Cursor.open_nil _) with ⟨hat', htag, _⟩
      rw [Failure.moved, ← hd.loc]
      exact Raises.name hat' (by rw [htag, hname])
  | tag htag heof =>
      cases hgoal
      rcases htag.tracked hd with ⟨d₁, htag', hd₁⟩
      rw [Failure.moved, ← hd.loc]
      exact Raises.tag htag' (by rw [hd₁.eof, heof])
  | content hcontent heof =>
      cases hgoal
      rcases hcontent.tracked hd with ⟨d₂, hcontent', hd₂⟩
      rw [Failure.moved, ← hd.loc]
      exact Raises.content hcontent' (by rw [hd₂.eof, heof])
  | endName hcontent heof hne =>
      cases hgoal
      rcases hcontent.tracked hd with ⟨d₂, hcontent', hd₂⟩
      rcases hcontent.names heof hd hd₂ with ⟨htag, hout⟩
      rw [← hout.name, ← htag] at hne
      rw [Failure.moved, ← hd.loc]
      exact Raises.endName hcontent' (by rw [hd₂.eof, heof]) hne
  | endTag hcontent heof hname hlast =>
      cases hgoal
      rcases hcontent.tracked hd with ⟨d₂, hcontent', hd₂⟩
      rcases hcontent.names heof hd hd₂ with ⟨htag, hout⟩
      have hleft := hout.pastTag.opened (Cursor.open_nil _)
      rw [← hout.name, ← htag] at hname
      rw [Failure.moved, ← hleft.loc]
      exact Raises.endTag hcontent' (by rw [hd₂.eof, heof]) hname
        (by rw [hleft.isAt (by decide), hlast])

/-- What fails also fails at the end of a larger source, with the failure
    moved. -/
theorem Fails.tracked (h : Fails g t f) (hu : t.Tracks lines chars u) :
    Fails g u (f.moved lines chars) := by
  rcases h with ⟨t', hreach, hraise⟩
  rcases hreach.tracked hu with ⟨u', hreach', hu'⟩
  exact ⟨u', hreach', hraise.tracked hu'⟩

end

end Inlay
