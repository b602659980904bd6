import Inlay.Proofs.Framing
import Inlay.Proofs.Lexing
import Inlay.Proofs.Moving
import Inlay.Proofs.Rendering

/-!
# A Text Within a Larger Source

The same text may stand in a source of its own or within a larger one, behind
some lines and in front of more text. It may also be divided differently: how
plain text is divided among fragments is not meant to matter, and there is one
thing in which it does, namely that a name is read from a single fragment. A
run may therefore be cut further at any place that is not inside of a name.

Whatever a cursor does at the text by itself has a counterpart within the
larger source. What is compared is the unread text with its division (`Recut`)
and the location, which differs by the lines in front (`Cursor.Within`). The
count of fragments left behind differs from the first cut on.

A mark is never cut, because every mark holds a structural character. So both
cursors are at the same marks, and all that is left to show is that what is
peeled off, passed or scanned in a run is the same whether or not the run is
cut on the way. There is one exception. Where the text by itself is over, the
larger source goes on, and the two have nothing in common from there. What the
cursors do next is the same only where there is more of the text, or nothing
follows it (`Cursor.Tracks`).

## Main definitions

* `Recut`: Fragments of which some are cut further, with more behind them.
* `Cursor.Within`: A cursor at the same place within a larger source.
* `Cursor.Tracks`: One that reads the same next.

## Theorems

* `Cursor.Tracks.isAt`, `Cursor.Tracks.closer?`: The marks are the same.
* `Cursor.Tracks.split`, `Cursor.Tracks.name`, `Cursor.Within.skipBlank`:
  Peeling and passing.
* `scan_recut`, `Cursor.Within.takeUntil`, `Cursor.Within.takeQuoted`: Taking
  fragments up to a mark.
-/

namespace Inlay

/-! ### Names across a cut -/

namespace Pattern

/-- A character that a name can hold. -/
def isInName (x : Char) : Bool :=
  isNameChar x || x == '.'

/-- A place at which a name does not go on: the characters around it do not
    both belong to names. -/
def Apart (t u : List Char) : Prop :=
  ∀ x ∈ t.getLast?, ∀ y ∈ u.head?, (isInName x && isInName y) = false

instance (t u : List Char) : Decidable (Apart t u) :=
  decidable_of_iff
    ((t.getLast?.all fun x => u.head?.all fun y => !(isInName x && isInName y)) = true)
    (by simp only [Apart, Option.all_eq_true, Option.mem_def, Bool.not_eq_true'])

theorem Apart.endsName {t u : List Char} {x : Char} (h : Apart t u) (hx : t.getLast? = some x)
    (hin : isInName x = true) : EndsName u := by
  intro y hy
  have hnot := h x hx y hy
  rw [hin, Bool.true_and] at hnot
  rcases Bool.or_eq_false_iff.mp hnot with ⟨hname, hdot⟩
  exact ⟨hname, beq_eq_false_iff_ne.mp hdot⟩

/-- Behind a first part, only its last character counts. -/
theorem Apart.tail {x : Char} {t u : List Char} (h : Apart (x :: t) u) : Apart t u := by
  intro a ha
  refine h a ?_
  rw [List.getLast?_cons, Option.mem_def.mp ha]
  rfl

/-- The rest of a name does not go on across a place where names end. -/
theorem nameTail_apart {t u : List Char} (h : Apart t u) (hne : t ≠ []) :
    nameTail (t ++ u) = nameTail t := by
  induction t with
  | nil => exact absurd rfl hne
  | cons x t ih =>
      cases t with
      | nil =>
          -- If the last character belongs to a name, nothing goes on with it.
          rw [List.singleton_append, nameTail, nameTail]
          by_cases hin : isInName x = true
          · have hends := h.endsName rfl hin
            have hhead : u.head?.any isNameChar = false := by
              cases hu : u.head? with
              | none => rfl
              | some y => exact (hends y hu).1
            rw [hhead, hends.nameTail]
            rfl
          · have hno := Bool.or_eq_false_iff.mp (Bool.eq_false_iff.mpr hin)
            rw [hno.1, hno.2]
            rfl
      | cons y t =>
          rw [List.cons_append, nameTail, nameTail, ih h.tail (List.cons_ne_nil _ _)]
          rfl

theorem identifier_apart {t u : List Char} (h : Apart t u) (hne : t ≠ []) :
    identifier (t ++ u) = identifier t := by
  cases t with
  | nil => exact absurd rfl hne
  | cons x t =>
      rw [List.cons_append, identifier, identifier]
      by_cases hx : isNameStart x = true
      · rw [if_pos hx, if_pos hx]
        cases t with
        | nil =>
            have hin : isInName x = true := by rw [isInName, isNameChar_of_isNameStart hx]; rfl
            rw [List.nil_append, (h.endsName rfl hin).nameTail]
            rfl
        | cons y t =>
            rw [nameTail_apart h.tail (List.cons_ne_nil _ _)]
      · rw [if_neg hx, if_neg hx]

end Pattern

/-! ### Fragments -/

/-- A text without structural characters. -/
def PlainText (t : List Char) : Prop :=
  ∀ x ∈ t, isStructural x = false

instance (t : List Char) : Decidable (PlainText t) :=
  decidable_of_iff ((t.all fun x => !isStructural x) = true)
    (by simp only [PlainText, List.all_eq_true, Bool.not_eq_true'])

theorem PlainText.append_iff {t u : List Char} :
    PlainText (t ++ u) ↔ PlainText t ∧ PlainText u :=
  List.forall_mem_append

theorem PlainText.ne_mark {t m : List Char} (h : PlainText t) (hm : m.any isStructural = true) :
    t ≠ m := by
  rintro rfl
  rcases List.any_eq_true.mp hm with ⟨x, hx, hstruct⟩
  rw [h x hx] at hstruct
  cases hstruct

theorem drop_length_takeWhile (p : Char → Bool) (t : List Char) :
    t.drop (t.takeWhile p).length = t.dropWhile p := by
  have hcut := List.takeWhile_append_dropWhile (p := p) (l := t)
  calc t.drop (t.takeWhile p).length
      = (t.takeWhile p ++ t.dropWhile p).drop (t.takeWhile p).length := by rw [hcut]
    _ = t.dropWhile p := List.drop_left

/-- The second fragments are the first ones, of which runs may have been cut
    where no name goes on, and then `us`. -/
inductive Recut (us : List Fragment) : List Fragment → List Fragment → Prop where
  | nil : Recut us [] us
  | keep {f : Fragment} {fs gs : List Fragment} : Recut us fs gs → Recut us (f :: fs) (f :: gs)
  | cut {f x y : Fragment} {fs gs : List Fragment} :
    f.text = x.text ++ y.text → PlainText f.text → Pattern.Apart x.text y.text →
      Recut us (y :: fs) gs → Recut us (f :: fs) (x :: gs)

namespace Recut

variable {us : List Fragment} {f x : Fragment} {fs gs : List Fragment}

theorem of_nil (h : Recut us [] gs) : gs = us := by
  cases h
  rfl

/-- The same fragments in front of both. -/
theorem prepend (h : Recut us fs gs) (hs : List Fragment) : Recut us (hs ++ fs) (hs ++ gs) := by
  induction hs with
  | nil => exact h
  | cons f hs ih => exact Recut.keep ih

/-- Without any cuts. -/
theorem append (us fs : List Fragment) : Recut us fs (fs ++ us) := by
  have hnone : Recut us (fs ++ []) (fs ++ us) := Recut.nil.prepend fs
  rwa [List.append_nil] at hnone

theorem refl (fs : List Fragment) : Recut [] fs fs := by
  have hsame := Recut.append [] fs
  rwa [List.append_nil] at hsame

/-- Cutting off the same number of characters from the first fragments. -/
theorem drop (h : Recut us (f :: fs) (x :: gs)) {n : Nat} (hn : n ≤ x.text.length) :
    Recut us (Fragment.listOf (f.text.drop n) ++ fs) (Fragment.listOf (x.text.drop n) ++ gs) := by
  cases h with
  | keep h => exact h.prepend _
  | @cut _ _ y _ _ htext hplain hapart h =>
      rw [htext, List.drop_append_of_le_length hn]
      cases hleft : x.text.drop n with
      | nil => exact h
      | cons z zs =>
          rw [htext] at hplain
          rcases PlainText.append_iff.mp hplain with ⟨hx, hy⟩
          refine Recut.cut (x := ⟨z, zs⟩) (y := y) rfl ?_ ?_ h
          · have hz : PlainText (z :: zs) := by
              rw [← hleft]
              exact fun a ha => hx a (List.mem_of_mem_drop ha)
            exact PlainText.append_iff.mpr ⟨hz, hy⟩
          · -- The last character in front of the cut is still the last one.
            intro a ha
            refine hapart a ?_
            have hlast : (z :: zs).getLast? = some a := ha
            rw [← List.take_append_drop n x.text, hleft, List.getLast?_append, hlast]
            rfl

/-- Where the first part of a run holds a character that ends a stretch, the
    stretch is the same with and without the cut. -/
theorem dropWhile (h : Recut us (f :: fs) (x :: gs)) {p : Char → Bool}
    (hstop : x.text.dropWhile p ≠ []) :
    f.text.takeWhile p = x.text.takeWhile p ∧
      Recut us (Fragment.listOf (f.text.dropWhile p) ++ fs)
        (Fragment.listOf (x.text.dropWhile p) ++ gs) := by
  have hlen : (x.text.takeWhile p).length ≤ x.text.length := (List.takeWhile_prefix p).length_le
  have hwhile : f.text.takeWhile p = x.text.takeWhile p := by
    cases h with
    | keep _ => rfl
    | cut htext _ _ _ =>
        have hshort : (x.text.takeWhile p).length ≠ x.text.length := by
          intro hall
          refine hstop ?_
          rw [← drop_length_takeWhile, hall, List.drop_length]
        rw [htext, List.takeWhile_append, if_neg hshort]
  have hdrop := h.drop hlen
  rw [drop_length_takeWhile, ← hwhile, drop_length_takeWhile] at hdrop
  exact ⟨hwhile, hdrop⟩

end Recut

/-! ### Cursors -/

/-- There is more of a text to read, or `us`, which follow it, are none. -/
def Cursor.Open (us : List Fragment) (c : Cursor) : Prop :=
  us = [] ∨ c.eof = false

/-- A cursor at the same place within a larger source: at the same text, of
    which runs may be cut further, in front of `us` and behind some more lines. -/
structure Cursor.Within (us : List Fragment) (lines chars : Int) (c d : Cursor) : Prop where
  unread : Recut us c.unread d.unread
  loc : d.loc = c.loc.moved lines chars

/-- A cursor at the same place within a larger source, where what is read next
    belongs to the text. -/
structure Cursor.Tracks (us : List Fragment) (lines chars : Int) (c d : Cursor) : Prop
    extends Cursor.Within us lines chars c d where
  isOpen : c.Open us

/-- Texts that are marks: each holds a structural character, so that no run is
    one of them. -/
def Marks (texts : List (List Char)) : Prop :=
  (texts.all fun t => t.any isStructural) = true

instance (texts : List (List Char)) : Decidable (Marks texts) :=
  inferInstanceAs (Decidable (_ = true))

theorem PlainText.not_mem {t : List Char} {texts : List (List Char)} (h : PlainText t)
    (hm : Marks texts) : texts.contains t = false := by
  cases hmem : texts.contains t with
  | false => rfl
  | true =>
      have hmark := List.all_eq_true.mp hm t (List.contains_iff_mem.mp hmem)
      exact absurd rfl (h.ne_mark hmark)

theorem Location.moved_past (lines chars : Int) (loc : Location) (f : Fragment) :
    (loc.past f).moved lines chars = (loc.moved lines chars).past f := by
  unfold Location.past
  by_cases hbreak : f.text = ['\n']
  · rw [if_pos hbreak, if_pos hbreak, Location.moved_nextLine]
  · rw [if_neg hbreak, if_neg hbreak, Location.moved_shifted]

theorem Location.past_plain {f : Fragment} (h : PlainText f.text) (loc : Location) :
    loc.past f = loc.shifted f.text.length := by
  rw [Location.past, if_neg (h.ne_mark (by decide)), Fragment.length_text]

namespace Cursor

theorem closer?_plain {c : Cursor} (h : PlainText c.current) : c.closer? = none := by
  unfold closer?
  rw [if_neg (h.ne_mark (by decide)), if_neg (h.ne_mark (by decide)), if_neg]
  simp only [h.ne_mark (m := ['{']) (by decide), h.ne_mark (m := Marker.spread) (by decide),
    decide_false, Bool.or_false, Bool.false_eq_true, not_false_eq_true]

/-! ### Where the text goes on -/

section

variable {us : List Fragment} {c c' : Cursor}

theorem open_of_isAt {texts : List (List Char)} (h : c.isAt texts = true) : c.Open us :=
  Or.inr (eof_of_isAt h)

/-- Where there is more to read, there was more before. -/
theorem Open.of_suffix (ho : c'.Open us) (h : c'.rest <:+ c.rest) : c.Open us := by
  rcases ho with hus | heof
  · exact Or.inl hus
  · refine Or.inr (Bool.eq_false_iff.mpr fun heof' => ?_)
    rw [rest_of_eof heof', List.suffix_nil, ← c'.current_append_rest_advance] at h
    exact absurd (List.append_eq_nil_iff.mp h).1 (current_ne_nil heof)

end

/-! ### Marks and names -/

namespace Tracks

variable {us : List Fragment} {lines chars : Int} {c d : Cursor}

/-- What the cursors are at: nothing, the same, or a run and its first part. -/
theorem inv (h : c.Tracks us lines chars d) :
    c.unread = [] ∧ d.unread = [] ∧ us = [] ∨
      (∃ f fs gs, c.unread = f :: fs ∧ d.unread = f :: gs ∧ Recut us fs gs) ∨
      ∃ f x y fs gs, c.unread = f :: fs ∧ d.unread = x :: gs ∧ f.text = x.text ++ y.text ∧
        PlainText f.text ∧ Pattern.Apart x.text y.text ∧ Recut us (y :: fs) gs := by
  rcases h with ⟨⟨hunread, _⟩, hopen⟩
  rcases c with ⟨unread, index, loc⟩
  rcases d with ⟨unread', index', loc'⟩
  simp only at hunread ⊢
  cases hunread with
  | nil =>
      have hus : us = [] := by
        rcases hopen with hus | heof
        · exact hus
        · cases heof
      exact Or.inl ⟨rfl, hus, hus⟩
  | keep hrest => exact Or.inr (Or.inl ⟨_, _, _, rfl, rfl, hrest⟩)
  | cut htext hplain hapart hrest =>
      exact Or.inr (Or.inr ⟨_, _, _, _, _, rfl, rfl, htext, hplain, hapart, hrest⟩)

theorem eof (h : c.Tracks us lines chars d) : d.eof = c.eof := by
  unfold Cursor.eof
  rcases h.inv with ⟨hc, hd, _⟩ | ⟨f, fs, gs, hc, hd, _⟩ | ⟨f, x, y, fs, gs, hc, hd, _⟩
  · rw [hc, hd]
  · rw [hc, hd]
    rfl
  · rw [hc, hd]
    rfl

/-- Cutting leaves the first character where it is. -/
theorem head (h : c.Tracks us lines chars d) :
    d.unread.head?.map Fragment.head = c.unread.head?.map Fragment.head := by
  rcases h.inv with ⟨hc, hd, _⟩ | ⟨f, fs, gs, hc, hd, _⟩ | ⟨f, x, y, fs, gs, hc, hd, htext, _⟩
  · rw [hc, hd]
  · rw [hc, hd]
    rfl
  · rw [hc, hd]
    exact (congrArg List.head? htext).symm

/-- The current fragments are the same, or parts of a run. -/
theorem current (h : c.Tracks us lines chars d) :
    d.current = c.current ∨ PlainText d.current ∧ PlainText c.current := by
  unfold Cursor.current
  rcases h.inv with ⟨hc, hd, _⟩ | ⟨f, fs, gs, hc, hd, _⟩ |
    ⟨f, x, y, fs, gs, hc, hd, htext, hplain, _⟩
  · rw [hc, hd]
    exact Or.inl rfl
  · rw [hc, hd]
    exact Or.inl rfl
  · rw [hc, hd]
    have hparts := hplain
    rw [htext] at hparts
    exact Or.inr ⟨(PlainText.append_iff.mp hparts).1, hplain⟩

/-- Both cursors are at the same marks. -/
theorem isAt (h : c.Tracks us lines chars d) {texts : List (List Char)} (hm : Marks texts) :
    d.isAt texts = c.isAt texts := by
  rw [Cursor.isAt, Cursor.isAt, h.eof]
  rcases h.current with hsame | ⟨hd, hc⟩
  · rw [hsame]
  · rw [hd.not_mem hm, hc.not_mem hm]

theorem closer? (h : c.Tracks us lines chars d) : d.closer? = c.closer? := by
  rcases h.current with hsame | ⟨hd, hc⟩
  · rw [Cursor.closer?, Cursor.closer?, hsame]
  · rw [closer?_plain hd, closer?_plain hc]

theorem matched? (h : c.Tracks us lines chars d) :
    (d.matched? Pattern.identifier).isSome = (c.matched? Pattern.identifier).isSome := by
  rw [matched?_identifier, matched?_identifier, head?_rest, head?_rest, h.head]

/-- The same name is read by both cursors. -/
theorem name (h : c.Tracks us lines chars d) : d.name = c.name := by
  rw [name_eq_take, name_eq_take]
  unfold Cursor.current
  rcases h.inv with ⟨hc, hd, _⟩ | ⟨f, fs, gs, hc, hd, _⟩ |
    ⟨f, x, y, fs, gs, hc, hd, htext, _, hapart, _⟩
  · rw [hc, hd]
  · rw [hc, hd]
  · rw [hc, hd]
    simp only
    rw [htext, Pattern.identifier_apart hapart x.text_ne_nil]
    -- A name that begins in the first part ends in it.
    refine (List.take_append_of_le_length ?_).symm
    rcases x with ⟨z, zs⟩
    simp only [Fragment.text, Pattern.identifier]
    by_cases hz : Pattern.isNameStart z = true
    · rw [if_pos hz, Option.getD_some, List.length_cons]
      exact Nat.succ_le_succ (Pattern.nameTail_le zs)
    · rw [if_neg hz]
      exact Nat.zero_le _

end Tracks

/-! ### Peeling and passing -/

/-- What blank space is passed to does not depend on the count. -/
theorem skipBlankFrom_index (fs : List Fragment) (i j : Nat) (loc : Location) :
    (skipBlankFrom fs i loc).unread = (skipBlankFrom fs j loc).unread ∧
      (skipBlankFrom fs i loc).loc = (skipBlankFrom fs j loc).loc := by
  induction fs generalizing i j loc with
  | nil => exact ⟨rfl, rfl⟩
  | cons f fs ih =>
      rw [skipBlankFrom, skipBlankFrom]
      by_cases hbreak : f.text = ['\n']
      · rw [if_pos hbreak, if_pos hbreak]
        exact ih _ _ _
      · rw [if_neg hbreak, if_neg hbreak]
        cases f.text.dropWhile Text.isBlank with
        | nil => exact ih _ _ _
        | cons x xs => exact ⟨rfl, rfl⟩

/-- Blank space in front of the rest of a run is passed as if the run began
    behind it. -/
theorem skipBlankFrom_run {f x y : Fragment} (htext : f.text = x.text ++ y.text)
    (hplain : PlainText f.text) (hblank : x.text.dropWhile Text.isBlank = []) (fs : List Fragment)
    (i j : Nat) (loc : Location) :
    (skipBlankFrom (f :: fs) i loc).unread =
        (skipBlankFrom (y :: fs) j (loc.shifted x.text.length)).unread ∧
      (skipBlankFrom (f :: fs) i loc).loc =
        (skipBlankFrom (y :: fs) j (loc.shifted x.text.length)).loc := by
  have hbreak : f.text ≠ ['\n'] := hplain.ne_mark (by decide)
  rw [htext] at hplain
  have hbreak' : y.text ≠ ['\n'] := (PlainText.append_iff.mp hplain).2.ne_mark (by decide)
  have hall : ∀ a ∈ x.text, Text.isBlank a = true := by
    have hcut := List.takeWhile_append_dropWhile (p := Text.isBlank) (l := x.text)
    rw [hblank, List.append_nil] at hcut
    rw [← hcut]
    exact List.all_eq_true.mp List.all_takeWhile
  have hwhile : f.text.dropWhile Text.isBlank = y.text.dropWhile Text.isBlank := by
    rw [htext, List.dropWhile_append, hblank, if_pos List.isEmpty_nil]
  have hlen : f.length = x.text.length + y.length := by
    rw [← Fragment.length_text, htext, List.length_append, Fragment.length_text y]
  rw [skipBlankFrom, skipBlankFrom, if_neg hbreak, if_neg hbreak', hwhile]
  cases y.text.dropWhile Text.isBlank with
  | nil =>
      simp only
      rw [Location.shifted_shifted, hlen, Int.natCast_add]
      exact skipBlankFrom_index fs _ _ _
  | cons z zs =>
      refine ⟨rfl, ?_⟩
      simp only
      rw [Location.shifted_shifted, htext, List.takeWhile_append_of_pos hall, List.length_append,
        Int.natCast_add]

namespace Within

variable {us : List Fragment} {lines chars : Int} {c c' d : Cursor}

theorem opened (h : c.Within us lines chars d) (ho : c.Open us) : c.Tracks us lines chars d :=
  ⟨h, ho⟩

/-- Only the unread fragments and the location count. -/
theorem congr (h : c.Within us lines chars d) (hunread : c'.unread = c.unread)
    (hloc : c'.loc = c.loc) : c'.Within us lines chars d :=
  ⟨by rw [hunread]; exact h.unread, by rw [hloc]; exact h.loc⟩

/-- Blank space is passed by both cursors, if it does not go on to the end of
    the text. -/
theorem skipBlank (h : c.Within us lines chars d) (ho : c.skipBlank.Open us) :
    c.skipBlank.Tracks us lines chars d.skipBlank := by
  refine Within.opened ?_ ho
  rcases h with ⟨hunread, hloc⟩
  rcases c with ⟨unread, index, loc⟩
  rcases d with ⟨unread', index', loc'⟩
  unfold Cursor.skipBlank at ho ⊢
  simp only at hunread hloc ho ⊢
  induction hunread generalizing index index' loc loc' with
  | nil =>
      rcases ho with rfl | heof
      · exact ⟨Recut.nil, hloc⟩
      · cases heof
  | @keep f fs gs hrest ih =>
      rw [skipBlankFrom] at ho ⊢
      rw [skipBlankFrom]
      by_cases hbreak : f.text = ['\n']
      · rw [if_pos hbreak] at ho ⊢
        rw [if_pos hbreak]
        exact ih _ _ ho _ _ (by rw [hloc, Location.moved_nextLine])
      · rw [if_neg hbreak] at ho ⊢
        rw [if_neg hbreak]
        cases hleft : f.text.dropWhile Text.isBlank with
        | nil =>
            rw [hleft] at ho
            exact ih _ _ ho _ _ (by rw [hloc, Location.moved_shifted])
        | cons x xs => exact ⟨Recut.keep hrest, by rw [hloc, Location.moved_shifted]⟩
  | @cut f x y fs gs htext hplain hapart hrest ih =>
      have hparts := hplain
      rw [htext] at hparts
      have hx := (PlainText.append_iff.mp hparts).1
      cases hleft : x.text.dropWhile Text.isBlank with
      | nil =>
          -- The first part is blank, and what follows it is passed further.
          rcases skipBlankFrom_run htext hplain hleft fs index index loc with ⟨hsame, hloc'⟩
          refine Within.congr ?_ hsame hloc'
          have hfine : skipBlankFrom (x :: gs) index' loc' =
              skipBlankFrom gs (index' + 1) (loc'.shifted x.length) := by
            rw [skipBlankFrom, if_neg (hx.ne_mark (by decide)), hleft]
          rw [hfine]
          have ho' : (skipBlankFrom (y :: fs) index (loc.shifted x.text.length)).Open us := by
            rwa [Open, Cursor.eof, ← hsame]
          exact ih _ _ ho' _ _ (by rw [hloc, Location.moved_shifted, Fragment.length_text])
      | cons z zs =>
          -- The first part holds all the blank space there is.
          have hwhile : f.text.dropWhile Text.isBlank = z :: zs ++ y.text := by
            rw [htext, List.dropWhile_append, hleft]
            rfl
          have hstop : x.text.dropWhile Text.isBlank ≠ [] := by
            rw [hleft]
            exact List.cons_ne_nil _ _
          rcases (Recut.cut htext hplain hapart hrest).dropWhile hstop with ⟨hblank, hrecut⟩
          rw [hwhile, hleft] at hrecut
          rw [skipBlankFrom, skipBlankFrom, if_neg (hplain.ne_mark (by decide)),
            if_neg (hx.ne_mark (by decide)), hwhile, hleft]
          refine ⟨hrecut, ?_⟩
          rw [hloc, hblank]
          exact (Location.moved_shifted lines chars loc _).symm

end Within

namespace Tracks

variable {us : List Fragment} {lines chars : Int} {c d : Cursor}

/-- The same fragment is passed by both cursors. -/
theorem advance_of_current (h : c.Tracks us lines chars d) (hsame : d.current = c.current) :
    c.advance.Within us lines chars d.advance := by
  have hloc := h.loc
  have hinv := h.inv
  rcases c with ⟨unread, index, loc⟩
  rcases d with ⟨unread', index', loc'⟩
  simp only at hinv hloc
  rcases hinv with ⟨rfl, rfl, rfl⟩ | ⟨f, fs, gs, rfl, rfl, hrest⟩ |
    ⟨f, x, y, fs, gs, rfl, rfl, htext, _⟩
  · exact ⟨Recut.nil, hloc⟩
  · refine ⟨hrest, ?_⟩
    rw [Cursor.advance, Cursor.advance, hloc, Location.moved_past]
  · -- A part of a run is shorter than the run.
    have hx : x.text ++ [] = x.text ++ y.text := by
      rw [List.append_nil, ← htext]
      exact hsame
    exact absurd (List.append_cancel_left hx).symm y.text_ne_nil

/-- A mark is the current fragment of both cursors, and is passed by both. -/
theorem advance (h : c.Tracks us lines chars d) {texts : List (List Char)} (hm : Marks texts)
    (hat : c.isAt texts = true) :
    d.current = c.current ∧ c.advance.Within us lines chars d.advance := by
  have hsame : d.current = c.current := by
    rcases h.current with hsame | ⟨_, hplain⟩
    · exact hsame
    · have hin := List.contains_iff_mem.mpr (isAt_iff.mp hat).2
      rw [hplain.not_mem hm] at hin
      cases hin
  exact ⟨hsame, h.advance_of_current hsame⟩

/-- Both cursors are left at the same place when the same is peeled off. -/
theorem split (h : c.Tracks us lines chars d) {p : Pattern}
    (hsame : (d.split p).1 = (c.split p).1) :
    (c.split p).2.Within us lines chars (d.split p).2 := by
  refine ⟨?_, by rw [loc_split, loc_split, hsame, h.loc, Location.moved_shifted]⟩
  have hrecut := h.unread
  cases hc : c.unread with
  | nil =>
      have hd : d.unread = [] := by
        have heof := h.eof
        rw [Cursor.eof, Cursor.eof, hc] at heof
        exact List.isEmpty_iff.mp heof
      have hnone : ∀ e : Cursor, e.unread = [] → (e.split p).2 = e := by
        intro e he
        rw [Cursor.split, he]
      rw [hnone c hc, hnone d hd]
      exact hrecut
  | cons f fs =>
      have hne : d.unread ≠ [] := by
        intro hd
        have heof := h.eof
        rw [Cursor.eof, Cursor.eof, hc, hd] at heof
        cases heof
      rcases List.exists_cons_of_ne_nil hne with ⟨x, gs, hd⟩
      rw [hc, hd] at hrecut
      rw [unread_split_cons p hc, unread_split_cons p hd, hsame]
      refine hrecut.drop ?_
      rw [← hsame, split_fst, Cursor.current, hd]
      exact List.length_take_le' _ _

theorem pastTag (h : c.Tracks us lines chars d) :
    (c.split Pattern.identifier).2.Within us lines chars (d.split Pattern.identifier).2 :=
  h.split h.name

/-- Behind a name and the blank space after it. -/
theorem pastName (h : c.Tracks us lines chars d) (ho : c.pastName.Open us) :
    c.pastName.Tracks us lines chars d.pastName :=
  h.pastTag.skipBlank ho

/-- Behind a mark and the blank space after it. -/
theorem pastSign (h : c.Tracks us lines chars d) {texts : List (List Char)} (hm : Marks texts)
    (hat : c.isAt texts = true) (ho : c.pastSign.Open us) :
    c.pastSign.Tracks us lines chars d.pastSign :=
  (h.advance hm hat).2.skipBlank ho

theorem behindMark (h : c.Tracks us lines chars d) {texts : List (List Char)} (hm : Marks texts)
    (hat : c.isAt texts = true) (g : Grammar) (ho : (g.behindMark c).Open us) :
    (g.behindMark c).Tracks us lines chars (g.behindMark d) := by
  cases g with
  | sigil => exact (h.advance hm hat).2.opened ho
  | brace => exact h

end Tracks

end Cursor

/-! ### Scans -/

/-- A scan that only marks stop takes the same text within a larger source, if
    the text does not end before it stops. -/
theorem scan_recut {stop : List Char → Fragment → Bool}
    (hstop : ∀ text f, PlainText f.text → stop text f = false) {us fs gs : List Fragment}
    (h : Recut us fs gs) (lines chars : Int) (text : List Char) (loc : Location)
    (ho : us = [] ∨ (scan stop text fs).2 ≠ []) :
    (scan stop text gs).1.flatMap Fragment.text = (scan stop text fs).1.flatMap Fragment.text ∧
      Recut us (scan stop text fs).2 (scan stop text gs).2 ∧
      (scan stop text gs).1.foldl Location.past (loc.moved lines chars) =
        ((scan stop text fs).1.foldl Location.past loc).moved lines chars := by
  induction h generalizing text loc with
  | nil =>
      rcases ho with rfl | hne
      · exact ⟨rfl, Recut.nil, rfl⟩
      · exact absurd rfl hne
  | @keep f fs gs hrest ih =>
      rw [scan] at ho ⊢
      rw [scan]
      by_cases hf : stop text f = true
      · rw [if_pos hf, if_pos hf]
        exact ⟨rfl, Recut.keep hrest, rfl⟩
      · rw [if_neg hf] at ho ⊢
        rw [if_neg hf]
        rcases ih (text ++ f.text) (loc.past f) ho with ⟨htext, hleft, hloc⟩
        refine ⟨?_, hleft, ?_⟩
        · rw [List.flatMap_cons, List.flatMap_cons, htext]
        · rw [List.foldl_cons, List.foldl_cons, ← Location.moved_past, hloc]
  | @cut f x y fs gs htext hplain hapart hrest ih =>
      have hparts := hplain
      rw [htext] at hparts
      rcases PlainText.append_iff.mp hparts with ⟨hx, hy⟩
      have hpast : (loc.past x).past y = loc.past f := by
        rw [Location.past_plain hx, Location.past_plain hy, Location.past_plain hplain,
          Location.shifted_shifted, htext, List.length_append, Int.natCast_add]
      have hcoarse : scan stop text (f :: fs) =
          (f :: (scan stop (text ++ f.text) fs).1, (scan stop (text ++ f.text) fs).2) := by
        rw [scan, if_neg (Bool.eq_false_iff.mp (hstop _ _ hplain))]
      have hfine : scan stop text (x :: gs) =
          (x :: (scan stop (text ++ x.text) gs).1, (scan stop (text ++ x.text) gs).2) := by
        rw [scan, if_neg (Bool.eq_false_iff.mp (hstop _ _ hx))]
      have hrun : scan stop (text ++ x.text) (y :: fs) =
          (y :: (scan stop (text ++ f.text) fs).1, (scan stop (text ++ f.text) fs).2) := by
        rw [scan, if_neg (Bool.eq_false_iff.mp (hstop _ _ hy)), List.append_assoc, ← htext]
      rw [hcoarse] at ho ⊢
      rw [hfine]
      -- The run is taken as a whole, or as its first part and the rest.
      rcases ih (text ++ x.text) (loc.past x) (by rw [hrun]; exact ho) with ⟨hsame, hleft, hloc⟩
      rw [hrun] at hsame hleft hloc
      refine ⟨?_, hleft, ?_⟩
      · rw [List.flatMap_cons, hsame, List.flatMap_cons, List.flatMap_cons, htext,
          List.append_assoc]
      · rw [List.foldl_cons, ← Location.moved_past, hloc, List.foldl_cons, List.foldl_cons,
          hpast]

namespace Cursor.Within

variable {us : List Fragment} {lines chars : Int} {c d : Cursor}

/-- A cursor that leaves nothing of a text leaves it open only where nothing
    follows. -/
theorem open_unread {c : Cursor} (ho : c.Open us) : us = [] ∨ c.unread ≠ [] := by
  rcases ho with hus | heof
  · exact Or.inl hus
  · refine Or.inr fun hnone => ?_
    rw [Cursor.eof, hnone] at heof
    cases heof

theorem takeUntil (h : c.Within us lines chars d) {stops : List (List Char)} (hm : Marks stops)
    (ho : (c.takeUntil stops).2.Open us) :
    (d.takeUntil stops).1 = (c.takeUntil stops).1 ∧
      (c.takeUntil stops).2.Tracks us lines chars (d.takeUntil stops).2 := by
  rcases c.takeUntil_eq_scan stops with ⟨htext, hunread, hloc⟩
  rcases d.takeUntil_eq_scan stops with ⟨htext', hunread', hloc'⟩
  have hleft := open_unread ho
  rw [hunread] at hleft
  rcases scan_recut (fun _ _ hf => hf.not_mem hm) h.unread lines chars [] c.loc hleft with
    ⟨hsame, hrecut, hmoved⟩
  refine ⟨by rw [htext, htext', hsame], Within.opened ⟨?_, ?_⟩ ho⟩
  · rw [hunread, hunread']
    exact hrecut
  · rw [hloc, hloc', h.loc, hmoved]

theorem takeQuoted (h : c.Within us lines chars d) {quote : List Char} (hm : Marks [quote])
    (ho : (c.takeQuoted quote).2.Open us) :
    (d.takeQuoted quote).1 = (c.takeQuoted quote).1 ∧
      (c.takeQuoted quote).2.Tracks us lines chars (d.takeQuoted quote).2 := by
  rcases takeQuotedFrom_eq_scan quote quote c.unread c.index c.loc with ⟨htext, hunread, hloc⟩
  rcases takeQuotedFrom_eq_scan quote quote d.unread d.index d.loc with
    ⟨htext', hunread', hloc'⟩
  have hplain : ∀ text f, PlainText f.text → closesString quote text f = false := by
    intro text f hf
    have hne : f.text ≠ quote := by
      rintro rfl
      exact Bool.false_ne_true ((hf.not_mem hm).symm.trans (by simp))
    rw [closesString, decide_eq_false hne]
    rfl
  have hleft := open_unread ho
  rw [Cursor.takeQuoted, hunread] at hleft
  rcases scan_recut hplain h.unread lines chars quote c.loc hleft with ⟨hsame, hrecut, hmoved⟩
  refine ⟨?_, Within.opened ⟨?_, ?_⟩ ho⟩
  · rw [Cursor.takeQuoted, Cursor.takeQuoted, htext, htext', hsame]
  · rw [Cursor.takeQuoted, Cursor.takeQuoted, hunread, hunread']
    exact hrecut
  · rw [Cursor.takeQuoted, Cursor.takeQuoted, hloc, hloc', h.loc, hmoved]

end Cursor.Within

end Inlay
