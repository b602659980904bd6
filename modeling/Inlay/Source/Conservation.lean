import Inlay.Source.Cursor

/-!
# Conservation of Text

Moving a cursor loses nothing and invents nothing: what an operation hands
over and what it leaves unread are together what was unread before. Blank
space that is passed is not handed over, but it is blank space and nothing
else.

Progress is a consequence. Whatever hands over a character, or passes a
fragment, leaves less unread, and nothing ever leaves more.

## Theorems

* `current_append_rest_advance`, `rest_split`, `rest_takeUntil`,
  `rest_takeQuoted`, `rest_skipBlank`: Each operation conserves the text.
* `size_advance_lt`, `size_split_lt`, `size_takeUntil_lt`: Where there is
  something to read, less is left.
-/

namespace Inlay

namespace Cursor

theorem rest_cons (f : Fragment) (fs : List Fragment) (i : Nat) (loc : Location) :
    (Cursor.mk (f :: fs) i loc).rest = f.text ++ fs.flatMap Fragment.text := by
  simp only [rest, List.flatMap_cons]

/-- There is a current fragment exactly before the end. -/
theorem current_ne_nil {c : Cursor} (h : c.eof = false) : c.current ≠ [] := by
  obtain ⟨unread, index, loc⟩ := c
  cases unread with
  | nil => simp only [eof, List.isEmpty_nil, Bool.true_eq_false] at h
  | cons f fs => exact f.text_ne_nil

/-! ### What each operation hands over and leaves -/

/-- Stepping hands over the current fragment and leaves the others. -/
theorem current_append_rest_advance (c : Cursor) : c.current ++ c.advance.rest = c.rest := by
  obtain ⟨unread, index, loc⟩ := c
  cases unread with
  | nil => simp only [current, advance, rest, List.flatMap_nil, List.append_nil]
  | cons f fs =>
    rw [rest_cons]
    simp only [current, advance, rest]

/-- What is peeled off is what the pattern recognises. -/
theorem split_fst (p : Pattern) (c : Cursor) :
    (c.split p).1 = c.current.take ((p c.current).getD 0) := by
  obtain ⟨unread, index, loc⟩ := c
  cases unread with
  | nil => simp only [split, current, List.take_nil]
  | cons f fs =>
    simp only [split, current]
    split <;> rfl

/-- Peeling cuts the current fragment in two. -/
theorem rest_split (p : Pattern) (c : Cursor) : (c.split p).1 ++ (c.split p).2.rest = c.rest := by
  obtain ⟨unread, index, loc⟩ := c
  cases unread with
  | nil => simp only [split, List.nil_append]
  | cons f fs =>
    rw [rest_cons]
    simp only [split]
    generalize hpeeled : List.take ((p f.text).getD 0) f.text = peeled
    -- The stretch is what stands in front of the place where the rest begins.
    have hcut : peeled ++ f.text.drop peeled.length = f.text := by
      have htake : f.text.take peeled.length = peeled := by
        rw [← hpeeled, List.length_take, ← List.take_take, List.take_length]
      calc peeled ++ f.text.drop peeled.length
          = f.text.take peeled.length ++ f.text.drop peeled.length := by rw [htake]
        _ = f.text := List.take_append_drop _ _
    split
    · next h =>
      rw [h, List.append_nil] at hcut
      simp only [rest, hcut]
    · next x xs h =>
      rw [h] at hcut
      simp only [rest_cons, ← List.append_assoc]
      rw [← hcut]
      rfl

theorem rest_takeUntilFrom (stops : List (List Char)) (fs : List Fragment) (i : Nat)
    (loc : Location) :
    (takeUntilFrom stops fs i loc).1 ++ (takeUntilFrom stops fs i loc).2.rest =
      fs.flatMap Fragment.text := by
  induction fs generalizing i loc with
  | nil => simp only [takeUntilFrom, rest, List.nil_append]
  | cons f fs ih =>
    rw [List.flatMap_cons]
    simp only [takeUntilFrom]
    split
    · rw [List.nil_append, rest_cons]
    · rw [List.append_assoc, ih]

/-- Taking fragments up to a stop hands over all in front of it. -/
theorem rest_takeUntil (stops : List (List Char)) (c : Cursor) :
    (c.takeUntil stops).1 ++ (c.takeUntil stops).2.rest = c.rest :=
  rest_takeUntilFrom stops c.unread c.index c.loc

theorem rest_takeQuotedFrom (quote text : List Char) (fs : List Fragment) (i : Nat)
    (loc : Location) :
    (takeQuotedFrom quote text fs i loc).1 ++ (takeQuotedFrom quote text fs i loc).2.rest =
      text ++ fs.flatMap Fragment.text := by
  induction fs generalizing text i loc with
  | nil => simp only [takeQuotedFrom, rest]
  | cons f fs ih =>
    rw [List.flatMap_cons]
    simp only [takeQuotedFrom]
    split
    · rw [rest_cons]
    · rw [ih, List.append_assoc]

/-- Taking a string hands over its opening quote, which had been passed, and
    all in front of its closing quote. -/
theorem rest_takeQuoted (quote : List Char) (c : Cursor) :
    (c.takeQuoted quote).1 ++ (c.takeQuoted quote).2.rest = quote ++ c.rest :=
  rest_takeQuotedFrom quote quote c.unread c.index c.loc

theorem rest_skipBlankFrom (fs : List Fragment) (i : Nat) (loc : Location) :
    ∃ blank, (∀ x ∈ blank, Text.isBlank x = true) ∧
      blank ++ (skipBlankFrom fs i loc).rest = fs.flatMap Fragment.text := by
  induction fs generalizing i loc with
  | nil => exact ⟨[], fun x hx => absurd hx List.not_mem_nil, rfl⟩
  | cons f fs ih =>
    rw [List.flatMap_cons]
    have hcut : f.text.takeWhile Text.isBlank ++ f.text.dropWhile Text.isBlank = f.text :=
      List.takeWhile_append_dropWhile
    have hblank : ∀ x ∈ f.text.takeWhile Text.isBlank, Text.isBlank x = true :=
      List.all_eq_true.mp List.all_takeWhile
    simp only [skipBlankFrom]
    split
    · next h =>
      obtain ⟨blank, hall, hrest⟩ := ih (i + 1) loc.nextLine
      refine ⟨f.text ++ blank, ?_, ?_⟩
      · intro x hx
        rw [h, List.singleton_append, List.mem_cons] at hx
        rcases hx with rfl | hx
        · decide
        · exact hall x hx
      · rw [List.append_assoc, hrest]
    · split
      · next h =>
        obtain ⟨blank, hall, hrest⟩ := ih (i + 1) (loc.shifted f.length)
        rw [h, List.append_nil] at hcut
        refine ⟨f.text ++ blank, ?_, ?_⟩
        · intro x hx
          rcases List.mem_append.mp hx with hx | hx
          · rw [← hcut] at hx
            exact hblank x hx
          · exact hall x hx
        · rw [List.append_assoc, hrest]
      · next x xs h =>
        refine ⟨f.text.takeWhile Text.isBlank, hblank, ?_⟩
        rw [rest_cons, ← List.append_assoc]
        rw [h] at hcut
        exact congrArg (· ++ _) hcut

/-- What is passed as blank space is blank space, and nothing else is. -/
theorem rest_skipBlank (c : Cursor) :
    ∃ blank, (∀ x ∈ blank, Text.isBlank x = true) ∧ blank ++ c.skipBlank.rest = c.rest :=
  rest_skipBlankFrom c.unread c.index c.loc

/-! ### Progress -/

/-- Stepping past a fragment leaves less unread. -/
theorem size_advance_lt {c : Cursor} (h : c.eof = false) : c.advance.size < c.size := by
  have hlen := congrArg List.length c.current_append_rest_advance
  have hpos := List.length_pos_iff.mpr (current_ne_nil h)
  rw [List.length_append] at hlen
  simp only [size]
  omega

/-- Stepping never leaves more unread. -/
theorem size_advance_le (c : Cursor) : c.advance.size ≤ c.size := by
  have hlen := congrArg List.length c.current_append_rest_advance
  rw [List.length_append] at hlen
  simp only [size]
  omega

/-- Peeling never leaves more unread. -/
theorem size_split_le (p : Pattern) (c : Cursor) : (c.split p).2.size ≤ c.size := by
  have hlen := congrArg List.length (c.rest_split p)
  rw [List.length_append] at hlen
  simp only [size]
  omega

/-- Peeling off something leaves less unread. -/
theorem size_split_lt {p : Pattern} {c : Cursor} {n : Nat} (h : p c.current = some (n + 1))
    (hc : c.eof = false) : (c.split p).2.size < c.size := by
  have hlen := congrArg List.length (c.rest_split p)
  have hpos := List.length_pos_iff.mpr (current_ne_nil hc)
  rw [List.length_append, split_fst, h, Option.getD_some, List.length_take] at hlen
  simp only [size]
  omega

/-- Passing blank space never leaves more unread. -/
theorem size_skipBlank_le (c : Cursor) : c.skipBlank.size ≤ c.size := by
  obtain ⟨blank, -, hrest⟩ := c.rest_skipBlank
  have hlen := congrArg List.length hrest
  rw [List.length_append] at hlen
  simp only [size]
  omega

/-- Taking fragments never leaves more unread. -/
theorem size_takeUntil_le (stops : List (List Char)) (c : Cursor) :
    (c.takeUntil stops).2.size ≤ c.size := by
  have hlen := congrArg List.length (c.rest_takeUntil stops)
  rw [List.length_append] at hlen
  simp only [size]
  omega

/-- Where no stop stands, a fragment is taken. -/
theorem size_takeUntil_lt {stops : List (List Char)} {c : Cursor} (hc : c.eof = false)
    (h : c.isAt stops = false) : (c.takeUntil stops).2.size < c.size := by
  have hlen := congrArg List.length (c.rest_takeUntil stops)
  rw [List.length_append] at hlen
  have hpos : 0 < (c.takeUntil stops).1.length := by
    obtain ⟨unread, index, loc⟩ := c
    cases unread with
    | nil => simp only [eof, List.isEmpty_nil, Bool.true_eq_false] at hc
    | cons f fs =>
      have hstop : ¬ (stops.contains f.text = true) := by
        simp only [isAt, eof, List.isEmpty_cons, Bool.not_false, Bool.true_and, current] at h
        rw [h]
        exact Bool.false_ne_true
      simp only [takeUntil, takeUntilFrom, if_neg hstop, List.length_append, Fragment.length_text]
      exact Nat.lt_of_lt_of_le f.length_pos (Nat.le_add_right _ _)
  simp only [size]
  omega

theorem le_length_takeQuotedFrom (quote text : List Char) (fs : List Fragment) (i : Nat)
    (loc : Location) : text.length ≤ (takeQuotedFrom quote text fs i loc).1.length := by
  induction fs generalizing text i loc with
  | nil => exact Nat.le_refl _
  | cons f fs ih =>
    simp only [takeQuotedFrom]
    split
    · exact Nat.le_refl _
    · have h := ih (text ++ f.text) (i + 1) (loc.past f)
      rw [List.length_append] at h
      omega

/-- Taking a string never leaves more unread. -/
theorem size_takeQuoted_le (quote : List Char) (c : Cursor) :
    (c.takeQuoted quote).2.size ≤ c.size := by
  have hlen := congrArg List.length (c.rest_takeQuoted quote)
  have htext : quote.length ≤ (c.takeQuoted quote).1.length :=
    le_length_takeQuotedFrom quote quote c.unread c.index c.loc
  rw [List.length_append, List.length_append] at hlen
  simp only [size]
  omega

/-! ### What the current fragment tells -/

/-- Whatever the current fragment is compared with, there has to be one. -/
theorem eof_of_isAt {c : Cursor} {texts : List (List Char)} (h : c.isAt texts = true) :
    c.eof = false := by
  simp only [isAt, Bool.and_eq_true, Bool.not_eq_true'] at h
  exact h.1

/-- The current fragment is one text at most. -/
theorem isAt_singleton_of_ne {c : Cursor} {s t : List Char} (h : c.isAt [s] = true)
    (hne : s ≠ t) : c.isAt [t] = false := by
  simp only [isAt, List.contains_cons, List.contains_nil, Bool.or_false, Bool.and_eq_true,
    Bool.not_eq_true', beq_iff_eq] at h
  simp only [isAt, List.contains_cons, List.contains_nil, Bool.or_false, h, Bool.not_false,
    Bool.true_and, beq_eq_false_iff_ne]
  exact hne

/-- An opening delimiter is a fragment. -/
theorem eof_of_closer? {c : Cursor} (h : c.closer?.isSome = true) : c.eof = false := by
  obtain ⟨unread, index, loc⟩ := c
  cases unread with
  | nil => simp [closer?, current, Marker.spread] at h
  | cons f fs => rfl

end Cursor

end Inlay
