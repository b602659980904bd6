import Inlay.Proofs.Tracking
import Inlay.Proofs.Rejection

/-!
# Grouping of Plain Text

How plain text is grouped into fragments makes no difference to a parse. A
run may be cut wherever the characters around the cut do not both belong to
names, and empty texts may stand anywhere: the tree is the same with all its
locations, and where there is none the diagnostic is the same.

Empty texts hold nothing to read, so that what remains of the texts are the
fragments of a source with some of its runs cut further, and the cursor at
their start tracks the cursor at the start of the source.

## Main definitions

* `Regrouped`: Texts of which runs are cut, among empty texts.

## Theorems

* `Regrouped.recut`: The fragments of texts that are grouped differently.
* `Regrouped.parse_eq`: Any texts parse as they do when grouped differently.
* `parse_regrouped`: In particular the fragments of a source.
-/

namespace Inlay

/-- The second texts are the first ones, of which texts without structural
    characters may have been cut where no name goes on, and among which empty
    texts may have been put. -/
inductive Regrouped : List (List Char) → List (List Char) → Prop where
  | nil : Regrouped [] []
  | keep {t : List Char} {ts us : List (List Char)} :
    Regrouped ts us → Regrouped (t :: ts) (t :: us)
  | empty {ts us : List (List Char)} : Regrouped ts us → Regrouped ts ([] :: us)
  | cut {t u : List Char} {ts us : List (List Char)} :
    PlainText (t ++ u) → Pattern.Apart t u → Regrouped (u :: ts) us →
      Regrouped ((t ++ u) :: ts) (t :: us)

namespace Regrouped

variable {ts us : List (List Char)}

/-- Grouping does not change the text. -/
theorem flatten (h : Regrouped ts us) : us.flatten = ts.flatten := by
  induction h with
  | nil => rfl
  | keep _ ih => rw [List.flatten_cons, List.flatten_cons, ih]
  | empty _ ih => rw [List.flatten_cons, ih, List.nil_append]
  | cut _ _ _ ih =>
      rw [List.flatten_cons, ih, List.flatten_cons, List.flatten_cons, List.append_assoc]

/-- Without the empty texts, what remains are runs that are cut further. -/
theorem recut (h : Regrouped ts us) :
    Recut [] (ts.filterMap Fragment.ofText?) (us.filterMap Fragment.ofText?) := by
  induction h with
  | nil => exact Recut.nil
  | @keep t _ _ _ ih =>
      cases t with
      | nil => exact ih
      | cons x t => exact Recut.keep ih
  | empty _ ih => exact ih
  | @cut t u ts us hplain hapart _ ih =>
      cases t with
      | nil => exact ih
      | cons x t =>
          cases u with
          | nil =>
              rw [List.append_nil]
              exact Recut.keep ih
          | cons y u => exact Recut.cut (x := ⟨x, t⟩) (y := ⟨y, u⟩) rfl hplain hapart ih

theorem tracks (h : Regrouped ts us) :
    (Cursor.ofTexts ts).Tracks [] 0 0 (Cursor.ofTexts us) :=
  ⟨⟨h.recut, (Location.moved_zero _).symm⟩, Cursor.open_nil _⟩

/-- Any texts parse as they do when they are grouped differently. -/
theorem parse_eq (h : Regrouped ts us) (g : Grammar) : parse g us = parse g ts := by
  cases hparse : parse g ts with
  | ok r =>
      rcases parse_eq_ok_iff.mp hparse with ⟨ps, c', hps, rfl⟩
      rcases hps.tracked [] 0 0 trivial _ h.tracks (Cursor.open_nil _) with ⟨qs, d', hqs, hsays, _⟩
      refine parse_eq_ok_iff.mpr ⟨qs, d', hqs, ?_⟩
      have hflush := hsays.flush {}
      rw [movedCode_zero] at hflush
      exact congrArg Root.mk hflush.symm
  | error d =>
      rcases parse_eq_error_iff.mp hparse with ⟨f, hfails, rfl⟩
      have hmoved := hfails.tracked (u := ⟨.pieces .source, Cursor.ofTexts us⟩)
        ⟨rfl, trivial, h.tracks⟩
      rw [Failure.moved, Location.moved_zero] at hmoved
      exact parse_eq_error_iff.mpr ⟨f, hmoved, by rw [h.flatten]⟩

end Regrouped

/-- However the runs of a source are cut outside of names, and wherever empty
    texts are put, the source parses to the same tree, or fails with the same
    diagnostic. -/
theorem parse_regrouped (g : Grammar) (s : List Char) (texts : List (List Char))
    (h : Regrouped ((tokenize s).map Fragment.text) texts) :
    parse g texts = parse g ((tokenize s).map Fragment.text) :=
  h.parse_eq g

/-- A tag that is cut around its blank space. -/
theorem parse_regrouped_tag :
    Regrouped ((tokenize ['<', 'p', ' ', 'a', ' ', 'b', '/', '>']).map Fragment.text)
        [[], ['<'], ['p'], [' '], [], ['a', ' '], ['b'], ['/', '>']] ∧
      parse .sigil [[], ['<'], ['p'], [' '], [], ['a', ' '], ['b'], ['/', '>']] =
        parse .sigil ((tokenize ['<', 'p', ' ', 'a', ' ', 'b', '/', '>']).map Fragment.text) := by
  have htexts : (tokenize ['<', 'p', ' ', 'a', ' ', 'b', '/', '>']).map Fragment.text =
      [['<'], ['p'] ++ ([' '] ++ (['a', ' '] ++ ['b'])), ['/', '>']] := by decide +kernel
  have hgroup : Regrouped ((tokenize ['<', 'p', ' ', 'a', ' ', 'b', '/', '>']).map Fragment.text)
      [[], ['<'], ['p'], [' '], [], ['a', ' '], ['b'], ['/', '>']] := by
    rw [htexts]
    refine Regrouped.empty (Regrouped.keep ?_)
    refine Regrouped.cut (by decide) (by decide) (Regrouped.cut (by decide) (by decide) ?_)
    exact Regrouped.empty (Regrouped.cut (by decide) (by decide)
      (Regrouped.keep (Regrouped.keep Regrouped.nil)))
  exact ⟨hgroup, parse_regrouped .sigil _ _ hgroup⟩

-- Inside of a name the place of a cut does matter.
example :
    parse .sigil [['<'], ['p'], ['q'], ['/', '>']] ≠
      parseSource .sigil ['<', 'p', 'q', '/', '>'] := by
  decide +kernel

end Inlay
