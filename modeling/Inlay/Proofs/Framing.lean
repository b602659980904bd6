import Inlay.Proofs.Collecting

/-!
# Literals and Whole Fragments

Strings, comments and text in content are read fragment by fragment, and a
fragment is never cut in them. Each of them is a scan: fragments are taken
until one is met that stops the scan, and whether a fragment does so depends
on that fragment and on what was taken before it.

Two facts about scans carry everything here. A scan only passes fragments, so
the cursor moves as by stepping (`Cursor.Passes`). And a scan does not see
past the fragment that stops it, so a literal is read in the same way wherever
its fragments stand (`Frames`). A comment that ends with its line is special
in that the end of the source also ends it; what stands behind it then matters
as far as whether there is anything.

## Main definitions

* `scan`: Taking fragments up to one that stops.
* `Cursor.Passes`: Stepping past some fragments.
* `Frames`: Reading that depends on the fragments it takes alone.

## Theorems

* `scan_frame`: A scan does not see past the fragment that stops it.
* `Rule.quotedString_frame`, `Rule.comment_frame`, `Verbatim.frame`,
  `Cursor.takeUntil_frame`: The literals.
* `Verbatim.passes`: Text is taken over in whole fragments, or as a stretch.
-/

namespace Inlay

/-! ### Scans -/

/-- Takes fragments up to the first that stops, which is decided by the text
    so far and the fragment; the others are left. -/
def scan (stop : List Char → Fragment → Bool) :
    List Char → List Fragment → List Fragment × List Fragment
  | _, [] => ([], [])
  | text, f :: fs =>
    if stop text f then ([], f :: fs)
    else
      let (taken, left) := scan stop (text ++ f.text) fs
      (f :: taken, left)

theorem scan_append (stop : List Char → Fragment → Bool) (text : List Char) (fs : List Fragment) :
    (scan stop text fs).1 ++ (scan stop text fs).2 = fs := by
  induction fs generalizing text with
  | nil => rfl
  | cons f fs ih =>
      unfold scan
      by_cases hf : stop text f = true
      · rw [if_pos hf]
        rfl
      · rw [if_neg hf, List.cons_append, ih]

/-- A scan that leaves nothing unseen is over: what it leaves begins with a
    fragment that stops. -/
theorem scan_stop {stop : List Char → Fragment → Bool} {text : List Char} {fs taken us : List Fragment}
    {f : Fragment} (h : scan stop text fs = (taken, f :: us)) :
    stop (text ++ taken.flatMap Fragment.text) f = true := by
  induction fs generalizing text taken with
  | nil => cases h
  | cons f' fs ih =>
      unfold scan at h
      by_cases hf : stop text f' = true
      · rw [if_pos hf] at h
        cases h
        rw [List.flatMap_nil, List.append_nil]
        exact hf
      · rw [if_neg hf] at h
        cases htail : scan stop (text ++ f'.text) fs with
        | mk taken' left =>
            rw [htail] at h
            cases h
            have hstop := ih htail
            rwa [List.append_assoc, ← List.flatMap_cons] at hstop

/-- A scan does not see past the fragment that stops it. -/
theorem scan_frame {stop : List Char → Fragment → Bool} {text : List Char}
    {fs taken us us' : List Fragment} (h : scan stop text fs = (taken, us))
    (hhead : us'.head? = us.head?) : scan stop text (taken ++ us') = (taken, us') := by
  induction fs generalizing text taken with
  | nil =>
      cases h
      cases us' with
      | nil => rfl
      | cons f us' => cases hhead
  | cons f fs ih =>
      unfold scan at h
      by_cases hf : stop text f = true
      · rw [if_pos hf] at h
        cases h
        -- The fragment that stopped the scan stands there again.
        cases us' with
        | nil => cases hhead
        | cons f' us' =>
            rw [List.head?_cons, List.head?_cons, Option.some.injEq] at hhead
            rw [List.nil_append, scan, hhead, if_pos hf]
      · rw [if_neg hf] at h
        cases htail : scan stop (text ++ f.text) fs with
        | mk taken' left =>
            rw [htail] at h
            cases h
            rw [List.cons_append, scan, if_neg hf, ih htail]

namespace Cursor

/-- The cursor stepped past some fragments. -/
def Passes (c : Cursor) (fs : List Fragment) (c' : Cursor) : Prop :=
  c.unread = fs ++ c'.unread ∧ c'.loc = fs.foldl Location.past c.loc

theorem Passes.trans {c₁ c₂ c₃ : Cursor} {fs gs : List Fragment} (h : c₁.Passes fs c₂)
    (h' : c₂.Passes gs c₃) : c₁.Passes (fs ++ gs) c₃ := by
  rcases h with ⟨hunread, hloc⟩
  rcases h' with ⟨hunread', hloc'⟩
  refine ⟨?_, ?_⟩
  · rw [hunread, hunread', List.append_assoc]
  · rw [hloc', hloc, List.foldl_append]

/-- What is passed is what stood in front of what is left. -/
theorem Passes.rest {c c' : Cursor} {fs : List Fragment} (h : c.Passes fs c') :
    c.rest = fs.flatMap Fragment.text ++ c'.rest := by
  rw [Cursor.rest, h.1, List.flatMap_append]
  rfl

/-- The current fragment, and what is left behind it. -/
theorem unread_of_eof {c : Cursor} (h : c.eof = false) :
    ∃ f, c.unread = f :: c.advance.unread ∧ c.current = f.text ∧ c.Passes [f] c.advance := by
  rcases c with ⟨unread, index, loc⟩
  cases unread with
  | nil => cases h
  | cons f fs => exact ⟨f, rfl, rfl, rfl, rfl⟩

/-- Stepping on passes the current fragment, or nothing at the end. -/
theorem passes_advance (c : Cursor) : ∃ fs, c.Passes fs c.advance := by
  cases heof : c.eof with
  | true =>
      have hnone : c.unread = [] := List.isEmpty_iff.mp heof
      refine ⟨[], ?_⟩
      rw [advance, hnone]
      exact ⟨hnone, rfl⟩
  | false =>
      rcases unread_of_eof heof with ⟨f, _, _, hpass⟩
      exact ⟨[f], hpass⟩

/-- Peeling moves along the line. -/
theorem loc_split (p : Pattern) (c : Cursor) :
    (c.split p).2.loc = c.loc.shifted (c.split p).1.length := by
  rcases c with ⟨unread, index, loc⟩
  cases unread with
  | nil => exact (Location.shifted_zero loc).symm
  | cons f fs =>
      simp only [split]
      cases f.text.drop (f.text.take ((p f.text).getD 0)).length <;> rfl

theorem takeUntil_eq_scan (stops : List (List Char)) (c : Cursor) :
    (c.takeUntil stops).1 =
        (scan (fun _ f => stops.contains f.text) [] c.unread).1.flatMap Fragment.text ∧
      (c.takeUntil stops).2.unread = (scan (fun _ f => stops.contains f.text) [] c.unread).2 ∧
      (c.takeUntil stops).2.loc =
        (scan (fun _ f => stops.contains f.text) [] c.unread).1.foldl Location.past c.loc := by
  rcases c with ⟨unread, index, loc⟩
  unfold takeUntil
  simp only
  -- The scan keeps the text so far, which this condition does not look at.
  generalize ([] : List Char) = text
  induction unread generalizing text index loc with
  | nil => exact ⟨rfl, rfl, rfl⟩
  | cons f fs ih =>
      simp only [takeUntilFrom, scan]
      by_cases hf : stops.contains f.text = true
      · rw [if_pos hf, if_pos hf]
        exact ⟨rfl, rfl, rfl⟩
      · rw [if_neg hf, if_neg hf]
        rcases ih (index + 1) (loc.past f) (text ++ f.text) with ⟨h1, h2, h3⟩
        exact ⟨by rw [List.flatMap_cons, h1], h2, h3⟩

/-- Whether a fragment closes a string of which some text has been taken. -/
def closesString (quote text : List Char) (f : Fragment) : Bool :=
  f.text = quote && !endsEscaped text

theorem takeQuotedFrom_eq_scan (quote text : List Char) (fs : List Fragment) (index : Nat)
    (loc : Location) :
    (takeQuotedFrom quote text fs index loc).1 =
        text ++ (scan (closesString quote) text fs).1.flatMap Fragment.text ∧
      (takeQuotedFrom quote text fs index loc).2.unread = (scan (closesString quote) text fs).2 ∧
      (takeQuotedFrom quote text fs index loc).2.loc =
        (scan (closesString quote) text fs).1.foldl Location.past loc := by
  induction fs generalizing text index loc with
  | nil => exact ⟨(List.append_nil text).symm, rfl, rfl⟩
  | cons f fs ih =>
      have hstep : takeQuotedFrom quote text (f :: fs) index loc =
          if closesString quote text f then (text, { unread := f :: fs, index, loc })
          else takeQuotedFrom quote (text ++ f.text) fs (index + 1) (loc.past f) := rfl
      rw [hstep, scan]
      by_cases hf : closesString quote text f = true
      · rw [if_pos hf, if_pos hf]
        exact ⟨(List.append_nil text).symm, rfl, rfl⟩
      · rw [if_neg hf, if_neg hf]
        rcases ih (text ++ f.text) (index + 1) (loc.past f) with ⟨h1, h2, h3⟩
        exact ⟨by rw [h1, List.flatMap_cons, List.append_assoc], h2, h3⟩

/-- Taking fragments up to a mark passes them, and takes the same where the
    same stands behind them. -/
theorem takeUntil_frame (stops : List (List Char)) (c : Cursor) :
    ∃ fs, c.Passes fs (c.takeUntil stops).2 ∧ (c.takeUntil stops).1 = fs.flatMap Fragment.text ∧
      ∀ (d : Cursor) (us : List Fragment), d.unread = fs ++ us →
        us.head? = (c.takeUntil stops).2.unread.head? →
        (d.takeUntil stops).1 = (c.takeUntil stops).1 ∧ (d.takeUntil stops).2.unread = us := by
  rcases c.takeUntil_eq_scan stops with ⟨htext, hunread, hloc⟩
  have happend := scan_append (fun _ f => stops.contains f.text) [] c.unread
  refine ⟨_, ⟨?_, hloc⟩, htext, ?_⟩
  · rw [hunread, happend]
  · intro d us hd hhead
    rcases d.takeUntil_eq_scan stops with ⟨htext', hunread', _⟩
    rw [hunread] at hhead
    rw [htext', hunread', hd, scan_frame rfl hhead, htext]
    exact ⟨rfl, rfl⟩

theorem takeQuoted_frame (quote : List Char) (c : Cursor) :
    ∃ fs, c.Passes fs (c.takeQuoted quote).2 ∧
      ∀ (d : Cursor) (us : List Fragment), d.unread = fs ++ us →
        us.head? = (c.takeQuoted quote).2.unread.head? →
        (d.takeQuoted quote).1 = (c.takeQuoted quote).1 ∧ (d.takeQuoted quote).2.unread = us := by
  unfold takeQuoted
  rcases takeQuotedFrom_eq_scan quote quote c.unread c.index c.loc with ⟨htext, hunread, hloc⟩
  have happend := scan_append (closesString quote) quote c.unread
  refine ⟨_, ⟨?_, hloc⟩, ?_⟩
  · rw [hunread, happend]
  · intro d us hd hhead
    rcases takeQuotedFrom_eq_scan quote quote d.unread d.index d.loc with ⟨htext', hunread', _⟩
    rw [hunread] at hhead
    rw [htext', hunread', hd, scan_frame rfl hhead, htext]
    exact ⟨rfl, rfl⟩

/-- A string that does not go on to the end was closed by its quote. -/
theorem current_takeQuoted {quote : List Char} {c : Cursor}
    (h : (c.takeQuoted quote).2.eof = false) : (c.takeQuoted quote).2.current = quote := by
  rcases unread_of_eof h with ⟨f, hunread, hcur, _⟩
  rcases takeQuotedFrom_eq_scan quote quote c.unread c.index c.loc with ⟨_, hscan, _⟩
  rw [takeQuoted, hscan] at hunread
  have hstop := scan_stop (Prod.ext rfl hunread)
  rw [hcur]
  exact of_decide_eq_true (Bool.and_eq_true_iff.mp hstop).1

/-! ### What the first fragment decides -/

variable {c d : Cursor}

theorem of_unread_cons {f : Fragment} {fs : List Fragment} (h : d.unread = f :: fs) :
    d.eof = false ∧ d.current = f.text ∧ d.advance.unread = fs := by
  rcases d with ⟨unread, index, loc⟩
  cases h
  exact ⟨rfl, rfl, rfl⟩

/-- Cursors before the same fragment have the same one, or both have none. -/
theorem unread_congr (h : d.unread.head? = c.unread.head?) :
    d.unread = [] ∧ c.unread = [] ∨
      ∃ f fs fs', d.unread = f :: fs ∧ c.unread = f :: fs' := by
  cases hc : c.unread with
  | nil =>
      rw [hc, List.head?_nil, List.head?_eq_none_iff] at h
      exact Or.inl ⟨h, rfl⟩
  | cons f fs' =>
      rw [hc, List.head?_cons, List.head?_eq_some_iff] at h
      rcases h with ⟨fs, hd⟩
      exact Or.inr ⟨f, fs, fs', hd, rfl⟩

theorem eof_congr (h : d.unread.head? = c.unread.head?) : d.eof = c.eof := by
  unfold eof
  rcases unread_congr h with ⟨hd, hc⟩ | ⟨f, fs, fs', hd, hc⟩
  · rw [hd, hc]
  · rw [hd, hc]
    rfl

theorem current_congr (h : d.unread.head? = c.unread.head?) : d.current = c.current := by
  unfold current
  rcases unread_congr h with ⟨hd, hc⟩ | ⟨f, fs, fs', hd, hc⟩
  · rw [hd, hc]
  · rw [hd, hc]

theorem isAt_congr (h : d.unread.head? = c.unread.head?) (texts : List (List Char)) :
    d.isAt texts = c.isAt texts := by
  rw [isAt, isAt, eof_congr h, current_congr h]

theorem matched?_congr (h : d.unread.head? = c.unread.head?) (p : Pattern) :
    d.matched? p = c.matched? p := by
  rw [matched?, matched?, current_congr h]

theorem closer?_congr (h : d.unread.head? = c.unread.head?) : d.closer? = c.closer? := by
  rw [closer?, closer?, current_congr h]

end Cursor

theorem Zone.ends_congr {c d : Cursor} (h : d.unread.head? = c.unread.head?) (z : Zone) :
    z.ends d = z.ends c := by
  cases z with
  | source => exact Cursor.eof_congr h
  | group close => rw [Zone.ends, Zone.ends, Cursor.eof_congr h, Cursor.isAt_congr h]
  | unnested => rw [Zone.ends, Zone.ends, Cursor.eof_congr h, Cursor.matched?_congr h]

theorem Zone.plain_congr {c d : Cursor} (h : d.unread.head? = c.unread.head?) (z : Zone) :
    z.plain d = z.plain c := by
  simp only [Zone.plain, Cursor.isAt_congr h, Cursor.closer?_congr h]

/-! ### Literals -/

/-- Reading that succeeds wherever some fragments stand, and takes them. -/
def Frames {α : Type} (x : Read α) (fs : List Fragment) (a : α) : Prop :=
  ∀ (d : Cursor) (us : List Fragment), d.unread = fs ++ us → ∃ d', x d = .ok a d' ∧ d'.unread = us

/-- Fragments behind which the same stands begin alike. -/
theorem head?_append_congr {α : Type} {us us' : List α} (h : us.head? = us'.head?) (fs : List α) :
    (fs ++ us).head? = (fs ++ us').head? := by
  rw [List.head?_append, List.head?_append, h]

namespace Rule

variable {c c' : Cursor} {t : List Char}

/-- A string is read wherever its fragments stand. -/
theorem quotedString_frame (h : quotedString c = .ok t c') :
    ∃ fs, c.Passes fs c' ∧ Frames quotedString fs t := by
  rcases quotedString_eq_ok_iff.mp h with ⟨hat, heof, rfl, rfl⟩
  rcases Cursor.unread_of_eof (Cursor.eof_of_isAt hat) with ⟨f, hf, hcur, hpass⟩
  rcases c.advance.takeQuoted_frame c.current with ⟨gs, hgs, hframe⟩
  rcases Cursor.unread_of_eof heof with ⟨l, hl, hlast, hpass'⟩
  -- The fragments are the opening quote, those of the text, the closing quote.
  refine ⟨[f] ++ (gs ++ [l]), hpass.trans (hgs.trans hpass'), ?_⟩
  intro d us hd
  rw [List.append_assoc, List.append_assoc, List.singleton_append] at hd
  rcases Cursor.of_unread_cons hd with ⟨_, hdcur, hdadv⟩
  have hcur' : d.current = c.current := hdcur.trans hcur.symm
  rcases hframe d.advance (l :: us) hdadv (by rw [hl]; rfl) with ⟨htext, hunread⟩
  rcases Cursor.of_unread_cons hunread with ⟨heof', hlast', hadv⟩
  refine ⟨_, quotedString_eq_ok_iff.mpr ⟨?_, ?_, ?_, rfl⟩, ?_⟩
  · rw [Cursor.isAt_congr (c := c) (by rw [hd, hf]; rfl), hat]
  · rw [hcur']
    exact heof'
  · rw [hcur', htext, hlast', hlast]
  · rw [hcur']
    exact hadv

/-- A comment in content is read wherever its fragments stand. -/
theorem comment_frame {x : Child} (h : comment c = .ok x c') :
    ∃ fs, c.Passes fs c' ∧ Frames comment fs x := by
  rcases comment_eq_ok_iff.mp h with ⟨hat, heof, rfl, rfl⟩
  rcases Cursor.unread_of_eof (Cursor.eof_of_isAt hat) with ⟨f, hf, _, hpass⟩
  rcases c.advance.takeUntil_frame [Marker.commentClose] with ⟨gs, hgs, _, hframe⟩
  rcases Cursor.unread_of_eof heof with ⟨l, hl, _, hpass'⟩
  refine ⟨[f] ++ (gs ++ [l]), hpass.trans (hgs.trans hpass'), ?_⟩
  intro d us hd
  rw [List.append_assoc, List.append_assoc, List.singleton_append] at hd
  rcases Cursor.of_unread_cons hd with ⟨_, _, hdadv⟩
  rcases hframe d.advance (l :: us) hdadv (by rw [hl]; rfl) with ⟨htext, hunread⟩
  rcases Cursor.of_unread_cons hunread with ⟨heof', _, hadv⟩
  refine ⟨_, comment_eq_ok_iff.mpr ⟨?_, heof', by rw [htext], rfl⟩, hadv⟩
  rw [Cursor.isAt_congr (c := c) (by rw [hd, hf]; rfl), hat]

theorem blockComment_frame (h : blockComment c = .ok t c') :
    ∃ fs, c.Passes fs c' ∧ Frames blockComment fs t := by
  rcases blockComment_eq_ok_iff.mp h with ⟨hat, heof, rfl, rfl⟩
  rcases c.takeUntil_frame [Marker.blockClose] with ⟨gs, hgs, _, hframe⟩
  rcases Cursor.unread_of_eof heof with ⟨l, hl, hlast, hpass⟩
  refine ⟨gs ++ [l], hgs.trans hpass, ?_⟩
  intro d us hd
  rw [List.append_assoc, List.singleton_append] at hd
  rcases hframe d (l :: us) hd (by rw [hl]; rfl) with ⟨htext, hunread⟩
  rcases Cursor.of_unread_cons hunread with ⟨heof', hlast', hadv⟩
  refine ⟨_, blockComment_eq_ok_iff.mpr ⟨?_, heof', by rw [htext, hlast', hlast], rfl⟩, hadv⟩
  rw [Cursor.isAt_congr (c := c) ?_, hat]
  rw [hd, hgs.1, hl]
  refine head?_append_congr ?_ gs
  rfl

/-- A comment that ends with its line is read wherever its fragments stand,
    if it did not end with the source. -/
theorem lineComment_frame (h : lineComment c = .ok t c') :
    ∃ fs, c.Passes fs c' ∧ ∀ (d : Cursor) (us : List Fragment), d.unread = fs ++ us →
      us.head? = c'.unread.head? → ∃ d', lineComment d = .ok t d' ∧ d'.unread = us := by
  rcases lineComment_eq_ok_iff.mp h with ⟨hat, hend⟩
  rcases c.takeUntil_frame [['\n']] with ⟨gs, hgs, _, hframe⟩
  rcases hend with ⟨heof, rfl, rfl⟩ | ⟨heof, rfl, rfl⟩
  · -- The comment ran to the end of the source, and does so again.
    refine ⟨gs, hgs, ?_⟩
    intro d us hd hhead
    rcases hframe d us hd hhead with ⟨htext, hunread⟩
    refine ⟨_, lineComment_eq_ok_iff.mpr ⟨?_, Or.inl ⟨?_, htext.symm, rfl⟩⟩, hunread⟩
    · rw [Cursor.isAt_congr (c := c) ?_, hat]
      rw [hd, hgs.1]
      exact head?_append_congr hhead gs
    · rw [Cursor.eof_congr (c := (c.takeUntil [['\n']]).2) (by rw [hunread, hhead]), heof]
  · -- The comment took the line break that ends it.
    rcases Cursor.unread_of_eof heof with ⟨l, hl, hlast, hpass⟩
    refine ⟨gs ++ [l], hgs.trans hpass, ?_⟩
    intro d us hd _
    rw [List.append_assoc, List.singleton_append] at hd
    rcases hframe d (l :: us) hd (by rw [hl]; rfl) with ⟨htext, hunread⟩
    rcases Cursor.of_unread_cons hunread with ⟨heof', hlast', hadv⟩
    refine ⟨_, lineComment_eq_ok_iff.mpr
      ⟨?_, Or.inr ⟨heof', by rw [htext, hlast', hlast], rfl⟩⟩, hadv⟩
    rw [Cursor.isAt_congr (c := c) ?_, hat]
    rw [hd, hgs.1, hl]
    refine head?_append_congr ?_ gs
    rfl

end Rule

/-- Where comments are recognised, text that is taken over consists of whole
    fragments, and is taken over wherever these stand. -/
theorem Verbatim.frame {z : Zone} (hz : z ≠ .unnested) {c c' : Cursor} {t : List Char}
    (h : Verbatim z c t c') :
    ∃ fs, c.Passes fs c' ∧ ∀ (d : Cursor) (us : List Fragment), d.unread = fs ++ us →
      us.head? = c'.unread.head? → ∃ d', Verbatim z d t d' ∧ d'.unread = us := by
  cases h with
  | string ht =>
      rcases Rule.quotedString_frame ht with ⟨fs, hfs, hframe⟩
      refine ⟨fs, hfs, fun d us hd _ => ?_⟩
      rcases hframe d us hd with ⟨d', hd', hus⟩
      exact ⟨d', Verbatim.string hd', hus⟩
  | lineComment _ ht =>
      rcases Rule.lineComment_frame ht with ⟨fs, hfs, hframe⟩
      refine ⟨fs, hfs, fun d us hd hhead => ?_⟩
      rcases hframe d us hd hhead with ⟨d', hd', hus⟩
      exact ⟨d', Verbatim.lineComment hz hd', hus⟩
  | blockComment _ ht =>
      rcases Rule.blockComment_frame ht with ⟨fs, hfs, hframe⟩
      refine ⟨fs, hfs, fun d us hd _ => ?_⟩
      rcases hframe d us hd with ⟨d', hd', hus⟩
      exact ⟨d', Verbatim.blockComment hz hd', hus⟩
  | plain _ hplain =>
      cases heof : c.eof with
      | true =>
          -- At the end nothing is taken, and nothing may stand there.
          have hnone : c.unread = [] := List.isEmpty_iff.mp heof
          have hadv : c.advance.unread = [] := by rw [Cursor.advance, hnone]
          have hloc : c.advance.loc = c.loc := by rw [Cursor.advance, hnone]
          refine ⟨[], ⟨by rw [hnone, hadv]; rfl, hloc⟩, ?_⟩
          intro d us hd hhead
          rw [hadv, List.head?_nil, List.head?_eq_none_iff] at hhead
          rw [hhead] at hd ⊢
          have hhead' : d.unread.head? = c.unread.head? := by rw [hd, hnone]; rfl
          have hverb := Verbatim.plain (c := d) hz ((Zone.plain_congr hhead' z).trans hplain)
          rw [Cursor.current_congr hhead'] at hverb
          exact ⟨_, hverb, by rw [Cursor.advance, hd]; rfl⟩
      | false =>
          rcases Cursor.unread_of_eof heof with ⟨f, hf, hcur, hpass⟩
          refine ⟨[f], hpass, ?_⟩
          intro d us hd _
          have hhead' : d.unread.head? = c.unread.head? := by rw [hd, hf]; rfl
          have hverb := Verbatim.plain (c := d) hz ((Zone.plain_congr hhead' z).trans hplain)
          rw [Cursor.current_congr hhead'] at hverb
          exact ⟨_, hverb, (Cursor.of_unread_cons hd).2.2⟩
  | stretch _ _ => exact absurd rfl hz

/-- Text is taken over in whole fragments, or as a stretch of one. -/
theorem Verbatim.passes {z : Zone} {c c' : Cursor} {t : List Char} (h : Verbatim z c t c') :
    (∃ fs, c.Passes fs c') ∨ c' = (c.split Pattern.codeStretch).2 := by
  by_cases hz : z = .unnested
  · cases h with
    | string ht =>
        rcases Rule.quotedString_frame ht with ⟨fs, hpass, _⟩
        exact Or.inl ⟨fs, hpass⟩
    | lineComment hz' _ => exact absurd hz hz'
    | blockComment hz' _ => exact absurd hz hz'
    | plain hz' _ => exact absurd hz hz'
    | stretch _ _ => exact Or.inr rfl
  · rcases h.frame hz with ⟨fs, hpass, _⟩
    exact Or.inl ⟨fs, hpass⟩

end Inlay
