import Inlay.Proofs.Seams

/-!
# Reading Code Again

What is kept along a derivation so that the canonical text of what was read is
read again as the same. A derivation reads from the fragments of a text, and
for each phrase there are two parts to it. The first is about the derivation
itself: the cursor that it ends at stands before the fragments of the text
that is left, so that the next phrase begins under the same condition. The
second is about the canonical text: wherever that stands, it is read as a
phrase that differs in its locations at most.

How much may change behind a phrase depends on the phrase. An element and a
group end by themselves, and anything may follow them. Pieces of code between
delimiters have to be followed by text that goes on alike. Open code may be
followed by anything that ends it.

This module says what is kept and shows that the steps that read code keep
it.

## Main definitions

* `ReadsAgain`: Pieces whose canonical text reads as pieces that say the same.
* `WholeReread`, `GroupReread`, `OpenReread`, `CodeReread`: What is kept for
  pieces between delimiters, for groups, for pieces of open code, and for code
  as markup hands over to it.

## Theorems

* `whole_verbatim`, `whole_nest`, `whole_pieces`: Pieces between delimiters.
* `open_verbatim`, `open_nest`, `open_pieces`: Pieces of open code.
* `reread_group`: Groups.
* `reread_openCode`, `reread_bracedCode`: Code as markup hands over to it.
-/

namespace Inlay

/-! ### What is kept -/

/-- The canonical text of some pieces, in front of `k`, reads as pieces that
    say the same. -/
def ReadsAgain (g : Grammar) (phrase : List Piece → Phrase) (ps : List Piece) (k : List Char) :
    Prop :=
  ∀ d : Cursor, d.unread = tokenize (canonicalPieces g ps ++ k) →
    ∃ qs d', Derives g d (phrase qs) d' ∧ flow qs = flow ps ∧ d'.unread = tokenize k

/-- Pieces that take whole fragments, and read again in front of text that
    goes on alike. -/
structure WholeReread (g : Grammar) (c c' : Cursor) (phrase : List Piece → Phrase)
    (ps : List Piece) : Prop where
  lexed : c'.Lexed
  alike : ∀ k, Alike c'.rest k → Alike c.rest (canonicalPieces g ps ++ k)
  again : ∀ k, Alike c'.rest k → ReadsAgain g phrase ps k

/-- A group that reads again in front of anything. -/
structure GroupReread (g : Grammar) (c c' : Cursor) (ps : List Piece) : Prop where
  lexed : c'.Lexed
  head : ∃ x u, canonicalPieces g ps = x :: u ∧ x ∈ ['(', '[', '{']
  last : ∀ b, starred b (canonicalPieces g ps) = false
  alike : ∀ k, Alike c.rest (canonicalPieces g ps ++ k)
  again : ∀ k, ReadsAgain g .group ps k

/-- Pieces of open code, where a slash behind a star stands alone. -/
structure OpenReread (g : Grammar) (b : Bool) (c c' : Cursor) (ps : List Piece) : Prop where
  cut : c'.unread = cut (starred b (canonicalPieces g ps)) c'.rest
  head : (canonicalPieces g ps ++ c'.rest).head? = c.rest.head?
  text : ∀ s said, OpenText g s said →
    OpenText g (canonicalPieces g ps ++ s) (flow ps ++ said)

namespace Grammar

/-- The mark that belongs to the code that begins here. -/
def codeMark : Grammar → Cursor → List Char
  | sigil, _ => []
  | brace, c => c.current

/-- Whether a slash behind code stands alone. -/
def endsStarred : Grammar → List Char → Bool
  | sigil, t => starred false t
  | brace, _ => false

end Grammar

/-- The text that code which begins at `c` is written as. -/
def codeText (g : Grammar) (c : Cursor) (ss : Code) : List Char :=
  g.codeMark c ++ canonicalCode g ss ++ g.codeClose

/-- Code that reads again in front of anything that ends it, if it is open. -/
structure CodeReread (g : Grammar) (c c' : Cursor) (ss : Code) : Prop where
  cut : c'.unread = cut (g.endsStarred (canonicalCode g ss)) c'.rest
  ends : g = .sigil → OpenEnd c'.rest
  head : ∃ x u, codeText g c ss = x :: u ∧ c.rest.head? = some x ∧ Text.isBlank x = false
  alike : g = .brace → ∀ k, Alike c.rest (codeText g c ss ++ k)
  again : ∀ k, (g = .sigil → OpenEnd k) → ∀ d : Cursor, d.unread = tokenize (codeText g c ss ++ k) →
    ∃ ss' d', Derives g d (.code ss') d' ∧ unplacedCode ss' = unplacedCode ss ∧
      d'.unread = Inlay.cut (g.endsStarred (canonicalCode g ss)) k

/-! ### Literals -/

/-- A text that ends with a closing character is cut in the same way wherever
    it stands. -/
theorem tokenize_closed {t u r : List Char} {x : Char} {fs : List Fragment} (hx : x ∈ closing)
    (ht : t = u ++ [x]) (h : tokenize (t ++ r) = fs ++ tokenize r) (k : List Char) :
    tokenize (t ++ k) = fs ++ tokenize k := by
  have hparts : ∀ k, tokenize (t ++ k) = tokenize t ++ tokenize k := by
    intro k
    rw [ht, List.append_assoc, List.singleton_append]
    exact tokenize_append_closing hx u k
  rw [hparts r] at h
  rw [hparts k, List.append_cancel_right h]

/-- A string reads again in front of anything. -/
theorem Rule.quotedString_again {c c' : Cursor} {t : List Char}
    (h : quotedString c = .ok t c') (hc : c.Lexed) :
    c'.Lexed ∧ (∀ b, starred b t = false) ∧
      ∀ (k : List Char) (d : Cursor), d.unread = tokenize (t ++ k) →
        ∃ d', quotedString d = .ok t d' ∧ d'.unread = tokenize k := by
  rcases quotedString_frame h with ⟨fs, hpass, hframe⟩
  rcases hc.passes hpass with ⟨hc', htok⟩
  have ht : t = fs.flatMap Fragment.text := by
    have hrest := rest_quotedString h
    rw [hpass.rest] at hrest
    exact List.append_cancel_right hrest
  rw [← ht] at htok
  -- The last fragment of a string is its quote.
  have hlast : ∃ u x, x ∈ ['"', '\''] ∧ t = u ++ [x] := by
    rcases quotedString_eq_ok_iff.mp h with ⟨hat, heof, htext, _⟩
    rw [Cursor.current_takeQuoted heof] at htext
    rcases Cursor.isAt_quotes hat with hq | hq
    · rw [List.mem_singleton.mp (Cursor.isAt_iff.mp hq).2] at htext
      exact ⟨_, '"', by decide, htext⟩
    · rw [List.mem_singleton.mp (Cursor.isAt_iff.mp hq).2] at htext
      exact ⟨_, '\'', by decide, htext⟩
  rcases hlast with ⟨u, x, hx, hu⟩
  have hquotes : ∀ x ∈ ['"', '\''], x ∈ closing ∧ (x == '*') = false :=
    List.all_iff_forall_prop.mp (by decide)
  refine ⟨hc', fun b => by rw [hu, starred_concat, (hquotes x hx).2], ?_⟩
  intro k d hd
  rw [tokenize_closed (hquotes x hx).1 hu htok k] at hd
  exact hframe d (tokenize k) hd

/-! ### Pieces -/

variable {g : Grammar} {c c₁ c' : Cursor}

/-- Behind a star only the end of open code is not read from the fragments of
    the text. -/
theorem lexed_of_cut {b : Bool} (h : c.unread = cut b c.rest)
    (hend : Zone.unnested.ends c = false) : c.Lexed := by
  rw [Zone.ends_unnested, h, head?_cut] at hend
  refine h.trans (cut_of_head b fun hslash => ?_)
  rw [hslash] at hend
  exact absurd hend (by decide)

theorem whole_verbatim {z : Zone} {t : List Char} (hz : z ≠ .unnested) (hv : Verbatim z c t c')
    (hc : c.Lexed) : WholeReread g c c' (.piece z) [.text t] := by
  rcases hv.frame hz with ⟨fs, hpass, hframe⟩
  rcases hc.passes hpass with ⟨hc', htok⟩
  have ht : t = fs.flatMap Fragment.text := by
    have hrest := hv.rest
    rw [hpass.rest] at hrest
    exact List.append_cancel_right hrest
  have htext : canonicalPieces g [.text t] = t := List.append_nil t
  refine ⟨hc', fun k hk => ?_, fun k hk d hd => ?_⟩
  · rw [htext, ← hv.rest]
    exact hk.append t
  · rw [htext, ht, hk.tokenize_append htok] at hd
    rcases hframe d (tokenize k) hd (by rw [hk.head, hc']) with ⟨d', hv', hd'⟩
    exact ⟨_, d', Derives.verbatim hv', rfl, hd'⟩

theorem open_verbatim {t : List Char} {b : Bool} (hv : Verbatim .unnested c t c')
    (hc : c.unread = cut b c.rest) (hend : Zone.unnested.ends c = false) :
    OpenReread g b c c' [.text t] := by
  have hlexed := lexed_of_cut hc hend
  have htext : canonicalPieces g [.text t] = t := List.append_nil t
  have hsays : flow [.text t] = t.map Sum.inl := List.append_nil _
  have hhead := congrArg List.head? hv.rest
  cases hv with
  | string ht =>
      rcases Rule.quotedString_again ht hlexed with ⟨hc', hlast, hagain⟩
      refine ⟨?_, by rw [htext]; exact hhead, fun s said hs => ?_⟩
      · rw [htext, hlast, cut_false]
        exact hc'
      · rw [htext, hsays]
        refine OpenText.block ⟨?_, hlast, fun k d hd => ?_⟩ hs
        · rcases Rule.head_quotedString ht with ⟨u, hu | hu⟩
          · exact ⟨_, u, hu, by decide⟩
          · exact ⟨_, u, hu, by decide⟩
        · rcases hagain k d hd with ⟨d', ht', hd'⟩
          exact ⟨_, d', Derives.verbatim (Verbatim.string ht'), hsays, hd'⟩
  -- Open code has no comments, and no fragment is taken whole.
  | lineComment hz _ => exact absurd rfl hz
  | blockComment hz _ => exact absurd rfl hz
  | plain hz _ => exact absurd rfl hz
  | stretch hclose hquote =>
      rcases Cursor.cut_codeStretch hlexed hend hclose hquote with ⟨hchars, hcut⟩
      refine ⟨by rw [htext]; exact hcut b, by rw [htext]; exact hhead, fun s said hs => ?_⟩
      rw [htext, hsays]
      exact hs.chars hchars

theorem whole_noPieces {z : Zone} (hend : z.ends c = true) (hc : c.Lexed) :
    WholeReread g c c (.pieces z) [] := by
  refine ⟨hc, fun k hk => hk, fun k hk d hd => ?_⟩
  have hhead : d.unread.head? = c.unread.head? := by
    rw [hd, hc]
    exact hk.head
  exact ⟨[], d, Derives.noPieces ((Zone.ends_congr hhead z).trans hend), rfl, hd⟩

theorem whole_pieces {z : Zone} {ps qs : List Piece} (hend : z.ends c = false) (hc : c.Lexed)
    (hps : WholeReread g c c₁ (.piece z) ps) (hqs : WholeReread g c₁ c' (.pieces z) qs) :
    WholeReread g c c' (.pieces z) (ps ++ qs) := by
  refine ⟨hqs.lexed, fun k hk => ?_, fun k hk d hd => ?_⟩
  · rw [canonicalPieces_append, List.append_assoc]
    exact hps.alike _ (hqs.alike k hk)
  · rw [canonicalPieces_append, List.append_assoc] at hd
    rcases hps.again _ (hqs.alike k hk) d hd with ⟨ps', d₁, hps', hflow, hd₁⟩
    rcases hqs.again k hk d₁ hd₁ with ⟨qs', d', hqs', hflow', hd'⟩
    have hhead : d.unread.head? = c.unread.head? := by
      rw [hd, hc]
      exact (hps.alike _ (hqs.alike k hk)).head
    refine ⟨ps' ++ qs', d', Derives.pieces ((Zone.ends_congr hhead z).trans hend) hps' hqs', ?_, hd'⟩
    rw [flow_append, hflow, hflow', flow_append]

theorem open_noPieces {b : Bool} (hc : c.unread = cut b c.rest) : OpenReread g b c c [] :=
  ⟨hc, rfl, fun _ _ hs => hs⟩

theorem open_pieces {b : Bool} {ps qs : List Piece} (hps : OpenReread g b c c₁ ps)
    (hqs : OpenReread g (starred b (canonicalPieces g ps)) c₁ c' qs) :
    OpenReread g b c c' (ps ++ qs) := by
  refine ⟨?_, ?_, fun s said hs => ?_⟩
  · rw [canonicalPieces_append, starred_append]
    exact hqs.cut
  · rw [canonicalPieces_append, List.append_assoc, ← hps.head]
    exact head?_append_congr hqs.head _
  · rw [canonicalPieces_append, flow_append, List.append_assoc, List.append_assoc]
    exact hps.text _ _ (hqs.text s said hs)

/-! ### Groups -/

/-- The mark that a text goes on alike behind is passed with its fragment. -/
theorem unread_behind {d : Cursor} {k : List Char} (hhead : d.unread.head? = c.unread.head?)
    (hd : d.unread = tokenize (c.current ++ k)) :
    d.current = c.current ∧ d.advance.unread = tokenize k := by
  have hcur := Cursor.current_congr hhead
  have hrest := Cursor.rest_of_unread hd
  rw [← d.current_append_rest_advance, hcur] at hrest
  have hadv := (Cursor.lexed_of_unread hd).advance
  rw [Cursor.Lexed, List.append_cancel_left hrest] at hadv
  exact ⟨hcur, hadv⟩

/-- A closing delimiter is a fragment of its own, and every fragment ends in
    front of it. -/
theorem closer_parts {close : List Char} (h : c.closer? = some close) :
    ∃ y, close = [y] ∧ (y == '*') = false ∧ ∀ k, Hard (close ++ k) ∧
      tokenize (close ++ k) = ⟨y, []⟩ :: tokenize k := by
  have hone : ∃ y ∈ [')', ']', '}'], close = [y] := by
    rcases Cursor.closer?_cases h with ⟨_, rfl⟩ | ⟨_, rfl⟩ | ⟨_, rfl⟩ | ⟨_, rfl⟩
    · exact ⟨')', by decide, rfl⟩
    · exact ⟨']', by decide, rfl⟩
    · exact ⟨'}', by decide, rfl⟩
    · exact ⟨'}', by decide, rfl⟩
  rcases hone with ⟨y, hy, rfl⟩
  have hchars : ∀ y ∈ [')', ']', '}'], (y == '*') = false ∧ y ∈ hard ∧ isStructural y = true ∧
      ∀ m ∈ Marker.all, m.head? ≠ some y :=
    List.all_iff_forall_prop.mp (by decide)
  rcases hchars y hy with ⟨hstar, hhard, hstruct, hmark⟩
  refine ⟨y, rfl, hstar, fun k => ⟨?_, tokenize_structural hstruct (Marker.leading?_eq_none hmark k)⟩⟩
  intro x hx
  cases hx
  exact hhard

theorem reread_group {close : List Char} {ps : List Piece} (hclose : c.closer? = some close)
    (hend : c₁.isAt [close] = true) (hc : c.Lexed)
    (hps : WholeReread g c.advance c₁ (.pieces (.group close)) ps) :
    GroupReread g c c₁.advance (.text c.current :: ps ++ [.text close]) := by
  rcases closer_parts hclose with ⟨y, hy, hstar, hparts⟩
  have hrest : c₁.rest = close ++ c₁.advance.rest := Cursor.rest_of_isAt hend
  -- The delimiter alone decides how the last piece in front of it is cut.
  have hafter : ∀ k, Alike c₁.rest (close ++ k) := by
    intro k
    rw [hrest]
    refine Alike.of_hard (hparts _).1 (hparts _).1 ?_
    rw [(hparts _).2, (hparts _).2]
    rfl
  have htext : ∀ k, canonicalPieces g (.text c.current :: ps ++ [.text close]) ++ k =
      c.current ++ (canonicalPieces g ps ++ (close ++ k)) := by
    intro k
    rw [canonicalPieces_group, List.append_assoc, List.append_assoc]
  have halike : ∀ k, Alike c.rest (c.current ++ (canonicalPieces g ps ++ (close ++ k))) := by
    intro k
    rw [← c.current_append_rest_advance]
    exact (hps.alike _ (hafter k)).append _
  refine ⟨hps.lexed.advance, ?_, ?_, fun k => ?_, fun k d hd => ?_⟩
  · rw [canonicalPieces_group]
    rcases Cursor.closer?_cases hclose with ⟨hat, _⟩ | ⟨hat, _⟩ | ⟨hat, _⟩ | ⟨hat, _⟩
    all_goals
      rw [List.mem_singleton.mp (Cursor.isAt_iff.mp hat).2]
      exact ⟨_, _, rfl, by decide⟩
  · intro b
    rw [canonicalPieces_group, ← List.append_assoc, hy, starred_concat, hstar]
  · rw [htext]
    exact halike k
  · rw [htext] at hd
    have hhead : d.unread.head? = c.unread.head? := by
      rw [hd, hc]
      exact (halike k).head
    rcases unread_behind hhead hd with ⟨hcur, hadv⟩
    rcases hps.again _ (hafter k) d.advance hadv with ⟨qs, d₁, hqs, hflow, hd₁⟩
    rw [(hparts k).2] at hd₁
    rcases Cursor.of_unread_cons hd₁ with ⟨heof, hcur₁, hadv₁⟩
    have hopen : d.closer? = some close := (Cursor.closer?_congr hhead).trans hclose
    refine ⟨_, d₁.advance, Derives.group hopen hqs heof, ?_, hadv₁⟩
    have hlast : d₁.current = close := by
      rw [hcur₁, hy]
      rfl
    rw [hcur, hlast, flow_group, flow_group, hflow]

/-- A group is a block of open code. -/
theorem GroupReread.block {ps : List Piece} (h : GroupReread g c c' ps) :
    Block g (canonicalPieces g ps) (flow ps) := by
  refine ⟨?_, h.last, fun k d hd => ?_⟩
  · rcases h.head with ⟨x, u, hxu, hx⟩
    have hchars : ∀ x ∈ ['(', '[', '{'], x ∈ ['"', '\'', '(', '[', '{'] :=
      List.all_iff_forall_prop.mp (by decide)
    exact ⟨x, u, hxu, hchars x hx⟩
  · rcases h.again k d hd with ⟨qs, d', hqs, hflow, hd'⟩
    exact ⟨qs, d', Derives.nest (by decide) hqs, hflow, hd'⟩

theorem whole_nest {z : Zone} {ps : List Piece} (hz : z ≠ .source) (h : GroupReread g c c' ps) :
    WholeReread g c c' (.piece z) ps := by
  refine ⟨h.lexed, fun k _ => h.alike k, fun k _ d hd => ?_⟩
  rcases h.again k d hd with ⟨qs, d', hqs, hflow, hd'⟩
  exact ⟨qs, d', Derives.nest hz hqs, hflow, hd'⟩

theorem open_nest {b : Bool} {ps : List Piece} (h : GroupReread g c c' ps) :
    OpenReread g b c c' ps := by
  refine ⟨?_, (h.alike _).head_char, fun s said hs => OpenText.block h.block hs⟩
  rw [h.last, cut_false]
  exact h.lexed

/-! ### Code -/

theorem unplacedCode_eq_nil {ss : Code} (h : unplacedCode ss = []) : ss = [] := by
  cases ss with
  | nil => rfl
  | cons x ss => cases h

theorem OpenText.said_eq_nil {said : List (Char ⊕ Element)} (h : OpenText g [] said) : said = [] := by
  generalize hs : ([] : List Char) = s at h
  cases h with
  | nil => rfl
  | char _ _ => cases hs
  | block ht _ =>
      rcases ht.head with ⟨x, u, rfl, _⟩
      cases hs

theorem reread_openCode {ps : List Piece} (hend : Zone.unnested.ends c' = true)
    (hne : (Run.extend { loc := c.loc } ps).flush.segments ≠ [])
    (hps : OpenReread .sigil false c c' ps) :
    CodeReread .sigil c c' (Run.extend { loc := c.loc } ps).flush.segments := by
  have hcanon : canonicalCode .sigil (Run.extend { loc := c.loc } ps).flush.segments =
      canonicalPieces .sigil ps := by
    rw [Run.canonicalCode_flush, Run.canonical_extend]
    rfl
  have htext : codeText .sigil c (Run.extend { loc := c.loc } ps).flush.segments =
      canonicalPieces .sigil ps := by
    rw [codeText, hcanon]
    exact List.append_nil _
  have hopen := hps.text [] [] OpenText.nil
  rw [List.append_nil, List.append_nil] at hopen
  refine ⟨by rw [hcanon]; exact hps.cut, fun _ => ?_, ?_, fun hg => ?_, fun k hk d hd => ?_⟩
  · intro x hx
    rw [Zone.ends_unnested, hps.cut, head?_cut, hx] at hend
    exact hend
  · -- Code that says nothing would have no segments.
    rw [htext]
    cases hcode : canonicalPieces .sigil ps with
    | nil =>
        rw [hcode] at hopen
        have hnone : flow ([] : List Piece) = flow ps := hopen.said_eq_nil.symm
        have hsame := Run.unplaced_segments hnone c.loc c.loc
        exact absurd (unplacedCode_eq_nil hsame.symm) hne
    | cons x u =>
        have hhead := hps.head
        rw [hcode] at hhead hopen
        have hcode' := hopen.head x rfl
        refine ⟨x, u, rfl, hhead.symm, ?_⟩
        unfold Pattern.endsCode at hcode'
        exact (Bool.or_eq_false_iff.mp hcode').1
  · cases hg
  · rw [htext] at hd
    rcases hopen.reads (hk rfl) d hd with ⟨qs, d', hqs, hflow, hd'⟩
    have hsame := Run.unplaced_segments hflow c.loc d.loc
    refine ⟨_, d', Derives.openCode rfl hqs ?_, hsame, by rw [hcanon]; exact hd'⟩
    intro hnil
    rw [hnil] at hsame
    exact hne (unplacedCode_eq_nil hsame.symm)

theorem reread_bracedCode {qs : List Piece} (hat : c.isAt [['{'], Marker.spread] = true)
    (hc : c.Lexed) (hps : GroupReread .brace c c' (.text c.current :: qs ++ [.text ['}']])) :
    CodeReread .brace c c' (Rule.unbraced c.current.length
      (Run.extend { loc := c.loc } (.text c.current :: qs ++ [.text ['}']]))) := by
  have hne : c.current ≠ [] := Cursor.current_ne_nil (Cursor.eof_of_isAt hat)
  have htext : codeText .brace c (Rule.unbraced c.current.length
      (Run.extend { loc := c.loc } (.text c.current :: qs ++ [.text ['}']]))) =
      canonicalPieces .brace (.text c.current :: qs ++ [.text ['}']]) := by
    rw [codeText, Rule.canonicalCode_unbraced .brace hne, canonicalPieces_group, List.append_assoc]
    rfl
  refine ⟨hps.lexed.trans (cut_false _).symm, fun hg => ?_, ?_, fun _ k => ?_, fun k _ d hd => ?_⟩
  · cases hg
  · rw [htext]
    rcases hps.head with ⟨x, u, hxu, hx⟩
    have hchars : ∀ x ∈ ['(', '[', '{'], Text.isBlank x = false :=
      List.all_iff_forall_prop.mp (by decide)
    have hhead := (hps.alike []).head_char
    rw [List.append_nil, hxu] at hhead
    exact ⟨x, u, hxu, hhead.symm, hchars x hx⟩
  · rw [htext]
    exact hps.alike k
  · rw [htext] at hd
    have hhead : d.unread.head? = c.unread.head? := by
      rw [hd, hc]
      exact (hps.alike k).head
    rcases hps.again k d hd with ⟨ps', d', hps', hflow, hd'⟩
    have hat' : d.isAt [['{'], Marker.spread] = true := (Cursor.isAt_congr hhead _).trans hat
    -- Both groups have the same braces, so what is between them says the same.
    have hcode := Derives.bracedCode rfl hat' hps'
    rcases hps'.group_inv with ⟨close, qs', d₁, hclose, _, _, rfl, _⟩
    rw [Derives.closer?_of_brace hat' hclose, Cursor.current_congr hhead] at hcode hflow
    rw [flow_group, flow_group] at hflow
    have hsays := List.append_cancel_right (List.append_cancel_left hflow)
    refine ⟨_, d', hcode, Rule.unplaced_unbraced hne hsays c.loc d.loc '}', ?_⟩
    exact hd'.trans (cut_false _).symm

end Inlay
