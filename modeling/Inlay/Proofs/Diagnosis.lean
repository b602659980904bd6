import Inlay.Proofs.Peeling

/-!
# What a Diagnostic Says

Every diagnostic of a parse is exact (`parseSource_diagnoses`). It names one
of the causes that a parse can have, which are fewer than there are: a guard
is implied by the task that its rule is run for, so that no guard ever speaks.
It tells a place of the source, with the line and the column of that place and
the text found there. And what is found there belongs to the cause.

Most causes are about a construct that was begun and not brought to its end.
They are told where the construct began, however far the reading went on
behind that place. The others are told where something is missing, and what
stands there instead is not what was missing. That takes more than the guard
of the rule, since a rule compares whole fragments: that the source does not
go on with a mark because no fragment of that mark stands there holds only
where the fragments are those of the text (`Task.Lexed`).

## Main definitions

* `Cause.reported`: The causes that a parse reports.
* `Cause.Fits`: What stands around the place that a cause is told about.
* `Task.Due`: What is known of a task because of the one that entered it.

## Theorems

* `Raises.fits`: Every failure is told about a place that fits its cause.
* `parseSource_diagnoses`: Every diagnostic is exact.
* `Cause.reported_attained`: Every cause that is reported can occur.
-/

namespace Inlay

/-! ### Causes -/

namespace Cause

/-- The causes that reading reports in both grammars. -/
def common : List Cause :=
  [badName, unterminatedTag, missingEndTag, mismatchedTags, malformedEndTag, unrecognizedEntry,
    unterminatedComment, unterminatedGroup, unterminatedString, unterminatedBlock]

/-- The causes that a parse reports. Code can be missing where it has no
    braces, and the brace can be missing where it has. -/
def reported : Grammar → List Cause
  | .sigil => notCode :: common
  | .brace => unexpectedValue :: common

/-- All causes. -/
def all : List Cause :=
  [notElement, badName, unterminatedTag, missingEndTag, mismatchedTags, malformedEndTag,
    unrecognizedEntry, notProperty, unexpectedValue, notMixin, notBracedMixin, notComment,
    unterminatedComment, notInsertion, notCode, notBracedCode, notGroup, unterminatedGroup,
    notString, unterminatedString, notCodeComment, unterminatedBlock]

theorem mem_all (cause : Cause) : cause ∈ all := by
  cases cause <;> decide

/-- No two causes are worded alike. -/
theorem message_injective {a b : Cause} (h : a.message = b.message) : a = b := by
  have hdistinct : ∀ a ∈ all, ∀ b ∈ all, a.message = b.message → a = b := by decide +kernel
  exact hdistinct a a.mem_all b b.mem_all h

/-- A place behind an equals sign and blank space. -/
def BehindSign (before : List Char) : Prop :=
  ∃ w, Blank w ∧ '=' :: w <:+ before

/-- The place that a cause is told about stands between `before` and `after`. -/
def Fits (g : Grammar) (before after : List Char) : Cause → Prop
  | badName => ∃ k, after = '<' :: k ∧ ∀ x, k.head? = some x → Pattern.isNameStart x = false
  | unterminatedTag | missingEndTag | mismatchedTags =>
    ∃ x k, after = '<' :: x :: k ∧ Pattern.isNameStart x = true
  | malformedEndTag =>
    (∃ tag, Pattern.IsName tag ∧ '<' :: '/' :: tag <:+ before) ∧ after.head? ≠ some '>'
  | unrecognizedEntry =>
    ∃ x k, after = x :: k ∧ Text.isBlank x = false ∧ Pattern.isNameStart x = false ∧ x ≠ '>' ∧
      ¬ g.mixinMark <+: after
  | unexpectedValue =>
    BehindSign before ∧
      ∀ x, after.head? = some x → Text.isBlank x = false ∧ x ≠ '"' ∧ x ≠ '\'' ∧
        (x = '{' → Marker.spread <+: after)
  | unterminatedComment => Marker.commentOpen <+: after
  | notCode =>
    (['@'] <:+ before ∨ BehindSign before) ∧
      ∀ x, after.head? = some x → Pattern.endsCode x = true
  | unterminatedGroup => ∃ x ∈ ['(', '[', '{'], [x] <+: after
  | unterminatedString => ∃ x ∈ ['"', '\''], [x] <+: after
  | unterminatedBlock => Marker.blockOpen <+: after
  | notElement | notProperty | notMixin | notBracedMixin | notComment | notInsertion
  | notBracedCode | notGroup | notString | notCodeComment => False

end Cause

/-! ### What stands at a cursor -/

namespace Cursor

variable {s : List Char} {c c' : Cursor}

/-- Where no name begins, the text does not go on with a letter. -/
theorem head_of_no_name (h : (c.matched? Pattern.identifier).isSome = false) :
    ∀ x, c.rest.head? = some x → Pattern.isNameStart x = false := by
  intro x hx
  rw [matched?_identifier, hx] at h
  exact h

/-- Where the fragments are those of the text, a closing bracket is met as it
    stands. -/
theorem Lexed.isAt_close (h : c.Lexed) (hhead : c.rest.head? = some '>') :
    c.isAt [['>']] = true := by
  rcases List.head?_eq_some_iff.mp hhead with ⟨k, hk⟩
  rw [Lexed, hk] at h
  exact (at_structural (by decide) (Marker.leading?_eq_none (by decide) k) h).1

/-- Where the fragments are those of the text, a brace is met as it stands, or
    the dots of a spread follow it. -/
theorem Lexed.isAt_brace (h : c.Lexed) (hhead : c.rest.head? = some '{') :
    c.isAt [['{']] = true ∨ Marker.spread <+: c.rest := by
  rcases List.head?_eq_some_iff.mp hhead with ⟨k, hk⟩
  cases hlead : Marker.leading? ('{' :: k) with
  | none =>
      rw [Lexed, hk] at h
      exact Or.inl (at_structural (by decide) hlead h).1
  | some m =>
      rcases Marker.leading?_mem hlead with ⟨hm, hpre⟩
      have honly : ∀ m ∈ Marker.all, m.head? = some '{' → m = Marker.spread := by decide
      have hmark : m = Marker.spread := by
        refine honly m hm ?_
        rcases hpre with ⟨t, ht⟩
        cases m with
        | nil => exact absurd rfl (Marker.ne_nil_of_mem hm)
        | cons x xs => rw [List.head?_cons, (List.cons.inj ht).1]
      rw [hk, ← hmark]
      exact Or.inr hpre

/-- Where the fragments are those of the text, the mark of a mixin is met as
    it stands. -/
theorem isAt_mixinMark {g : Grammar} {b : Bool} (hc : c.unread = cut b c.rest)
    (hmark : g.mixinMark <+: c.rest) : c.isAt [g.mixinMark] = true := by
  rcases hmark with ⟨k, hk⟩
  rw [← hk] at hc
  cases g with
  | sigil =>
      refine (at_structural (x := '@') (by decide) (Marker.leading?_eq_none (by decide) k) ?_).1
      exact hc.trans (cut_cons (by decide) b k)
  | brace =>
      refine (at_marker (m := Marker.spread) (k := k) (by decide) ?_).1
      exact hc.trans (cut_cons (x := '{') (by decide) b _)

/-- Of two cursors of a source, the second stands behind what the first has in
    front of it. -/
theorem Placed.behind {u : List Char} (h : c.Placed s) (h' : c'.Placed s)
    (hrest : c.rest = u ++ c'.rest) :
    ∃ before, s = before ++ u ++ c'.rest ∧ c'.loc = Location.behind (before ++ u) := by
  rcases h.place with ⟨before, hs, _⟩
  rcases h'.place with ⟨before', hs', hloc⟩
  rw [hrest, ← List.append_assoc] at hs
  have hsame : before' = before ++ u := List.append_cancel_right (hs'.symm.trans hs)
  rw [hsame] at hloc
  exact ⟨before, hs, hloc⟩

end Cursor

/-! ### Failures and their places -/

/-- A failure is told about a place of a source that fits its cause. -/
def Failure.Fits (g : Grammar) (s : List Char) (f : Failure) : Prop :=
  f.cause ∈ Cause.reported g ∧
    ∃ before after, s = before ++ after ∧ f.loc = Location.behind before ∧
      f.cause.Fits g before after

/-- What is known of a task because of the one that entered it: the tag goes
    on at an entry, and open code stands behind its mark. -/
def Task.Due (g : Grammar) (s : List Char) : Task → Prop
  | ⟨.entry, c⟩ => c.tagEnds = false
  | ⟨.code, c⟩ => g = .sigil → ∃ before, s = before ++ c.rest ∧ c.loc = Location.behind before ∧
    (['@'] <:+ before ∨ Cause.BehindSign before)
  | _ => True

section

variable {g : Grammar} {s : List Char} {c : Cursor} {t t' : Task} {f : Failure}

/-- The value of a property stands behind its sign. -/
theorem Cursor.Placed.value (h : c.Placed s) (hsign : c.pastName.isAt [['=']] = true) :
    ∃ before, s = before ++ c.pastName.pastSign.rest ∧
      c.pastName.pastSign.loc = Location.behind before ∧ Cause.BehindSign before := by
  rcases Cursor.rest_pastSign hsign with ⟨w, hw, hrest⟩
  rcases h.pastName.behind h.pastName.pastSign hrest with ⟨before, hs, hloc⟩
  exact ⟨_, hs, hloc, w, hw, List.suffix_append before _⟩

/-- Open code behind a mark stands behind it. -/
theorem Cursor.Placed.marked {mark : List Char} (h : c.Placed s) (hat : c.isAt [mark] = true)
    (hmark : g = .sigil → mark = ['@']) : (Task.mk .code (g.behindMark c)).Due g s := by
  intro hg
  subst hg
  rw [hmark rfl] at hat
  rcases h.behind h.advance (Cursor.rest_of_isAt hat) with ⟨before, hs, hloc⟩
  exact ⟨_, hs, hloc, Or.inl (List.suffix_append before _)⟩

theorem Enters.due (h : Enters g t t') (ht : t.cursor.Placed s) : t'.Due g s := by
  cases h with
  | computed hvalue _ _ =>
      intro _
      rcases ht.value hvalue.2 with ⟨before, hs, hloc, hsign⟩
      exact ⟨before, hs, hloc, Or.inr hsign⟩
  | mixin _ hat => exact ht.marked hat fun hg => by rw [hg]; rfl
  | insertion hat => exact ht.marked hat fun hg => by rw [hg]; rfl
  | entry hend => exact hend
  | _ => exact trivial

/-- A failure that is told where the task stands fits if what is unread does. -/
theorem Cursor.Placed.fits {cause : Cause} (h : c.Placed s) (hcause : cause ∈ Cause.reported g)
    (hfits : ∀ before, cause.Fits g before c.rest) : Failure.Fits g s ⟨cause, c.loc⟩ := by
  rcases h.place with ⟨before, hs, hloc⟩
  exact ⟨hcause, before, c.rest, hs, hloc, hfits before⟩

theorem Cause.mem_reported {cause : Cause} (h : cause ∈ Cause.common) :
    cause ∈ Cause.reported g := by
  cases g with
  | sigil => exact List.mem_cons_of_mem _ h
  | brace => exact List.mem_cons_of_mem _ h

/-- A string that is not closed is told where it began. -/
theorem Cursor.Placed.fits_string (h : c.Placed s) (hat : c.isAt quotes = true) :
    Failure.Fits g s ⟨.unterminatedString, c.loc⟩ := by
  refine h.fits (Cause.mem_reported (by decide)) fun before => ?_
  rcases Cursor.isAt_quotes hat with hq | hq
  · exact ⟨'"', by decide, by rw [Cursor.rest_of_isAt hq]; exact List.prefix_append _ _⟩
  · exact ⟨'\'', by decide, by rw [Cursor.rest_of_isAt hq]; exact List.prefix_append _ _⟩

/-- An element begins with a bracket and its name. -/
theorem TagRead.begins {c₁ : Cursor} (h : TagRead g c c₁) :
    ∃ x k, c.rest = '<' :: x :: k ∧ Pattern.isNameStart x = true := by
  rcases h with ⟨hat, hne, _⟩
  rcases (Cursor.isName_name hne).head with ⟨x, xs, hname, hx⟩
  refine ⟨x, xs ++ (c.advance.split Pattern.identifier).2.rest, ?_, hx⟩
  rw [Cursor.rest_of_isAt hat, ← c.advance.rest_split Pattern.identifier, ← Cursor.name, hname]
  rfl

theorem ContentRead.placed {c₂ : Cursor} (h : ContentRead g c c₂) (hc : c.Placed s) :
    c₂.Placed s := by
  rcases h with ⟨c₁, xs, htag, _, hxs⟩
  exact (hxs.placed (htag.placed hc).advance).1

/-- A bracket that is missing behind the name of an end tag is told there. -/
theorem ContentRead.fits_endTag {c₂ : Cursor} (h : ContentRead g c c₂) (hc : c.Placed s)
    (hlexed : c.Lexed) (heof : c₂.eof = false) (hname : c₂.advance.name = c.advance.name)
    (hlast : (c₂.advance.split Pattern.identifier).2.isAt [['>']] = false) :
    Failure.Fits g s ⟨.malformedEndTag, (c₂.advance.split Pattern.identifier).2.loc⟩ := by
  have hc₂ := h.placed hc
  have hopen := h.isAt_endOpen heof
  have hrest : c₂.rest = '<' :: '/' :: c.advance.name ++
      (c₂.advance.split Pattern.identifier).2.rest := by
    rw [Cursor.rest_of_isAt hopen, ← c₂.advance.rest_split Pattern.identifier, ← Cursor.name, hname]
    rfl
  rcases hc₂.behind hc₂.advance.name hrest with ⟨before, hs, hloc⟩
  have hne : c.advance.name ≠ [] := by
    rcases h with ⟨_, _, htag, _⟩
    exact htag.2.1
  have hcause : Cause.malformedEndTag ∈ Cause.reported g := Cause.mem_reported (by decide)
  refine ⟨hcause, _, _, hs, hloc,
    ⟨_, Cursor.isName_name hne, List.suffix_append before _⟩, fun hhead => ?_⟩
  rw [((h.lexed hlexed).advance.name).isAt_close hhead] at hlast
  cases hlast

/-- Every failure is told about a place that fits its cause. -/
theorem Raises.fits (h : Raises g t f) (hplaced : t.cursor.Placed s) (hlexed : t.Lexed)
    (hdue : t.Due g s) : f.Fits g s := by
  -- What failed in a construct is told where the cursor stood when the
  -- construct was begun, and that is where its task stands.
  cases h with
  | string hat _ => exact hplaced.fits_string hat
  | block _ hat _ =>
      refine hplaced.fits (Cause.mem_reported (by decide)) fun before => ?_
      exact ⟨_, (Cursor.rest_of_isAt hat).symm⟩
  | group hclose _ _ =>
      refine hplaced.fits (Cause.mem_reported (by decide)) fun before => ?_
      rcases Cursor.closer?_cases hclose with ⟨hat, _⟩ | ⟨hat, _⟩ | ⟨hat, _⟩ | ⟨hat, _⟩
      · exact ⟨'(', by decide, _, (Cursor.rest_of_isAt hat).symm⟩
      · exact ⟨'[', by decide, _, (Cursor.rest_of_isAt hat).symm⟩
      · exact ⟨'{', by decide, _, (Cursor.rest_of_isAt hat).symm⟩
      · exact ⟨'{', by decide, _, (Cursor.rest_of_isAt hat).symm⟩
  | @code c hg hend =>
      rcases hdue hg with ⟨before, hs, hloc, hmark⟩
      subst hg
      refine ⟨List.mem_cons_self, before, c.rest, hs, hloc, hmark, fun x hx => ?_⟩
      rw [Zone.ends_unnested, ← c.head?_rest, hx] at hend
      exact hend
  | quoted _ hquote _ => exact hplaced.pastName.pastSign.fits_string hquote
  | @value c hg hvalue hquote hbrace =>
      rcases hplaced.value hvalue.2 with ⟨before, hs, hloc, hsign⟩
      rcases hlexed with ⟨⟨b, hcut⟩, _⟩
      have hvalueLexed : c.pastName.pastSign.Lexed :=
        (Cursor.lexed_of_name hvalue.1 hcut).name.skipBlank.advance.skipBlank
      have hnoquote : ∀ x ∈ ['"', '\''], c.pastName.pastSign.rest.head? ≠ some x := by
        intro x hx hhead
        rw [hvalueLexed.isAt_quotes_iff.mpr ⟨x, hx, hhead⟩] at hquote
        cases hquote
      subst hg
      refine ⟨List.mem_cons_self, before, _, hs, hloc, hsign, fun x hx => ?_⟩
      refine ⟨Cursor.head_skipBlank _ x hx, ?_, ?_, ?_⟩
      · rintro rfl
        exact hnoquote _ (by decide) hx
      · rintro rfl
        exact hnoquote _ (by decide) hx
      · rintro rfl
        refine (hvalueLexed.isAt_brace hx).resolve_left fun hat => ?_
        rw [hbrace] at hat
        cases hat
  | @entry c hid hat =>
      rcases hlexed with ⟨⟨b, hcut⟩, hblank⟩
      refine hplaced.fits (Cause.mem_reported (by decide)) fun before => ?_
      rcases Bool.or_eq_false_iff.mp hdue with ⟨heof, hclose⟩
      rcases Cursor.unread_of_eof heof with ⟨f, hunread, _, _⟩
      have hhead : c.rest.head? = some f.head := by rw [c.head?_rest, hunread]; rfl
      rcases List.head?_eq_some_iff.mp hhead with ⟨k, hk⟩
      refine ⟨f.head, k, hk, hblank _ hhead, Cursor.head_of_no_name hid _ hhead, ?_, ?_⟩
      · intro hbracket
        rw [hbracket] at hhead
        -- A closing bracket would have ended the tag.
        have hhere : c.Lexed := hcut.trans (cut_of_head b (by rw [hhead]; decide))
        rw [Cursor.isAt_eq_contains (hhere.isAt_close hhead)] at hclose
        cases hclose
      · intro hmark
        rw [Cursor.isAt_mixinMark hcut hmark] at hat
        cases hat
  | comment hat _ =>
      refine hplaced.fits (Cause.mem_reported (by decide)) fun before => ?_
      exact ⟨_, (Cursor.rest_of_isAt hat).symm⟩
  | name hat hname =>
      refine hplaced.fits (Cause.mem_reported (by decide)) fun before => ?_
      refine ⟨_, Cursor.rest_of_isAt hat, Cursor.head_of_no_name ?_⟩
      rw [← Bool.not_eq_true, ← Cursor.name_ne_nil_iff]
      exact fun hne => hne hname
  | tag htag _ => exact hplaced.fits (Cause.mem_reported (by decide)) fun _ => htag.begins
  | content hcontent _ =>
      rcases hcontent with ⟨_, _, htag, _⟩
      exact hplaced.fits (Cause.mem_reported (by decide)) fun _ => htag.begins
  | endName hcontent _ _ =>
      rcases hcontent with ⟨_, _, htag, _⟩
      exact hplaced.fits (Cause.mem_reported (by decide)) fun _ => htag.begins
  | endTag hcontent heof hname hlast => exact hcontent.fits_endTag hplaced hlexed heof hname hlast

/-- Every failure of a source is told about a place that fits its cause. -/
theorem Fails.fits (h : Fails g (Task.source s) f) : f.Fits g s := by
  rcases h with ⟨t, hreach, hraise⟩
  rcases hreach.sound with ⟨hplaced, hlexed⟩
  refine hraise.fits hplaced hlexed ?_
  rcases Relation.ReflTransGen.cases_tail hreach with rfl | ⟨u, hreach', henter⟩
  · exact trivial
  · exact henter.due (Reaches.sound hreach').1

end

/-! ### Diagnostics -/

/-- The snippet at an offset of a source is the text that follows it. -/
theorem snippet_eq {s : List Char} {pos : Nat} (h : pos ≤ s.length) :
    snippet s pos = ((s.drop pos).take 30).filter fun x => x != '\n' && x != '\r' := by
  have hstart : bound s.length pos = pos := by
    rw [bound, if_neg (by omega)]
    omega
  have hstop : bound s.length ((pos : Int) + snippetLength) - pos = min 30 (s.length - pos) := by
    rw [bound, snippetLength, if_neg (by omega)]
    omega
  rw [snippet, slice, hstart, hstop, ← List.length_drop, ← List.take_eq_take_min]

/-- Every diagnostic of a parse is exact. Its location is the offset, line and
    column of a place in the source, its snippet is the text found there, its
    message is that of a cause which a parse can have, and what stands around
    the place is what that cause is about. -/
theorem parseSource_diagnoses (g : Grammar) (s : List Char) (d : Diagnostic)
    (h : parseSource g s = .error d) :
    ∃ (pos : Nat) (cause : Cause),
      pos ≤ s.length ∧ d.loc.pos = pos ∧ d.loc.line = (s.take pos).count '\n' ∧
      d.loc.col = pos - lineStart (s.take pos) ∧
      d.snippet =
        String.ofList (((s.drop pos).take 30).filter fun x => x != '\n' && x != '\r') ∧
      cause ∈ Cause.reported g ∧ d.message = cause.message ∧
      (∀ other, other ∉ Cause.reported g → d.message ≠ other.message) ∧
      cause.Fits g (s.take pos) (s.drop pos) := by
  rcases parse_eq_error_iff.mp h with ⟨f, hf, rfl⟩
  rcases Fails.fits hf with ⟨hcause, before, after, rfl, hloc, hfits⟩
  have hpos : before.length ≤ (before ++ after).length := by
    rw [List.length_append]
    exact Nat.le_add_right _ _
  have hsource : ((tokenize (before ++ after)).map Fragment.text).flatten = before ++ after := by
    rw [← List.flatMap_def, tokenize_text]
  have hsnippet := snippet_eq hpos
  refine ⟨before.length, f.cause, hpos, ?_, ?_, ?_, ?_, hcause, rfl, ?_, ?_⟩
  · exact congrArg Location.pos hloc
  · rw [List.take_left]
    exact congrArg Location.line hloc
  · rw [List.take_left]
    exact congrArg Location.col hloc
  · rw [← hsnippet, hsource, Failure.diagnostic, Diagnostic.ofSource, hloc]
    rfl
  · intro other hother hsame
    rw [← Cause.message_injective hsame] at hother
    exact hother hcause
  · rw [List.take_left, List.drop_left]
    exact hfits

/-- A tag on the second line that is not closed: the diagnostic tells where
    the tag began, though its entries were read to the end. -/
theorem parseSource_diagnoses_tag :
    ∃ (pos : Nat) (cause : Cause),
      parseSource .brace ['a', '\n', ' ', '<', 'p', ' ', 'q', '\n'] =
        .error ⟨cause.message, ⟨1, 1, pos⟩, "<p q"⟩ ∧
      pos ≤ 8 ∧ cause ∈ Cause.reported .brace ∧
      cause.Fits .brace (['a', '\n', ' ', '<', 'p', ' ', 'q', '\n'].take pos)
        (['a', '\n', ' ', '<', 'p', ' ', 'q', '\n'].drop pos) := by
  have h : parseSource .brace ['a', '\n', ' ', '<', 'p', ' ', 'q', '\n'] =
      .error ⟨Cause.unterminatedTag.message, ⟨1, 1, 3⟩, "<p q"⟩ := by decide +kernel
  rcases parseSource_diagnoses _ _ _ h with
    ⟨pos, cause, hle, hpos, _, _, _, hcause, hmessage, _, hfits⟩
  refine ⟨pos, cause, ?_, hle, hcause, hfits⟩
  rw [h, ← hmessage, ← hpos]

/-- A source that is malformed in the way that a cause tells. -/
def Cause.sample : Cause → List Char
  | badName => ['<', '>']
  | unterminatedTag => ['<', 'p']
  | missingEndTag => ['<', 'p', '>']
  | mismatchedTags => ['<', 'p', '>', '<', '/', 'q', '>']
  | malformedEndTag => ['<', 'p', '>', '<', '/', 'p']
  | unrecognizedEntry => ['<', 'p', ' ', '=', '>']
  | unexpectedValue => ['<', 'p', ' ', 'q', '=', 'r', '>']
  | unterminatedComment => ['<', 'p', '>', '<', '!', '-', '-']
  | notCode => ['<', 'p', ' ', '@', '>']
  | unterminatedGroup => ['<', 'p', ' ', 'q', '=', '{']
  | unterminatedString => ['"']
  | unterminatedBlock => ['/', '*']
  | _ => []

/-- Every cause that is reported can occur. -/
theorem Cause.reported_attained (g : Grammar) :
    ∀ cause ∈ Cause.reported g, ∃ loc snippet,
      parseSource g cause.sample = .error ⟨cause.message, loc, snippet⟩ := by
  have hsample : ∀ cause ∈ Cause.reported g,
      ((parseSource g cause.sample).map fun _ => ()).mapError Diagnostic.message =
        .error cause.message := by
    cases g <;> decide +kernel
  intro cause hcause
  have hone := hsample cause hcause
  cases hparse : parseSource g cause.sample with
  | ok r =>
      rw [hparse] at hone
      cases hone
  | error d =>
      rw [hparse] at hone
      rw [← Except.error.inj hone]
      exact ⟨d.loc, d.snippet, rfl⟩

end Inlay
