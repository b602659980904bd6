import Inlay.Proofs.Rereading

/-!
# Reading Markup Again

The steps that read markup, and what is kept of them so that the canonical
text of the markup is read again as the same.

The canonical text is cut into fragments from scratch, so every place where
two parts of it meet has to be looked at. Inside a tag the parts are set apart
by spaces, which the source need not have had there: a name and a value end
in front of a space as they ended in the source, whatever they end with. The
code of a value never ends in front of a slash that was cut off a star, since
the tag could not have gone on there. In content the text behind open code is
the same as in the source, and so the slash is cut off again.

## Main definitions

* `spaced`: The entries of a tag as the canonical text has them.
* `EntryReread`, `EntriesReread`, `ChildReread`, `ContentReread`,
  `ElementReread`: What is kept for the parts of markup.

## Theorems

* `reread_bare`, `reread_quoted`, `reread_computed`, `reread_mixin`,
  `reread_entries`: The entries of a tag.
* `reread_insertion`, `reread_comment`, `reread_text`, `reread_children`:
  Content.
* `reread_emptyElement`, `reread_fullElement`: Elements.
-/

namespace Inlay

/-! ### What is kept -/

/-- What an entry of a tag can begin with. -/
def EntryHead (x : Char) : Prop :=
  Pattern.isNameStart x = true ∨ x = '@' ∨ x = '{'

/-- What can stand behind a space in a tag: an entry, or the end of the tag. -/
def Follows (k : List Char) : Prop :=
  ∃ x u, k = x :: u ∧ (EntryHead x ∨ x = '>' ∨ x = '/')

/-- A text that begins with the end of a tag. -/
def TagClose (k : List Char) : Prop :=
  (∃ u, k = '>' :: u) ∨ ∃ u, k = '/' :: '>' :: u

/-- The canonical text of the entries of a tag, each in front of a space, and
    the text behind them. -/
def spaced (g : Grammar) : List Attribute → List Char → List Char
  | [], k => k
  | a :: as, k => a.canonical g ++ ' ' :: spaced g as k

/-- An entry that reads again in front of a space and something that can stand
    behind it. -/
structure EntryReread (g : Grammar) (c c' : Cursor) (a : Attribute) : Prop where
  cut : ∃ b, c'.unread = cut b c'.rest
  head : ∃ x u, a.canonical g = x :: u ∧ EntryHead x
  again : ∀ k, Follows k → ∀ d : Cursor, d.unread = tokenize (a.canonical g ++ ' ' :: k) →
    ∃ a' d', Derives g d (.entry a') d' ∧ a'.unplaced = a.unplaced ∧
      d'.skipBlank.unread = tokenize k

/-- Entries that read again in front of the end of a tag. -/
structure EntriesReread (g : Grammar) (c' : Cursor) (as : List Attribute) : Prop where
  lexed : c'.Lexed
  follows : ∀ k, TagClose k → Follows (spaced g as k)
  again : ∀ k, TagClose k → ∀ d : Cursor, d.unread = tokenize (spaced g as k) →
    ∃ as' d', Derives g d (.entries as') d' ∧ unplacedAttributes as' = unplacedAttributes as ∧
      d'.unread = tokenize k

/-- An entry of content that reads again in front of text that goes on alike. -/
structure ChildReread (g : Grammar) (b : Bool) (c c' : Cursor) (x : Child) : Prop where
  alike : ∀ k, Alike c'.rest k → Alike c.rest (x.canonical g ++ k)
  again : ∃ b', c'.unread = cut b' c'.rest ∧ ∀ k, Alike c'.rest k → ∀ d : Cursor,
    d.unread = cut b (x.canonical g ++ k) →
      ∃ x' d', Derives g d (.child x') d' ∧ x'.unplaced = x.unplaced ∧ d'.unread = cut b' k

/-- Content that reads again in front of text that goes on alike. -/
structure ContentReread (g : Grammar) (b : Bool) (c c' : Cursor) (xs : List Child) : Prop where
  lexed : c'.Lexed
  alike : ∀ k, Alike c'.rest k → Alike c.rest (canonicalContent g xs ++ k)
  again : ∀ k, Alike c'.rest k → ∀ d : Cursor, d.unread = cut b (canonicalContent g xs ++ k) →
    ∃ xs' d', Derives g d (.children xs') d' ∧ unplacedContent xs' = unplacedContent xs ∧
      d'.unread = tokenize k

/-- An element that reads again in front of anything. -/
structure ElementReread (g : Grammar) (c c' : Cursor) (e : Element) : Prop where
  lexed : c'.Lexed
  alike : ∀ k, Alike c.rest (e.canonical g ++ k)
  again : ∀ (k : List Char) (d : Cursor), d.unread = tokenize (e.canonical g ++ k) →
    ∃ e' d', Derives g d (.element e') d' ∧ e'.unplaced = e.unplaced ∧ d'.unread = tokenize k

/-! ### Blank space and names -/

variable {g : Grammar} {c c₁ c' d : Cursor}

theorem dropWhile_of_head {k : List Char} (h : ∀ x, k.head? = some x → Text.isBlank x = false) :
    k.dropWhile Text.isBlank = k := by
  cases k with
  | nil => rfl
  | cons x k => exact List.dropWhile_cons_of_neg (Bool.eq_false_iff.mp (h x rfl))

theorem EntryHead.ne {x : Char} (h : EntryHead x) :
    Text.isBlank x = false ∧ x ≠ '=' ∧ x ≠ '>' ∧ x ≠ '/' := by
  have hname : ∀ y ∈ ['=', '>', '/'], Pattern.isNameStart y = false :=
    List.all_iff_forall_prop.mp (by decide)
  rcases h with h | rfl | rfl
  · refine ⟨Pattern.isBlank_of_isNameStart h, ?_, ?_, ?_⟩
    all_goals
      rintro rfl
      rw [hname _ (by decide)] at h
      cases h
  · decide
  · decide

theorem Follows.head {k : List Char} (h : Follows k) :
    ∀ x, k.head? = some x → Text.isBlank x = false ∧ x ≠ '=' := by
  rcases h with ⟨y, u, rfl, hy⟩
  intro x hx
  cases hx
  rcases hy with hy | rfl | rfl
  · exact ⟨hy.ne.1, hy.ne.2.1⟩
  · decide
  · decide

theorem TagClose.follows {k : List Char} (h : TagClose k) : Follows k := by
  rcases h with ⟨u, rfl⟩ | ⟨u, rfl⟩
  · exact ⟨'>', u, rfl, Or.inr (Or.inl rfl)⟩
  · exact ⟨'/', _, rfl, Or.inr (Or.inr rfl)⟩

/-- A space in front of what can stand behind it is passed alone. -/
theorem Follows.skipBlank {k : List Char} (hk : Follows k) (h : d.unread = tokenize (' ' :: k)) :
    d.skipBlank.unread = tokenize k := by
  rw [Cursor.unread_skipBlank h, List.dropWhile_cons_of_pos (by decide),
    dropWhile_of_head fun x hx => (hk.head x hx).1]

/-- Passing blank space where there is none. -/
theorem Follows.skipBlank_self {k : List Char} (hk : Follows k) (h : d.unread = tokenize k) :
    d.skipBlank.unread = tokenize k := by
  rw [Cursor.unread_skipBlank h, dropWhile_of_head fun x hx => (hk.head x hx).1]

/-- A marker is met as it stands, and passed. -/
theorem at_marker {m k : List Char} (hm : m ∈ Marker.all) (hd : d.unread = tokenize (m ++ k)) :
    d.isAt [m] = true ∧ d.advance.unread = tokenize k := by
  rcases tokenize_marker hm k with ⟨f, hf, htok⟩
  rcases Cursor.of_unread_cons (hd.trans htok) with ⟨heof, hcur, hadv⟩
  refine ⟨Cursor.isAt_iff.mpr ⟨heof, ?_⟩, hadv⟩
  rw [hcur, hf]
  exact List.mem_singleton_self m

/-- A structural character that begins no marker is met alone, and passed. -/
theorem at_structural {x : Char} {k : List Char} (hx : isStructural x = true)
    (hlead : Marker.leading? (x :: k) = none) (hd : d.unread = tokenize (x :: k)) :
    d.isAt [[x]] = true ∧ d.advance.unread = tokenize k := by
  rw [tokenize_structural hx hlead] at hd
  rcases Cursor.of_unread_cons hd with ⟨heof, hcur, hadv⟩
  refine ⟨Cursor.isAt_iff.mpr ⟨heof, ?_⟩, hadv⟩
  rw [hcur]
  exact List.mem_singleton_self _

/-- A character that no name goes on with. -/
theorem endsName_cons {x : Char} (hx : x ∈ [' ', '=']) (k : List Char) :
    Pattern.EndsName (x :: k) ∧ (x :: k).head? ≠ some '>' := by
  have hchars : ∀ x ∈ [' ', '='], Pattern.isNameChar x = false ∧ x ≠ '.' ∧ x ≠ '>' :=
    List.all_iff_forall_prop.mp (by decide)
  rcases hchars x hx with ⟨hname, hdot, hclose⟩
  refine ⟨fun y hy => ?_, fun hy => hclose (Option.some.inj hy)⟩
  cases hy
  exact ⟨hname, hdot⟩

/-- A name in front of a space is read as the name, and the space is passed. -/
theorem name_space {name k : List Char} (hname : Pattern.IsName name) (hk : Follows k)
    (hd : d.unread = tokenize (name ++ ' ' :: k)) :
    d.name = name ∧ d.pastName.unread = tokenize k := by
  rcases endsName_cons (x := ' ') (by decide) k with ⟨hends, hclose⟩
  rcases Cursor.unread_name hd hname hends hclose with ⟨hsame, hleft⟩
  exact ⟨hsame, hk.skipBlank hleft⟩

/-- A name in front of an equals sign is read as the name, and what is behind
    the sign stands there. -/
theorem name_sign {name k : List Char} (hname : Pattern.IsName name)
    (hk : ∀ x, k.head? = some x → Text.isBlank x = false)
    (hd : d.unread = tokenize (name ++ '=' :: k)) :
    d.name = name ∧ d.pastName.isAt [['=']] = true ∧ d.pastName.pastSign.unread = tokenize k := by
  rcases endsName_cons (x := '=') (by decide) k with ⟨hends, hclose⟩
  rcases Cursor.unread_name hd hname hends hclose with ⟨hsame, hleft⟩
  have hpast : d.pastName.unread = tokenize ('=' :: k) := by
    rw [Cursor.pastName, Cursor.unread_skipBlank hleft, List.dropWhile_cons_of_neg (by decide)]
  rcases at_structural (by decide) (Marker.leading?_eq_none (by decide) k) hpast with ⟨hat, hadv⟩
  refine ⟨hsame, hat, ?_⟩
  rw [Cursor.pastSign, Cursor.unread_skipBlank hadv, dropWhile_of_head hk]

theorem matched?_of_name {name : List Char} (hname : Pattern.IsName name) (h : d.name = name) :
    (d.matched? Pattern.identifier).isSome = true := by
  refine Cursor.name_ne_nil_iff.mp ?_
  rcases hname.head with ⟨x, xs, rfl, _⟩
  rw [h]
  exact List.cons_ne_nil _ _

/-- Whether a string begins at the fragments of a text is a matter of the
    first character. -/
theorem Cursor.Lexed.isAt_quotes_iff (h : c.Lexed) :
    c.isAt quotes = true ↔ ∃ x ∈ ['"', '\''], c.rest.head? = some x := by
  constructor
  · intro hat
    rcases Cursor.isAt_quotes hat with hq | hq
    · exact ⟨'"', by decide, by rw [Cursor.rest_of_isAt hq]; rfl⟩
    · exact ⟨'\'', by decide, by rw [Cursor.rest_of_isAt hq]; rfl⟩
  · rintro ⟨x, hx, hhead⟩
    have hchars : ∀ x ∈ ['"', '\''], [x] ∈ quotes ∧ isStructural x = true ∧
        ∀ m ∈ Marker.all, m.head? ≠ some x :=
      List.all_iff_forall_prop.mp (by decide)
    rcases hchars x hx with ⟨hquote, hstruct, hmark⟩
    rcases List.head?_eq_some_iff.mp hhead with ⟨k, hk⟩
    have hunread := h
    rw [Cursor.Lexed, hk] at hunread
    have hat := (at_structural hstruct (Marker.leading?_eq_none hmark k) hunread).1
    rw [Cursor.isAt_eq_contains hat]
    exact List.contains_iff_mem.mpr hquote

/-! ### Code behind a mark -/

/-- Code behind the mark of a mixin or an insertion reads again with the mark. -/
theorem CodeReread.behindMark {ss : Code} {mark : List Char} (hat : c.isAt [mark] = true)
    (hmark : g = .sigil → mark = ['@']) (hc : c.Lexed)
    (h : CodeReread g (g.behindMark c) c' ss) :
    (∀ k, Alike c.rest (mark ++ canonicalCode g ss ++ g.codeClose ++ k)) ∧
      ∀ k, (g = .sigil → OpenEnd k) → ∀ d : Cursor,
        d.unread = tokenize (mark ++ canonicalCode g ss ++ g.codeClose ++ k) →
        d.isAt [mark] = true ∧ ∃ ss' d', Derives g (g.behindMark d) (.code ss') d' ∧
          unplacedCode ss' = unplacedCode ss ∧
          d'.unread = Inlay.cut (g.endsStarred (canonicalCode g ss)) k := by
  have hrest := Cursor.rest_of_isAt hat
  cases g with
  | sigil =>
      -- The mark is a fragment of its own, and the code begins behind it.
      rw [hmark rfl] at hat hrest ⊢
      have hone : ∀ k, tokenize ('@' :: k) = ⟨'@', []⟩ :: tokenize k := fun k =>
        tokenize_structural (by decide) (Marker.leading?_eq_none (by decide) k)
      have hhard : ∀ k, Hard ('@' :: k) := by
        intro k x hx
        cases hx
        decide
      have htext : ∀ k, ['@'] ++ canonicalCode .sigil ss ++ Grammar.sigil.codeClose ++ k =
          '@' :: (codeText .sigil (Grammar.sigil.behindMark c) ss ++ k) := fun k => rfl
      refine ⟨fun k => ?_, fun k hk d hd => ?_⟩
      · rw [hrest, htext]
        refine Alike.of_hard (hhard _) (hhard _) ?_
        rw [hone, List.singleton_append, hone]
        rfl
      · rw [htext] at hd
        rcases at_structural (by decide) (Marker.leading?_eq_none (by decide) _) hd with ⟨hat', hadv⟩
        exact ⟨hat', h.again k hk d.advance hadv⟩
  | brace =>
      -- The mark is the brace that the code begins with, so the code has it.
      have hcur : c.current = mark := List.mem_singleton.mp (Cursor.isAt_iff.mp hat).2
      have htext : ∀ k, mark ++ canonicalCode .brace ss ++ Grammar.brace.codeClose ++ k =
          codeText .brace (Grammar.brace.behindMark c) ss ++ k := by
        intro k
        rw [← hcur]
        rfl
      refine ⟨fun k => ?_, fun k hk d hd => ?_⟩
      · rw [htext]
        exact h.alike rfl k
      · rw [htext] at hd
        have hhead : d.unread.head? = c.unread.head? := by
          rw [hd, hc]
          exact (h.alike rfl k).head
        refine ⟨(Cursor.isAt_congr hhead _).trans hat, ?_⟩
        exact h.again k hk d hd

/-! ### Entries of a tag -/

theorem openEnd_space (k : List Char) : OpenEnd (' ' :: k) := by
  intro x hx
  cases hx
  decide

theorem cut_cons {x : Char} (hx : x ≠ '/') (b : Bool) (k : List Char) :
    cut b (x :: k) = tokenize (x :: k) :=
  cut_of_head b fun hhead => hx (Option.some.inj hhead)

theorem entryHead_name {name : List Char} (hname : Pattern.IsName name) (k : List Char) :
    ∃ x u, name ++ k = x :: u ∧ EntryHead x := by
  rcases hname.head with ⟨x, xs, rfl, hx⟩
  exact ⟨x, xs ++ k, rfl, Or.inl hx⟩

theorem reread_bare (hid : (c.matched? Pattern.identifier).isSome = true) (hc : c.Lexed) :
    EntryReread g c c.pastName (.fixed c.name ['t', 'r', 'u', 'e']) := by
  have hname := Cursor.isName_name (Cursor.name_ne_nil_iff.mpr hid)
  have htext : (Attribute.fixed c.name ['t', 'r', 'u', 'e']).canonical g = c.name := by
    rw [Attribute.canonical, if_pos rfl]
  refine ⟨⟨false, hc.name.skipBlank.trans (cut_false _).symm⟩, ?_, fun k hk d hd => ?_⟩
  · rw [htext, ← List.append_nil c.name]
    exact entryHead_name hname []
  · rw [htext] at hd
    rcases name_space hname hk hd with ⟨hsame, hpast⟩
    -- What follows the space is an entry or the end of the tag, no sign.
    have hsign : d.pastName.isAt [['=']] = false := by
      cases hat : d.pastName.isAt [['=']] with
      | false => rfl
      | true =>
          have hhead := congrArg List.head? (Cursor.rest_of_isAt hat)
          rw [Cursor.rest_of_unread hpast] at hhead
          exact absurd rfl (hk.head '=' hhead).2
    refine ⟨_, d.pastName, Derives.bare (matched?_of_name hname hsame) hsign, by rw [hsame], ?_⟩
    exact hk.skipBlank_self hpast

theorem reread_quoted {v : List Char} (hid : (c.matched? Pattern.identifier).isSome = true)
    (hv : Rule.quotedString c.pastName.pastSign = .ok v c') (hc : c.Lexed) :
    EntryReread g c c' (.fixed c.name v) := by
  have hname := Cursor.isName_name (Cursor.name_ne_nil_iff.mpr hid)
  have hsign : c.pastName.pastSign.Lexed := hc.name.skipBlank.advance.skipBlank
  rcases Rule.quotedString_again hv hsign with ⟨hc', _, hagain⟩
  rcases Rule.head_quotedString hv with ⟨u, hu⟩
  have htext : (Attribute.fixed c.name v).canonical g = c.name ++ '=' :: v := by
    -- A value that was read from a string has its quotes, so it is not
    -- taken for the value of a bare name.
    have hne : v ≠ ['t', 'r', 'u', 'e'] := by
      rcases hu with rfl | rfl <;> exact fun h => absurd (List.cons.inj h).1 (by decide)
    rw [Attribute.canonical, if_neg hne, List.append_assoc, List.singleton_append]
  refine ⟨⟨false, hc'.trans (cut_false _).symm⟩, by rw [htext]; exact entryHead_name hname _,
    fun k hk d hd => ?_⟩
  rw [htext, List.append_assoc, List.cons_append] at hd
  have hblank : ∀ x, (v ++ ' ' :: k).head? = some x → Text.isBlank x = false := by
    intro x hx
    rcases hu with rfl | rfl <;> cases hx <;> decide
  rcases name_sign hname hblank hd with ⟨hsame, hat, hpast⟩
  rcases hagain _ _ hpast with ⟨d', hv', hd'⟩
  refine ⟨_, d', Derives.quoted (matched?_of_name hname hsame) hat hv', by rw [hsame], ?_⟩
  exact hk.skipBlank hd'

theorem reread_computed {ss : Code} (hid : (c.matched? Pattern.identifier).isSome = true)
    (hquote : c.pastName.pastSign.isAt quotes = false)
    (hbrace : g = .brace → c.pastName.pastSign.isAt [['{']] = true) (hc : c.Lexed)
    (hss : CodeReread g c.pastName.pastSign c' ss) :
    EntryReread g c c' (.computed c.name ss c.loc) := by
  have hname := Cursor.isName_name (Cursor.name_ne_nil_iff.mpr hid)
  have hsign : c.pastName.pastSign.Lexed := hc.name.skipBlank.advance.skipBlank
  have hmark : g.codeMark c.pastName.pastSign = g.valueMark := by
    cases g with
    | sigil => rfl
    | brace => exact List.mem_singleton.mp (Cursor.isAt_iff.mp (hbrace rfl)).2
  have htext : (Attribute.computed c.name ss c.loc).canonical g =
      c.name ++ '=' :: codeText g c.pastName.pastSign ss := by
    rw [Attribute.canonical, codeText, hmark]
    simp only [List.append_assoc, List.cons_append, List.nil_append]
  refine ⟨⟨_, hss.cut⟩, by rw [htext]; exact entryHead_name hname _, fun k hk d hd => ?_⟩
  rw [htext, List.append_assoc, List.cons_append] at hd
  rcases hss.head with ⟨x, u, hxu, hhead, hx⟩
  have hblank : ∀ y, (codeText g c.pastName.pastSign ss ++ ' ' :: k).head? = some y →
      Text.isBlank y = false := by
    intro y hy
    rw [hxu] at hy
    cases hy
    exact hx
  rcases name_sign hname hblank hd with ⟨hsame, hat, hpast⟩
  rcases hss.again _ (fun _ => openEnd_space k) _ hpast with ⟨ss', d', hss', heq, hd'⟩
  -- The value begins with the same character as in the source.
  have hquote' : d.pastName.pastSign.isAt quotes = false := by
    rw [Bool.eq_false_iff] at hquote ⊢
    intro hq
    refine hquote (hsign.isAt_quotes_iff.mpr ?_)
    rcases (Cursor.lexed_of_unread hpast).isAt_quotes_iff.mp hq with ⟨y, hy, hhead'⟩
    rw [Cursor.rest_of_unread hpast, hxu] at hhead'
    exact ⟨y, hy, hhead.trans hhead'⟩
  have hbrace' : g = .brace → d.pastName.pastSign.isAt [['{']] = true := by
    intro hg
    have hsame' : d.pastName.pastSign.unread.head? = c.pastName.pastSign.unread.head? := by
      rw [hpast, hsign]
      exact (hss.alike hg _).head
    exact (Cursor.isAt_congr hsame' _).trans (hbrace hg)
  refine ⟨_, d', Derives.computed (matched?_of_name hname hsame) hat hquote' hbrace' hss', ?_, ?_⟩
  · rw [Attribute.unplaced, Attribute.unplaced, heq, hsame]
  · rw [cut_cons (by decide)] at hd'
    exact hk.skipBlank hd'

theorem reread_mixin {ss : Code} (hat : c.isAt [g.mixinMark] = true) (hc : c.Lexed)
    (hss : CodeReread g (g.behindMark c) c' ss) : EntryReread g c c' (.mixin ss c.loc) := by
  rcases hss.behindMark hat (fun hg => by rw [hg]; rfl) hc with ⟨_, hagain⟩
  have htext : (Attribute.mixin ss c.loc).canonical g =
      g.mixinMark ++ canonicalCode g ss ++ g.codeClose := by
    rw [Attribute.canonical]
  refine ⟨⟨_, hss.cut⟩, ?_, fun k hk d hd => ?_⟩
  · rw [htext]
    cases g with
    | sigil => exact ⟨'@', _, rfl, Or.inr (Or.inl rfl)⟩
    | brace => exact ⟨'{', _, rfl, Or.inr (Or.inr rfl)⟩
  · rw [htext] at hd
    rcases hagain _ (fun _ => openEnd_space k) d hd with ⟨hat', ss', d', hss', heq, hd'⟩
    -- A name would be tried first, and no mark is one.
    have hid : (d.matched? Pattern.identifier).isSome = false := by
      rw [Cursor.matched?, List.mem_singleton.mp (Cursor.isAt_iff.mp hat').2]
      cases g <;> rfl
    refine ⟨_, d', Derives.mixin hid hat' hss', ?_, ?_⟩
    · rw [Attribute.unplaced, Attribute.unplaced, heq]
    · rw [cut_cons (by decide)] at hd'
      exact hk.skipBlank hd'

/-- A tag does not go on with a slash that was cut off a star. -/
theorem not_entries_of_slash {us : List Fragment} {as : List Attribute}
    (h : c.unread = ⟨'/', []⟩ :: us) : ¬ Derives g c (.entries as) c' := by
  rcases Cursor.of_unread_cons h with ⟨heof, hcur, _⟩
  have hid : (c.matched? Pattern.identifier).isSome = false := by
    rw [Cursor.matched?, hcur]
    rfl
  intro hentries
  cases hentries with
  | noEntries hend =>
      rw [Cursor.tagEnds, Cursor.isAt, heof, hcur] at hend
      cases hend
  | entries _ hentry _ =>
      cases hentry with
      | bare hid' _ => rw [hid] at hid'; cases hid'
      | quoted hid' _ _ => rw [hid] at hid'; cases hid'
      | computed hid' _ _ _ _ => rw [hid] at hid'; cases hid'
      | mixin _ hat _ =>
          rw [Cursor.isAt, heof, hcur] at hat
          cases g <;> cases hat

/-- The tag goes on at the fragments of what is left. -/
theorem lexed_of_entries {b : Bool} {as : List Attribute} (hc : c.unread = cut b c.rest)
    (h : Derives g c.skipBlank (.entries as) c') : c.skipBlank.Lexed := by
  by_cases hslash : b = true ∧ c.rest.head? = some '/'
  · have hunread : c.unread = ⟨'/', []⟩ :: tokenize c.rest.tail := hc.trans (if_pos hslash)
    have hskip : c.skipBlank.unread = ⟨'/', []⟩ :: tokenize c.rest.tail := by
      rw [Cursor.skipBlank, hunread, Cursor.skipBlankFrom_of_head (by decide)]
    exact absurd h (not_entries_of_slash hskip)
  · exact Cursor.Lexed.skipBlank (hc.trans (if_neg hslash))

/-- The end of a tag is met as it stands. -/
theorem TagClose.tagEnds {k : List Char} (hk : TagClose k) (hd : d.unread = tokenize k) :
    d.tagEnds = true := by
  rcases hk with ⟨u, rfl⟩ | ⟨u, rfl⟩
  · have hat := (at_structural (by decide) (Marker.leading?_eq_none (by decide) u) hd).1
    rw [Cursor.tagEnds, Cursor.isAt_eq_contains hat, Cursor.eof_of_isAt hat]
    rfl
  · have hat := (at_marker (m := Marker.emptyClose) (by decide) hd).1
    rw [Cursor.tagEnds, Cursor.isAt_eq_contains hat, Cursor.eof_of_isAt hat]
    rfl

theorem reread_noEntries (hc : c.Lexed) : EntriesReread g c [] :=
  ⟨hc, fun _ hk => hk.follows, fun _ hk d hd => ⟨[], d, Derives.noEntries (hk.tagEnds hd), rfl, hd⟩⟩

/-- No entry begins like the end of a tag. -/
theorem EntryHead.tagEnds {x : Char} (hx : EntryHead x) {f : Fragment} {fs : List Fragment}
    (hd : d.unread = f :: fs) (hf : f.head = x) : d.tagEnds = false := by
  rcases Cursor.of_unread_cons hd with ⟨heof, hcur, _⟩
  cases hend : d.tagEnds with
  | false => rfl
  | true =>
      rw [Cursor.tagEnds, heof, Bool.false_or] at hend
      have hmem := (Cursor.isAt_iff.mp hend).2
      rw [hcur] at hmem
      simp only [List.mem_cons, List.not_mem_nil, or_false] at hmem
      rcases hmem with htext | htext
      · exact absurd (hf.symm.trans (List.cons.inj htext).1) hx.ne.2.2.1
      · exact absurd (hf.symm.trans (List.cons.inj htext).1) hx.ne.2.2.2

theorem reread_entries {a : Attribute} {as : List Attribute} (ha : EntryReread g c c₁ a)
    (has : EntriesReread g c' as) : EntriesReread g c' (a :: as) := by
  rcases ha.head with ⟨x, u, hxu, hx⟩
  refine ⟨has.lexed, fun k _ => ?_, fun k hk d hd => ?_⟩
  · rw [spaced, hxu]
    exact ⟨x, _, rfl, Or.inl hx⟩
  · rw [spaced] at hd
    rcases ha.again _ (has.follows k hk) d hd with ⟨a', d₁, ha', heq, hd₁⟩
    rcases has.again k hk _ hd₁ with ⟨as', d', has', heq', hd'⟩
    have hend : d.tagEnds = false := by
      rw [hxu, List.cons_append, tokenize_cons] at hd
      exact hx.tagEnds hd rfl
    refine ⟨a' :: as', d', Derives.entries hend ha' has', ?_, hd'⟩
    rw [unplacedAttributes, unplacedAttributes, heq, heq']

/-! ### Content -/

theorem contentEnds_congr (h : d.unread.head? = c.unread.head?) : d.contentEnds = c.contentEnds := by
  rw [Cursor.contentEnds, Cursor.contentEnds, Cursor.eof_congr h, Cursor.isAt_congr h]

/-- A mark that does not begin with a slash is read from the fragments of the
    text. -/
theorem lexed_of_isAt {b : Bool} {x : Char} {u : List Char} (hx : x ≠ '/')
    (hat : c.isAt [x :: u] = true) (hc : c.unread = cut b c.rest) : c.Lexed := by
  rw [Cursor.rest_of_isAt hat] at hc
  exact Cursor.lexed_of_unread (hc.trans (cut_cons hx b _))

theorem head_element (g : Grammar) (e : Element) (k : List Char) :
    ∃ u, e.canonical g ++ k = '<' :: u := by
  cases e with
  | mk tag as xs loc =>
      rw [Element.canonical, List.append_assoc, List.append_assoc, List.append_assoc]
      exact ⟨_, rfl⟩

theorem reread_childElement {b : Bool} {e : Element} (he : ElementReread g c c' e) :
    ChildReread g b c c' (.element e) := by
  have htext : (Child.element e).canonical g = e.canonical g := by rw [Child.canonical]
  refine ⟨fun k _ => by rw [htext]; exact he.alike k, false, he.lexed.trans (cut_false _).symm, ?_⟩
  intro k _ d hd
  rcases head_element g e k with ⟨u, hu⟩
  rw [htext, hu, cut_cons (by decide), ← hu] at hd
  rcases he.again k d hd with ⟨e', d', he', heq, hd'⟩
  refine ⟨_, d', Derives.childElement he', ?_, hd'.trans (cut_false k).symm⟩
  rw [Child.unplaced, Child.unplaced, heq]

theorem reread_insertion {b : Bool} {ss : Code} (hat : c.isAt [g.insertionMark] = true)
    (hc : c.Lexed) (hss : CodeReread g (g.behindMark c) c' ss) :
    ChildReread g b c c' (.insertion ss c.loc) := by
  rcases hss.behindMark hat (fun hg => by rw [hg]; rfl) hc with ⟨halike, hagain⟩
  have htext : (Child.insertion ss c.loc).canonical g =
      g.insertionMark ++ canonicalCode g ss ++ g.codeClose := by
    rw [Child.canonical]
  refine ⟨fun k _ => by rw [htext]; exact halike k, _, hss.cut, fun k hk d hd => ?_⟩
  have hcut : cut b (g.insertionMark ++ canonicalCode g ss ++ g.codeClose ++ k) =
      tokenize (g.insertionMark ++ canonicalCode g ss ++ g.codeClose ++ k) := by
    cases g with
    | sigil => exact cut_cons (by decide) b _
    | brace => exact cut_cons (by decide) b _
  rw [htext, hcut] at hd
  -- What follows begins with the same character as in the source.
  have hend : g = .sigil → OpenEnd k := by
    intro hg x hx
    rw [hk.head_char] at hx
    exact hss.ends hg x hx
  rcases hagain k hend d hd with ⟨hat', ss', d', hss', heq, hd'⟩
  refine ⟨_, d', Derives.insertion hat' hss', ?_, hd'⟩
  rw [Child.unplaced, Child.unplaced, heq]

theorem reread_comment {b : Bool} {x : Child} (h : Rule.comment c = .ok x c') (hc : c.Lexed) :
    ChildReread g b c c' x := by
  rcases Rule.comment_frame h with ⟨fs, hpass, hframe⟩
  rcases hc.passes hpass with ⟨hc', htok⟩
  rcases Rule.rest_comment h with ⟨body, rfl, hrest⟩
  have htext : (Child.comment body).canonical g = Marker.commentOpen ++ body ++ Marker.commentClose := by
    rw [Child.canonical]
    rfl
  have hflat : Marker.commentOpen ++ body ++ Marker.commentClose = fs.flatMap Fragment.text := by
    rw [hpass.rest] at hrest
    exact List.append_cancel_right hrest.symm
  rw [← hflat] at htok
  refine ⟨fun k hk => ?_, false, hc'.trans (cut_false _).symm, fun k _ d hd => ?_⟩
  · rw [htext, hrest]
    exact hk.append _
  · -- A comment ends with a closing character, so nothing behind it changes
    -- how it is cut.
    have hlast : Marker.commentOpen ++ body ++ Marker.commentClose =
        Marker.commentOpen ++ body ++ ['-', '-'] ++ ['>'] := by
      rw [List.append_assoc _ ['-', '-'] ['>']]
      rfl
    have hcut : cut b (Marker.commentOpen ++ body ++ Marker.commentClose ++ k) =
        tokenize (Marker.commentOpen ++ body ++ Marker.commentClose ++ k) := cut_cons (by decide) b _
    rw [htext, hcut, tokenize_closed (by decide) hlast htok k] at hd
    rcases hframe d (tokenize k) hd with ⟨d', h', hd'⟩
    exact ⟨_, d', Derives.comment h', rfl, hd'.trans (cut_false k).symm⟩

theorem reread_text {b : Bool} (hopen : c.isAt [['<']] = false)
    (hmark : c.isAt [g.insertionMark] = false) (hcomment : c.isAt [Marker.commentOpen] = false)
    (hend : c.contentEnds = false) (hc : c.unread = cut b c.rest) :
    ChildReread g b c (c.takeUntil g.textStops).2 (.text (c.takeUntil g.textStops).1) := by
  have htext : (Child.text (c.takeUntil g.textStops).1).canonical g = (c.takeUntil g.textStops).1 := by
    rw [Child.canonical]
  rcases Bool.or_eq_false_iff.mp hend with ⟨heof, hclose⟩
  have hstops : c.isAt g.textStops = false := by
    rw [Cursor.isAt, heof, Bool.not_false, Bool.true_and] at hopen hmark hcomment hclose ⊢
    simp only [Grammar.textStops, List.contains_cons, List.contains_nil, Bool.or_false] at *
    rw [hopen, hmark, hcomment, hclose]
    rfl
  rcases c.takeUntil_frame g.textStops with ⟨fs, hpass, hflat, hframe⟩
  -- No mark stands here, so at least one fragment is taken, and only the
  -- first can be a slash that was cut off a star.
  cases fs with
  | nil =>
      have hless := Cursor.size_takeUntil_lt heof hstops
      rw [Cursor.size, Cursor.size, hpass.rest] at hless
      exact absurd hless (Nat.lt_irrefl _)
  | cons f fs =>
      have hfirst : cut b c.rest = f :: (fs ++ (c.takeUntil g.textStops).2.unread) :=
        hc.symm.trans hpass.1
      have hc' : (c.takeUntil g.textStops).2.Lexed :=
        Cursor.tokenize_suffix (cut_tail hfirst).symm
      have hsource : cut b ((f :: fs).flatMap Fragment.text ++ (c.takeUntil g.textStops).2.rest) =
          f :: fs ++ tokenize (c.takeUntil g.textStops).2.rest := by
        rw [← hpass.rest, hfirst, ← hc']
        rfl
      refine ⟨fun k hk => ?_, false, hc'.trans (cut_false _).symm, fun k hk d hd => ?_⟩
      · rw [htext, ← Cursor.rest_takeUntil g.textStops c]
        exact hk.append _
      · rw [htext, hflat, hk.cut_append hsource] at hd
        have hhead : d.unread.head? = c.unread.head? := by
          rw [hd, hpass.1]
          rfl
        rcases hframe d (tokenize k) hd (by rw [hk.head, hc']) with ⟨hsame, hd'⟩
        have htaken := Derives.text (g := g) ((Cursor.isAt_congr hhead _).trans hopen)
          ((Cursor.isAt_congr hhead _).trans hmark) ((Cursor.isAt_congr hhead _).trans hcomment)
        refine ⟨_, _, htaken, by rw [hsame], hd'.trans (cut_false k).symm⟩

/-- Where content ends, no slash was cut off a star. -/
theorem cut_of_contentEnds {b : Bool} {k : List Char} (h : c.contentEnds = true)
    (hk : k.head? = c.rest.head?) : cut b k = tokenize k := by
  refine cut_of_head b ?_
  rw [hk]
  rcases Bool.or_eq_true_iff.mp h with heof | hat
  · rw [Cursor.rest_of_eof heof]
    decide
  · rw [Cursor.rest_of_isAt hat]
    exact fun hhead => absurd (Option.some.inj hhead) (by decide)

theorem reread_noChildren {b : Bool} (hend : c.contentEnds = true) (hc : c.unread = cut b c.rest) :
    ContentReread g b c c [] := by
  have hlexed : c.Lexed := hc.trans (cut_of_contentEnds hend rfl)
  refine ⟨hlexed, fun k hk => hk, fun k hk d hd => ?_⟩
  rw [canonicalContent, List.nil_append, cut_of_contentEnds hend hk.head_char] at hd
  have hhead : d.unread.head? = c.unread.head? := by
    rw [hd, hlexed]
    exact hk.head
  exact ⟨[], d, Derives.noChildren ((contentEnds_congr hhead).trans hend), rfl, hd⟩

theorem reread_children {b : Bool} {x : Child} {xs : List Child} (hend : c.contentEnds = false)
    (hc : c.unread = cut b c.rest) (hx : ChildReread g b c c₁ x)
    (hxs : ∀ b', c₁.unread = cut b' c₁.rest → ContentReread g b' c₁ c' xs) :
    ContentReread g b c c' (x :: xs) := by
  rcases hx.again with ⟨b', hc₁, hagain⟩
  have hxs := hxs b' hc₁
  have htext : ∀ k, canonicalContent g (x :: xs) ++ k =
      x.canonical g ++ (canonicalContent g xs ++ k) := by
    intro k
    rw [canonicalContent, List.append_assoc]
  refine ⟨hxs.lexed, fun k hk => ?_, fun k hk d hd => ?_⟩
  · rw [htext]
    exact hx.alike _ (hxs.alike k hk)
  · rw [htext] at hd
    -- The same fragment stands first, so the content does not end here either.
    have hhead : d.unread.head? = c.unread.head? := by
      rw [hd, hc]
      exact (hx.alike _ (hxs.alike k hk)).head_cut b
    rcases hagain _ (hxs.alike k hk) d hd with ⟨x', d₁, hx', heq, hd₁⟩
    rcases hxs.again k hk d₁ hd₁ with ⟨xs', d', hxs', heq', hd'⟩
    refine ⟨x' :: xs', d', Derives.children ((contentEnds_congr hhead).trans hend) hx' hxs', ?_, hd'⟩
    rw [unplacedContent, unplacedContent, heq, heq']

/-! ### Elements -/

/-- The mark of a tag stands alone in front of a name. -/
theorem tokenize_tagOpen {name : List Char} (hname : Pattern.IsName name) (k : List Char) :
    tokenize ('<' :: (name ++ k)) = ⟨'<', []⟩ :: tokenize (name ++ k) := by
  rcases hname.head with ⟨x, xs, rfl, hx⟩
  -- The markers that begin with the same character go on with one that begins
  -- no name.
  have hsecond : ∀ m ∈ Marker.all, m.head? = some '<' →
      (m.tail.head?.any fun y => !Pattern.isNameStart y) = true := by decide
  refine tokenize_structural (by decide) (List.find?_eq_none.mpr ?_)
  intro m hm hpre
  rcases List.isPrefixOf_iff_prefix.mp hpre with ⟨t, ht⟩
  cases m with
  | nil => exact absurd rfl (Marker.ne_nil_of_mem hm)
  | cons z m =>
      rcases List.cons.inj ht with ⟨rfl, htail⟩
      have hname := hsecond _ hm rfl
      cases m with
      | nil => cases hname
      | cons y m =>
          rw [List.tail_cons, List.head?_cons, Option.any_some, (List.cons.inj htail).1, hx] at hname
          cases hname

/-- The spaces of a tag stand in front of its entries or behind its parts. -/
theorem canonicalEntries_spaced (g : Grammar) (as : List Attribute) (k : List Char) :
    canonicalEntries g as ++ ' ' :: k = ' ' :: spaced g as k := by
  induction as with
  | nil => rw [canonicalEntries, spaced, List.nil_append]
  | cons a as ih =>
      rw [canonicalEntries, spaced, List.append_assoc, ih, List.append_assoc]
      rfl

/-- The canonical text of an element up to the end of its first tag. -/
def tagText (g : Grammar) (tag : List Char) (as : List Attribute) (k : List Char) : List Char :=
  '<' :: (tag ++ ' ' :: spaced g as k)

theorem canonical_empty (g : Grammar) (tag : List Char) (as : List Attribute) (loc : Location)
    (k : List Char) :
    (Element.mk tag as [] loc).canonical g ++ k = tagText g tag as ('/' :: '>' :: k) := by
  rw [Element.canonical, tagText, ← canonicalEntries_spaced]
  simp only [List.isEmpty_nil, if_true, List.append_assoc, List.cons_append, List.nil_append]

theorem canonical_full (g : Grammar) (tag : List Char) (as : List Attribute) (x : Child)
    (xs : List Child) (loc : Location) (k : List Char) :
    (Element.mk tag as (x :: xs) loc).canonical g ++ k = tagText g tag as
      ('>' :: (canonicalContent g (x :: xs) ++ (Marker.endOpen ++ (tag ++ '>' :: k)))) := by
  rw [Element.canonical, tagText, ← canonicalEntries_spaced]
  simp only [List.isEmpty_cons, Bool.false_eq_true, if_false, List.append_assoc, List.cons_append,
    List.nil_append, Marker.endOpen]

/-- A source goes on at an element like its canonical text. -/
theorem alike_tag (hat : c.isAt [['<']] = true) (hc : c.Lexed) {tag : List Char}
    (hname : Pattern.IsName tag) (as : List Attribute) (k : List Char) :
    Alike c.rest (tagText g tag as k) := by
  have hhard : ∀ u, Hard ('<' :: u) := by
    intro u x hx
    cases hx
    decide
  rcases Cursor.unread_of_eof (Cursor.eof_of_isAt hat) with ⟨f, hunread, hcur, _⟩
  rw [List.mem_singleton.mp (Cursor.isAt_iff.mp hat).2] at hcur
  refine Alike.of_hard ?_ (hhard _) ?_
  · rw [Cursor.rest_of_isAt hat]
    exact hhard _
  · rw [tagText, tokenize_tagOpen hname, ← hc, hunread, Fragment.eq_of_text hcur.symm]
    rfl

/-- The first tag of an element is read again up to its end. -/
theorem reread_tag {tag k : List Char} {as : List Attribute} (hname : Pattern.IsName tag)
    (has : EntriesReread g c₁ as) (hk : TagClose k) (hd : d.unread = tokenize (tagText g tag as k)) :
    d.isAt [['<']] = true ∧ d.advance.name = tag ∧ ∃ as' d',
      Derives g d.advance.pastName (.entries as') d' ∧
        unplacedAttributes as' = unplacedAttributes as ∧ d'.unread = tokenize k := by
  rw [tagText, tokenize_tagOpen hname] at hd
  rcases Cursor.of_unread_cons hd with ⟨heof, hcur, hadv⟩
  rcases name_space hname (has.follows k hk) hadv with ⟨hsame, hpast⟩
  refine ⟨Cursor.isAt_iff.mpr ⟨heof, ?_⟩, hsame, has.again k hk _ hpast⟩
  rw [hcur]
  exact List.mem_singleton_self _

/-- An element without content is written with a tag that closes itself,
    however it was written in the source. -/
theorem reread_emptyElement {as : List Attribute} (hat : c.isAt [['<']] = true)
    (hne : c.advance.name ≠ []) (hc : c.Lexed) (has : EntriesReread g c₁ as) (hc' : c'.Lexed) :
    ElementReread g c c' (.mk c.advance.name as [] c.loc) := by
  have hname := Cursor.isName_name hne
  refine ⟨hc', fun k => ?_, fun k d hd => ?_⟩
  · rw [canonical_empty]
    exact alike_tag hat hc hname as _
  · rw [canonical_empty] at hd
    rcases reread_tag hname has (Or.inr ⟨k, rfl⟩) hd with ⟨hat', hsame, as', d₁, has', heq, hd₁⟩
    rcases at_marker (m := Marker.emptyClose) (by decide) hd₁ with ⟨hend, hadv⟩
    have hne' : d.advance.name ≠ [] := by rw [hsame]; exact hne
    refine ⟨_, d₁.advance, Derives.emptyElement hat' hne' has' hend, ?_, hadv⟩
    rw [Element.unplaced, Element.unplaced, heq, hsame]

/-- The name of the last tag is cut in the same way wherever it stands. -/
theorem reread_endTag {tag k : List Char} (hc : c.Lexed) (hne : tag ≠ []) (htag : c.name = tag)
    (hclose : (c.split Pattern.identifier).2.isAt [['>']] = true)
    (hd : d.unread = tokenize (tag ++ '>' :: k)) :
    d.name = tag ∧ (d.split Pattern.identifier).2.isAt [['>']] = true ∧
      (d.split Pattern.identifier).2.advance.unread = tokenize k := by
  have hname : Pattern.IsName tag := by
    rw [← htag]
    exact Cursor.isName_name (by rw [htag]; exact hne)
  have hrest : c.rest = tag ++ '>' :: (c.split Pattern.identifier).2.advance.rest := by
    rw [← c.rest_split Pattern.identifier, Cursor.rest_of_isAt hclose, ← htag]
    rfl
  -- The name is not longer than the run that it begins, in the source, and
  -- the run does not reach past the mark behind it.
  have hlen : tag.length ≤ runLength (tag ++ '>' :: k) := by
    have hle := Cursor.length_name_le hc
    rw [htag, hrest, runLength_append_closing (by decide)] at hle
    rw [runLength_append_closing (by decide)]
    exact hle
  have hends : Pattern.EndsName ('>' :: k) := by
    intro x hx
    cases hx
    decide
  rcases Cursor.unread_name_of_le hd hname hends hlen with ⟨hsame, hleft⟩
  rcases at_structural (by decide) (Marker.leading?_eq_none (by decide) k) hleft with ⟨hat, hadv⟩
  exact ⟨hsame, hat, hadv⟩

theorem alike_endOpen (hat : c.isAt [Marker.endOpen] = true) (k : List Char) :
    Alike c.rest (Marker.endOpen ++ k) := by
  have hhard : ∀ u, Hard (Marker.endOpen ++ u) := by
    intro u x hx
    cases hx
    decide
  have hfirst : ∀ u, (tokenize (Marker.endOpen ++ u)).head? = some ⟨'<', ['/']⟩ := by
    intro u
    rcases tokenize_marker (m := Marker.endOpen) (by decide) u with ⟨f, hf, htok⟩
    rw [htok, Fragment.eq_of_text hf]
    rfl
  rw [Cursor.rest_of_isAt hat]
  exact Alike.of_hard (hhard _) (hhard _) ((hfirst _).trans (hfirst _).symm)

theorem reread_fullElement {c₂ : Cursor} {as : List Attribute} {x : Child} {xs : List Child}
    (hat : c.isAt [['<']] = true) (hne : c.advance.name ≠ []) (hc : c.Lexed)
    (has : EntriesReread g c₁ as) (hxs : ContentReread g false c₁.advance c₂ (x :: xs))
    (hend : c₂.isAt [Marker.endOpen] = true) (htag : c₂.advance.name = c.advance.name)
    (hclose : (c₂.advance.split Pattern.identifier).2.isAt [['>']] = true) :
    ElementReread g c (c₂.advance.split Pattern.identifier).2.advance
      (.mk c.advance.name as (x :: xs) c.loc) := by
  have hname := Cursor.isName_name hne
  refine ⟨hxs.lexed.advance.name.advance, fun k => ?_, fun k d hd => ?_⟩
  · rw [canonical_full]
    exact alike_tag hat hc hname as _
  · rw [canonical_full] at hd
    -- The first tag, the content up to the last tag, and the last tag.
    rcases reread_tag hname has (Or.inl ⟨_, rfl⟩) hd with ⟨hat', hsame, as', d₁, has', heq, hd₁⟩
    rcases at_structural (by decide) (Marker.leading?_eq_none (by decide) _) hd₁ with ⟨hend₁, hadv₁⟩
    rw [← cut_false] at hadv₁
    rcases hxs.again _ (alike_endOpen hend _) _ hadv₁ with ⟨xs', d₂, hxs', heq', hd₂⟩
    rcases at_marker (m := Marker.endOpen) (by decide) hd₂ with ⟨hend₂, hadv₂⟩
    rcases reread_endTag hxs.lexed.advance hne htag hclose hadv₂ with ⟨htag', hclose', hleft⟩
    have hne' : d.advance.name ≠ [] := by rw [hsame]; exact hne
    refine ⟨_, _, Derives.fullElement hat' hne' has' hend₁ hxs' hend₂ (htag'.trans hsame.symm)
      hclose', ?_, hleft⟩
    rw [Element.unplaced, Element.unplaced, heq, heq', hsame]

end Inlay
