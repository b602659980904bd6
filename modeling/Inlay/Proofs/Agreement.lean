import Inlay.Proofs.Rejection

/-!
# Where the Grammars Agree

The two grammars read the same host code, the same tags and the same content.
They part only at the marks that hand over from markup to code, and this
module says how far they go together.

Text that holds neither an at sign nor an opening brace holds none of those
marks, so no rule in which the grammars differ ever applies to it, with one
exception: a value that is not quoted is code in the sigil grammar, where code
has no mark of its own in a tag, and nothing at all in the brace grammar. The
proof is a simulation of the brace grammar by the sigil grammar. Whatever the
one reads, the other reads in the same way; whatever task the one enters, the
other enters too; and wherever the one fails, the other fails in the same way,
unless at a value.

The second result is about text that does hold a mark. The host code in front
of the first element of a source is taken over verbatim and is the same in
both grammars, and so is every entry of a tag without code. A mixin that has
nothing but such entries in front of it is therefore reached in the other
grammar as well, where it is not an entry of a tag.

## Main definitions

* `Cursor.Neutral`: No mark that hands over to code is unread.
* `Grammar.other`: The other grammar.
* `Segment.element?`, `Piece.element?`: The element of a part of code.
* `Attribute.isFixed`: Whether an entry of a tag has a literal value.

## Theorems

* `Derives.neutral`: What the brace grammar reads in neutral text, the sigil
  grammar reads.
* `Fails.neutral`: Where it fails, the sigil grammar fails, unless at a value.
* `parse_neutral`: The grammars agree on neutral text.
* `Derives.reaches_inlay`: Both grammars reach the first element.
* `Derives.mixin_fails`: A mixin behind literal entries fails in the other
  grammar.
* `parseSource_mixin`: A source whose first element has a mixin is read in one
  grammar only.
-/

namespace Inlay

/-! ### Neutral text -/

namespace Cursor

/-- No mark that hands over to code is unread. -/
def Neutral (c : Cursor) : Prop :=
  '@' ∉ c.rest ∧ '{' ∉ c.rest

namespace Neutral

variable {c c' : Cursor}

theorem of_suffix (h : c.Neutral) (hsuffix : c'.rest <:+ c.rest) : c'.Neutral :=
  ⟨fun hmem => h.1 (hsuffix.subset hmem), fun hmem => h.2 (hsuffix.subset hmem)⟩

theorem advance (h : c.Neutral) : c.advance.Neutral :=
  h.of_suffix c.suffix_advance

theorem pastName (h : c.Neutral) : c.pastName.Neutral :=
  h.of_suffix c.suffix_pastName

theorem pastSign (h : c.Neutral) : c.pastSign.Neutral :=
  h.of_suffix c.suffix_pastSign

/-- The cursor stands at no fragment that holds a mark. -/
theorem not_isAt (h : c.Neutral) {texts : List (List Char)}
    (ht : ∀ t ∈ texts, '@' ∈ t ∨ '{' ∈ t) : ¬c.isAt texts = true := by
  intro hat
  have hrest := c.current_append_rest_advance
  rcases ht _ (isAt_iff.mp hat).2 with hmem | hmem
  · exact h.1 (hrest ▸ List.mem_append_left _ hmem)
  · exact h.2 (hrest ▸ List.mem_append_left _ hmem)

end Neutral

/-- Only the fragments that are passed decide where a text ends. -/
theorem takeUntilFrom_congr {stops stops' : List (List Char)} {fs : List Fragment}
    (h : ∀ f ∈ fs, stops.contains f.text = stops'.contains f.text) (i : Nat) (loc : Location) :
    takeUntilFrom stops fs i loc = takeUntilFrom stops' fs i loc := by
  induction fs generalizing i loc with
  | nil => rfl
  | cons f fs ih =>
      simp only [takeUntilFrom, h f List.mem_cons_self,
        ih fun x hx => h x (List.mem_cons_of_mem _ hx)]

/-- A text ends at the same place in both grammars. -/
theorem Neutral.takeUntil {c : Cursor} (h : c.Neutral) :
    c.takeUntil Grammar.brace.textStops = c.takeUntil Grammar.sigil.textStops := by
  refine takeUntilFrom_congr (fun f hf => ?_) _ _
  have hrest : ∀ x ∈ f.text, x ∈ c.rest := fun x hx => List.mem_flatMap.mpr ⟨f, hf, hx⟩
  -- The stops are the same but for the mark, and the fragment is neither mark.
  have hat : f.text ≠ ['@'] := fun ht => h.1 (hrest _ (by simp only [ht, List.mem_singleton]))
  have hbrace : f.text ≠ ['{'] := fun ht => h.2 (hrest _ (by simp only [ht, List.mem_singleton]))
  simp [Grammar.textStops, Grammar.insertionMark, hat, hbrace]

end Cursor

/-! ### The brace grammar in neutral text -/

section

variable {c c₁ c' : Cursor} {t t' : Task} {f : Failure}

/-- Whatever the brace grammar reads in neutral text, the sigil grammar reads
    as the same. -/
theorem Derives.neutral {p : Phrase} (h : Derives .brace c p c') (hc : c.Neutral) :
    Derives .sigil c p c' := by
  -- A rule is one of both grammars, or it asks for a mark that is not there.
  induction h with
  | verbatim ht => exact .verbatim ht
  | inlay hz _ ih => exact .inlay hz (ih hc)
  | nest hz _ ih => exact .nest hz (ih hc)
  | noPieces hend => exact .noPieces hend
  | pieces hend hpass _ ih ih' => exact .pieces hend (ih hc) (ih' (hc.of_suffix hpass.suffix))
  | group hclose _ heof ih => exact .group hclose (ih hc.advance) heof
  | openCode hg => cases hg
  | bracedCode _ hat => exact absurd hat (hc.not_isAt (by decide))
  | bare hid hsign => exact .bare hid hsign
  | quoted hid hsign hv => exact .quoted hid hsign hv
  | computed _ _ _ hbrace =>
      exact absurd (hbrace rfl) (hc.pastName.pastSign.not_isAt (by decide))
  | mixin _ hat => exact absurd hat (hc.not_isAt (by decide))
  | noEntries hend => exact .noEntries hend
  | @entries c c₁ _ _ _ hend ha _ ih ih' =>
      exact .entries hend (ih hc) (ih' ((hc.of_suffix ha.suffix).of_suffix c₁.suffix_skipBlank))
  | childElement _ ih => exact .childElement (ih hc)
  | insertion hat => exact absurd hat (hc.not_isAt (by decide))
  | comment hx => exact .comment hx
  | text hopen _ hcomment =>
      rw [hc.takeUntil]
      exact .text hopen (Bool.eq_false_iff.mpr (hc.not_isAt (by decide))) hcomment
  | noChildren hend => exact .noChildren hend
  | children hend hx _ ih ih' => exact .children hend (ih hc) (ih' (hc.of_suffix hx.suffix))
  | emptyElement hat hne _ hclose ih =>
      exact .emptyElement hat hne (ih hc.advance.pastName) hclose
  | fullElement hat hne has hclose _ hend htag hlast ih ih' =>
      -- Neutrality is carried through the tag to the content behind it.
      have hcontent := (hc.advance.pastName.of_suffix has.suffix).advance
      exact .fullElement hat hne (ih hc.advance.pastName) hclose (ih' hcontent) hend htag hlast

/-- A tag that the brace grammar reads in neutral text is one of the sigil
    grammar, with neutral text behind it. -/
theorem TagRead.neutral (h : TagRead .brace c c₁) (hc : c.Neutral) :
    TagRead .sigil c c₁ ∧ c₁.Neutral := by
  rcases h with ⟨hat, hne, as, has⟩
  have hstart := hc.advance.pastName
  exact ⟨⟨hat, hne, as, has.neutral hstart⟩, hstart.of_suffix has.suffix⟩

theorem ContentRead.neutral (h : ContentRead .brace c c₁) (hc : c.Neutral) :
    ContentRead .sigil c c₁ := by
  rcases h with ⟨c₂, xs, htag, hclose, hxs⟩
  rcases htag.neutral hc with ⟨htag', hc₂⟩
  exact ⟨c₂, xs, htag', hclose, hxs.neutral hc₂.advance⟩

/-- The sigil grammar follows the brace grammar from task to task. -/
theorem Enters.neutral (h : Enters .brace t t') (ht : t.cursor.Neutral) :
    Enters .sigil t t' ∧ t'.cursor.Neutral := by
  cases h with
  | inlay hz hat => exact ⟨.inlay hz hat, ht⟩
  | nest hz hclose => exact ⟨.nest hz hclose, ht⟩
  | piece hend => exact ⟨.piece hend, ht⟩
  | pieces hend hpass => exact ⟨.pieces hend (hpass.neutral ht), ht.of_suffix hpass.suffix⟩
  | group hclose => exact ⟨.group hclose, ht.advance⟩
  | openCode hg => cases hg
  | bracedCode _ hat => exact absurd hat (ht.not_isAt (by decide))
  | computed _ _ hbrace =>
      exact absurd (hbrace rfl) (ht.pastName.pastSign.not_isAt (by decide))
  | mixin _ hat => exact absurd hat (ht.not_isAt (by decide))
  | entry hend => exact ⟨.entry hend, ht⟩
  | @entries _ c₁ _ hend ha =>
      exact ⟨.entries hend (ha.neutral ht), (ht.of_suffix ha.suffix).of_suffix c₁.suffix_skipBlank⟩
  | childElement hat => exact ⟨.childElement hat, ht⟩
  | insertion hat => exact absurd hat (ht.not_isAt (by decide))
  | child hend => exact ⟨.child hend, ht⟩
  | children hend hx => exact ⟨.children hend (hx.neutral ht), ht.of_suffix hx.suffix⟩
  | tag hat hne => exact ⟨.tag hat hne, ht.advance.pastName⟩
  | content htag hclose =>
      rcases htag.neutral ht with ⟨htag', hc₁⟩
      exact ⟨.content htag' hclose, hc₁.advance⟩

theorem Reaches.neutral (h : Reaches .brace t t') (ht : t.cursor.Neutral) :
    Reaches .sigil t t' ∧ t'.cursor.Neutral := by
  induction h with
  | refl => exact ⟨.refl, ht⟩
  | tail _ henter ih =>
      rcases ih with ⟨hreach, hc⟩
      rcases henter.neutral hc with ⟨henter', hc'⟩
      exact ⟨hreach.tail henter', hc'⟩

/-- Where the brace grammar fails by itself, the sigil grammar does too, unless
    a value is missing its brace. -/
theorem Raises.neutral (h : Raises .brace t f) (ht : t.cursor.Neutral) :
    f.cause = .unexpectedValue ∨ Raises .sigil t f := by
  -- Only a value without a brace is a failure of one grammar alone. The failure
  -- that belongs to the sigil grammar, code that is missing, is not raised here.
  cases h with
  | string hat heof => exact Or.inr (.string hat heof)
  | block hz hat heof => exact Or.inr (.block hz hat heof)
  | group hclose hps heof => exact Or.inr (.group hclose (hps.neutral ht.advance) heof)
  | code hg => cases hg
  | quoted hvalue hquote heof => exact Or.inr (.quoted hvalue hquote heof)
  | value => exact Or.inl rfl
  | entry hid _ => exact Or.inr (.entry hid (Bool.eq_false_iff.mpr (ht.not_isAt (by decide))))
  | comment hat heof => exact Or.inr (.comment hat heof)
  | name hat hname => exact Or.inr (.name hat hname)
  | tag htag heof => exact Or.inr (.tag (htag.neutral ht).1 heof)
  | content hcontent heof => exact Or.inr (.content (hcontent.neutral ht) heof)
  | endName hcontent heof hname => exact Or.inr (.endName (hcontent.neutral ht) heof hname)
  | endTag hcontent heof hname hlast =>
      exact Or.inr (.endTag (hcontent.neutral ht) heof hname hlast)

theorem Fails.neutral (h : Fails .brace t f) (ht : t.cursor.Neutral) :
    f.cause = .unexpectedValue ∨ Fails .sigil t f := by
  rcases h with ⟨u, hreach, hraise⟩
  rcases hreach.neutral ht with ⟨hreach', hu⟩
  rcases hraise.neutral hu with hcause | hraise'
  · exact Or.inl hcause
  · exact Or.inr ⟨u, hreach', hraise'⟩

end

theorem Cursor.neutral_ofTexts {fragments : List (List Char)}
    (h : ∀ t ∈ fragments, '@' ∉ t ∧ '{' ∉ t) : (Cursor.ofTexts fragments).Neutral := by
  unfold Cursor.Neutral
  rw [Cursor.rest_ofTexts]
  constructor
  · intro hmem
    rcases List.mem_flatten.mp hmem with ⟨t, ht, hx⟩
    exact (h t ht).1 hx
  · intro hmem
    rcases List.mem_flatten.mp hmem with ⟨t, ht, hx⟩
    exact (h t ht).2 hx

/-- The grammars agree on fragments that hold neither an at sign nor an opening
    brace: both give the same tree or the same diagnostic, unless the brace
    grammar finds a value without a brace. A tree of the brace grammar is then
    one of the sigil grammar. -/
theorem parse_neutral (fragments : List (List Char))
    (h : ∀ t ∈ fragments, '@' ∉ t ∧ '{' ∉ t) :
    (parse .brace fragments = parse .sigil fragments ∨
      ∃ d, parse .brace fragments = .error d ∧
        d.message = "unexpected value for JSX property") ∧
    ∀ r, parse .brace fragments = .ok r → parse .sigil fragments = .ok r := by
  have hstart := Cursor.neutral_ofTexts h
  have hok : ∀ r, parse .brace fragments = .ok r → parse .sigil fragments = .ok r := by
    intro r hr
    rcases parse_eq_ok_iff.mp hr with ⟨ps, c', hps, hroot⟩
    exact parse_eq_ok_iff.mpr ⟨ps, c', hps.neutral hstart, hroot⟩
  refine ⟨?_, hok⟩
  -- The outcome of the brace grammar is the one that decides.
  cases hparse : parse .brace fragments with
  | ok r => exact Or.inl (hok r hparse).symm
  | error d =>
      rcases parse_eq_error_iff.mp hparse with ⟨f, hf, rfl⟩
      rcases hf.neutral hstart with hcause | hf'
      · exact Or.inr ⟨_, rfl, by rw [Failure.diagnostic, hcause]; rfl⟩
      · exact Or.inl (parse_eq_error_iff.mpr ⟨f, hf', rfl⟩).symm

/-- A tag with a quoted value and content, in fragments of which one holds a
    name and blank space. -/
theorem parse_neutral_tag :
    (∀ t ∈ [['x'], ['<'], ['p', ' ', 'q'], ['='], ['"'], ['}'], ['"'], ['>'], ['a'],
        ['<', '/'], ['p'], ['>']], '@' ∉ t ∧ '{' ∉ t) ∧
      parse .sigil [['x'], ['<'], ['p', ' ', 'q'], ['='], ['"'], ['}'], ['"'], ['>'], ['a'],
          ['<', '/'], ['p'], ['>']] =
        .ok ⟨[.text ['x'] ⟨0, 0, 0⟩,
          .element (.mk ['p'] [.fixed ['q'] ['"', '}', '"']] [.text ['a']] ⟨0, 1, 1⟩)]⟩ := by
  have hneutral : ∀ t ∈ [['x'], ['<'], ['p', ' ', 'q'], ['='], ['"'], ['}'], ['"'], ['>'], ['a'],
      ['<', '/'], ['p'], ['>']], '@' ∉ t ∧ '{' ∉ t := by decide
  exact ⟨hneutral, (parse_neutral _ hneutral).2 _ (by decide +kernel)⟩

example :
    parse .brace [['<'], ['p', ' ', 'q'], ['='], ['1'], ['/', '>']] =
        .error ⟨"unexpected value for JSX property", ⟨0, 5, 5⟩, "1/>"⟩ ∧
      parse .sigil [['<'], ['p', ' ', 'q'], ['='], ['1'], ['/', '>']] =
        .ok ⟨[.element (.mk ['p'] [.computed ['q'] [.text ['1'] ⟨0, 5, 5⟩] ⟨0, 3, 3⟩] []
          ⟨0, 0, 0⟩)]⟩ := by
  decide +kernel

/-! ### Mixins -/

/-- The other grammar. -/
def Grammar.other : Grammar → Grammar
  | sigil => brace
  | brace => sigil

/-- The element that is inlaid here, if there is one. -/
def Segment.element? : Segment → Option Element
  | text _ _ => none
  | element e => some e

/-- The element that is inlaid here, if there is one. -/
def Piece.element? : Piece → Option Element
  | text _ => none
  | inlay e _ => some e

/-- Whether the value of an entry is literal. -/
def Attribute.isFixed : Attribute → Bool
  | fixed _ _ => true
  | computed _ _ _ | mixin _ _ => false

namespace Run

/-- Closing the pending text adds no element. -/
theorem findElement_flush (r : Run) :
    r.flush.segments.findSome? Segment.element? = r.segments.findSome? Segment.element? := by
  unfold flush
  by_cases htext : r.text.isEmpty = true
  · rw [if_pos htext]
  · rw [if_neg htext]
    simp only [List.findSome?_append, List.findSome?_cons, List.findSome?_nil, Segment.element?,
      Option.or_none]

/-- The first element of a run is the first it held, or else the first of the
    pieces it is given. -/
theorem findElement_extend (r : Run) (ps : List Piece) :
    (r.extend ps).segments.findSome? Segment.element? =
      (r.segments.findSome? Segment.element?).or (ps.findSome? Piece.element?) := by
  induction ps generalizing r with
  | nil => simp only [extend_nil, List.findSome?_nil, Option.or_none]
  | cons p ps ih =>
      rw [extend_cons, ih]
      cases p with
      | text t => simp only [add, append, List.findSome?_cons, Piece.element?]
      | inlay e resume =>
          simp only [add, inlay, List.findSome?_append, findElement_flush, List.findSome?_cons,
            Segment.element?, Piece.element?, Option.or_assoc, Option.some_or]

end Run

section

variable {g : Grammar} {c c' : Cursor}

/-- Every grammar reaches the first element of a source, since the host code in
    front of it is taken over as it is. -/
theorem Derives.reaches_inlay {ps : List Piece} {e : Element}
    (h : Derives g c (.pieces .source ps) c') (he : ps.findSome? Piece.element? = some e) :
    ∃ c₁ c₂, Derives g c₁ (.element e) c₂ ∧
      ∀ g', Reaches g' ⟨.pieces .source, c⟩ ⟨.element, c₁⟩ := by
  generalize hp : Phrase.pieces .source ps = p at h
  induction h generalizing ps with
  | noPieces =>
      cases hp
      cases he
  | @pieces z c c₁ c' ps qs hend hpass _ _ ih =>
      cases hp
      cases hpass with
      | verbatim ht =>
          have hrest : qs.findSome? Piece.element? = some e := he
          rcases ih hrest rfl with ⟨c₂, c₃, hread, hreach⟩
          exact ⟨c₂, c₃, hread, fun g' => (hreach g').head (.pieces hend (.verbatim ht))⟩
      | inlay hz hread =>
          -- The element is the first piece, so it is entered here.
          cases he
          have hat := hread.isAt_of_element
          exact ⟨c, c₁, hread, fun g' => .head (.piece hend) (.single (.inlay hz hat))⟩
      | nest hz => exact absurd rfl hz
  | _ => cases hp

/-- An entry with a literal value is the same in every grammar. -/
theorem Derives.fixed {a : Attribute} (h : Derives g c (.entry a) c') (ha : a.isFixed = true)
    (g' : Grammar) : Derives g' c (.entry a) c' := by
  cases h with
  | bare hid hsign => exact .bare hid hsign
  | quoted hid hsign hv => exact .quoted hid hsign hv
  | computed => cases ha
  | mixin => cases ha

/-- No mark of a mixin is one of the other grammar. -/
theorem Grammar.isAt_other (hat : c.isAt [g.mixinMark] = true) :
    c.isAt [g.other.mixinMark] = false := by
  rw [Cursor.isAt_eq_contains hat]
  cases g <;> decide

/-- A mixin behind literal entries is reached in the other grammar, and is no
    entry there. -/
theorem Derives.mixin_fails {as : List Attribute} {code : Code} {loc : Location}
    (h : Derives g c (.entries as) c')
    (ha : as.find? (fun a => !a.isFixed) = some (.mixin code loc)) :
    Fails g.other ⟨.entries, c⟩ ⟨.unrecognizedEntry, loc⟩ := by
  generalize hp : Phrase.entries as = p at h
  induction h generalizing as with
  | noEntries =>
      cases hp
      cases ha
  | @entries c c₁ c' a as hend hentry _ _ ih =>
      cases hp
      by_cases hfixed : a.isFixed = true
      · simp only [List.find?_cons, hfixed, Bool.not_true] at ha
        exact (Enters.entries hend (hentry.fixed hfixed _)).fails (ih ha rfl)
      · simp only [List.find?_cons, hfixed, Bool.not_false, Option.some.injEq] at ha
        -- The first entry that is not literal is the mixin itself.
        subst ha
        cases hentry with
        | mixin hid hat _ =>
            exact (Enters.entry hend).fails (Raises.entry hid (Grammar.isAt_other hat)).fails
  | _ => cases hp

theorem Derives.mixin_element_fails {e : Element} {code : Code} {loc : Location}
    (h : Derives g c (.element e) c')
    (ha : e.attributes.find? (fun a => !a.isFixed) = some (.mixin code loc)) :
    Fails g.other ⟨.element, c⟩ ⟨.unrecognizedEntry, loc⟩ := by
  cases h with
  | emptyElement hat hne has _ => exact (Enters.tag hat hne).fails (has.mixin_fails ha)
  | fullElement hat hne has _ _ _ _ _ => exact (Enters.tag hat hne).fails (has.mixin_fails ha)

end

/-- A mixin belongs to one grammar. If a source is read in a grammar, and the
    first element of its tree has a mixin with literal entries only in front of
    it, then the other grammar fails at the mixin. -/
theorem parseSource_mixin (g : Grammar) (s : List Char) (r : Root) (e : Element) (code : Code)
    (loc : Location) (h : parseSource g s = .ok r)
    (he : r.segments.findSome? Segment.element? = some e)
    (ha : e.attributes.find? (fun a => !a.isFixed) = some (.mixin code loc)) :
    parseSource g.other s =
      .error (Diagnostic.ofSource "unrecognized content in begin tag" loc s) := by
  rcases parse_eq_ok_iff.mp h with ⟨ps, c', hps, rfl⟩
  rw [Run.findElement_flush, Run.findElement_extend] at he
  -- The way to the element and the way from it to the mixin make one chain.
  rcases hps.reaches_inlay he with ⟨c₁, c₂, hread, hreach⟩
  rcases hread.mixin_element_fails ha with ⟨u, hreach', hraise⟩
  refine parse_eq_error_iff.mpr ⟨_, ⟨u, (hreach _).trans hreach', hraise⟩, ?_⟩
  rw [← List.flatMap_def, tokenize_text]
  rfl

/-- A string and a comment that hold marks of elements, and an element behind
    them whose mixin follows a value and a bare name. -/
theorem parseSource_mixin_spread :
    ∃ r e code,
      parseSource .brace
          ['"', '<', '"', '/', '/', '<', '\n', '<', 'p', ' ', 'q', '=', '\'', '1', '\'', ' ', 'b',
            ' ', '{', '.', '.', '.', 'm', '}', '/', '>'] = .ok r ∧
        r.segments.findSome? Segment.element? = some e ∧
        e.attributes.find? (fun a => !a.isFixed) = some (.mixin code ⟨1, 11, 18⟩) ∧
        parseSource .sigil
          ['"', '<', '"', '/', '/', '<', '\n', '<', 'p', ' ', 'q', '=', '\'', '1', '\'', ' ', 'b',
            ' ', '{', '.', '.', '.', 'm', '}', '/', '>'] =
          .error ⟨"unrecognized content in begin tag", ⟨1, 11, 18⟩, "{...m}/>"⟩ := by
  have hread : parseSource .brace
      ['"', '<', '"', '/', '/', '<', '\n', '<', 'p', ' ', 'q', '=', '\'', '1', '\'', ' ', 'b', ' ',
        '{', '.', '.', '.', 'm', '}', '/', '>'] =
      .ok ⟨[.text ['"', '<', '"', '/', '/', '<', '\n'] ⟨0, 0, 0⟩,
        .element (.mk ['p'] [.fixed ['q'] ['\'', '1', '\''], .fixed ['b'] ['t', 'r', 'u', 'e'],
          .mixin [.text ['m'] ⟨1, 15, 22⟩] ⟨1, 11, 18⟩] [] ⟨1, 0, 7⟩)]⟩ := by decide +kernel
  exact ⟨_, _, _, hread, rfl, rfl, parseSource_mixin .brace _ _ _ _ _ hread rfl rfl⟩

end Inlay
