import Inlay.Grammar.Rules

/-!
# What Success Says

A computation that succeeded went through all its steps. The lemmas here turn
the success of a computation into the list of what its steps did, one lemma
for each way of putting computations together and one for each step.

Every lemma is an equivalence. Read from left to right it takes a successful
run apart, which is how a derivation is extracted from a run; read from right
to left it puts a run together, which is how a run is recovered from a
derivation. Rules are therefore opened once, here, for both directions.

## Main definitions

* `Cursor.name`, `Cursor.pastName`, `Cursor.pastSign`: Places in a tag.
* `Cursor.tagEnds`, `Cursor.contentEnds`: Where the parts of an element end.
* `Grammar.behindMark`: Where the code behind a mark begins.

## Theorems

* `bind_eq_ok_iff`: One computation after another.
* `many_eq_ok_iff`: Repetition, by what its first pass does.
* `Drafting.write_eq_ok_iff`, `Drafting.inlay_eq_ok_iff`: Collecting code.
* `Rule.quotedString_eq_ok_iff`, `Rule.lineComment_eq_ok_iff`,
  `Rule.blockComment_eq_ok_iff`, `Rule.comment_eq_ok_iff`: The literals.
* `Rule.property_eq_ok_iff`, `Rule.child_eq_ok_iff`, `Rule.element_eq_ok_iff`:
  Markup.
-/

namespace Inlay

namespace Cursor

/-- The name that begins here, empty where none does. -/
def name (c : Cursor) : List Char :=
  (c.split Pattern.identifier).1

/-- Behind the name that begins here and the blank space after it. -/
def pastName (c : Cursor) : Cursor :=
  (c.split Pattern.identifier).2.skipBlank

/-- Behind the sign that stands here and the blank space after it. -/
def pastSign (c : Cursor) : Cursor :=
  c.advance.skipBlank

/-- Whether the entries of a tag end here. -/
def tagEnds (c : Cursor) : Bool :=
  c.eof || c.isAt [['>'], Marker.emptyClose]

/-- Whether the content of an element ends here. -/
def contentEnds (c : Cursor) : Bool :=
  c.eof || c.isAt [Marker.endOpen]

end Cursor

namespace Grammar

/-- Where the code of a mixin or an insertion begins: behind the sign that
    marks it, or at the brace, which belongs to it. -/
def behindMark : Grammar → Cursor → Cursor
  | sigil, c => c.advance
  | brace, c => c

/-- The marks that end a text in content. -/
def textStops (g : Grammar) : List (List Char) :=
  [['<'], Marker.commentOpen, Marker.endOpen, g.insertionMark]

end Grammar

section

variable {ε σ α β : Type} {s s' : σ}

theorem bind_eq_ok_iff {x : EStateM ε σ α} {f : α → EStateM ε σ β} {b : β} :
    (x >>= f) s = .ok b s' ↔ ∃ a s₁, x s = .ok a s₁ ∧ f a s₁ = .ok b s' := by
  simp only [Bind.bind, EStateM.bind]
  cases hx : x s with
  | ok a s₁ =>
      constructor
      · intro h
        exact ⟨a, s₁, rfl, h⟩
      · rintro ⟨a', s₁', heq, h⟩
        cases heq
        exact h
  | error e s₁ =>
      constructor
      · intro h
        cases h
      · rintro ⟨a', s₁', heq, _⟩
        cases heq

theorem pure_eq_ok_iff {a b : α} :
    (pure a : EStateM ε σ α) s = .ok b s' ↔ b = a ∧ s' = s := by
  simp only [pure, EStateM.pure, EStateM.Result.ok.injEq, eq_comm]

theorem get_eq_ok_iff {t : σ} :
    (get : EStateM ε σ σ) s = .ok t s' ↔ t = s ∧ s' = s := by
  change EStateM.Result.ok s s = .ok t s' ↔ _
  simp only [EStateM.Result.ok.injEq, eq_comm]

/-- Looking at the state first. -/
theorem get_bind_eq {f : σ → EStateM ε σ β} : ((get : EStateM ε σ σ) >>= f) s = f s s :=
  rfl

theorem throw_ne_ok {e : ε} {a : α} : (throw e : EStateM ε σ α) s ≠ .ok a s' := by
  intro h
  cases h

theorem modify_eq_ok_iff {f : σ → σ} {u : PUnit} :
    (modify f : EStateM ε σ PUnit) s = .ok u s' ↔ s' = f s := by
  change EStateM.Result.ok PUnit.unit (f s) = .ok u s' ↔ _
  simp only [EStateM.Result.ok.injEq, true_and, eq_comm]

theorem modifyGet_eq_ok_iff {f : σ → α × σ} {a : α} :
    (modifyGet f : EStateM ε σ α) s = .ok a s' ↔ a = (f s).1 ∧ s' = (f s).2 := by
  change EStateM.Result.ok (f s).1 (f s).2 = .ok a s' ↔ _
  simp only [EStateM.Result.ok.injEq, eq_comm]

theorem ite_eq_ok_iff {b : Prop} [Decidable b] {x y : EStateM ε σ α} {a : α} :
    (if b then x else y) s = .ok a s' ↔ b ∧ x s = .ok a s' ∨ ¬ b ∧ y s = .ok a s' := by
  by_cases h : b
  · simp only [h, if_true, true_and, not_true_eq_false, false_and, or_false]
  · simp only [h, if_false, false_and, not_false_eq_true, true_and, false_or]

end

/-- A loop that succeeds was either over at once or made one pass and then
    succeeded with one pass less allowed. -/
theorem many_eq_ok_iff {σ α : Type} {stop : σ → Bool} {body : EStateM Stop σ α} {limit : Nat}
    {s s' : σ} {as : List α} :
    many stop body (limit + 1) s = .ok as s' ↔
      stop s = true ∧ as = [] ∧ s' = s ∨
        stop s = false ∧ ∃ a s₁ rest, body s = .ok a s₁ ∧ many stop body limit s₁ = .ok rest s' ∧
          as = a :: rest := by
  rw [many, bind_eq_ok_iff]
  simp only [get_eq_ok_iff, ite_eq_ok_iff, bind_eq_ok_iff, pure_eq_ok_iff]
  constructor
  · rintro ⟨t, s₁, ⟨rfl, rfl⟩, ⟨hstop, rfl, rfl⟩ | ⟨hstop, a, s₂, hbody, rest, s₃, hrest, rfl, rfl⟩⟩
    · exact Or.inl ⟨hstop, rfl, rfl⟩
    · exact Or.inr ⟨Bool.eq_false_iff.mpr hstop, a, s₂, rest, hbody, hrest, rfl⟩
  · rintro (⟨hstop, rfl, rfl⟩ | ⟨hstop, a, s₁, rest, hbody, hrest, rfl⟩)
    · exact ⟨s', s', ⟨rfl, rfl⟩, Or.inl ⟨hstop, rfl, rfl⟩⟩
    · exact ⟨s, s, ⟨rfl, rfl⟩, Or.inr ⟨Bool.eq_false_iff.mp hstop, a, s₁, hbody, rest, s', hrest,
        rfl, rfl⟩⟩

/-- A loop that may make no pass at all does not succeed. -/
theorem many_zero_ne_ok {σ α : Type} {stop : σ → Bool} {body : EStateM Stop σ α} {s s' : σ}
    {as : List α} : many stop body 0 s ≠ .ok as s' :=
  throw_ne_ok

namespace Read

variable {α : Type} {c c' : Cursor}

theorem fail_ne_ok {cause : Cause} {loc : Location} {a : α} : fail cause loc c ≠ .ok a c' :=
  throw_ne_ok

theorem failHere_ne_ok {cause : Cause} {a : α} : failHere cause c ≠ .ok a c' :=
  fail_ne_ok

theorem location_eq_ok_iff {loc : Location} :
    location c = .ok loc c' ↔ loc = c.loc ∧ c' = c := by
  simp only [location, bind_eq_ok_iff, get_eq_ok_iff, pure_eq_ok_iff]
  constructor
  · rintro ⟨a, s, ⟨rfl, rfl⟩, rfl, rfl⟩
    exact ⟨rfl, rfl⟩
  · rintro ⟨rfl, rfl⟩
    exact ⟨c', c', ⟨rfl, rfl⟩, rfl, rfl⟩

theorem ensure_eq_ok_iff {ok : Cursor → Bool} {cause : Cause} {loc : Location} {u : Unit} :
    ensure ok cause loc c = .ok u c' ↔ ok c = true ∧ c' = c := by
  simp only [ensure, bind_eq_ok_iff, get_eq_ok_iff, ite_eq_ok_iff, pure_eq_ok_iff, fail_ne_ok,
    and_false, or_false]
  constructor
  · rintro ⟨a, s, ⟨rfl, rfl⟩, hok, _, rfl⟩
    exact ⟨hok, rfl⟩
  · rintro ⟨hok, rfl⟩
    exact ⟨c', c', ⟨rfl, rfl⟩, hok, trivial, rfl⟩

theorem ensureHere_eq_ok_iff {ok : Cursor → Bool} {cause : Cause} {u : Unit} :
    ensureHere ok cause c = .ok u c' ↔ ok c = true ∧ c' = c := by
  simp only [ensureHere, bind_eq_ok_iff, get_eq_ok_iff, ite_eq_ok_iff, pure_eq_ok_iff,
    failHere_ne_ok, and_false, or_false]
  constructor
  · rintro ⟨a, s, ⟨rfl, rfl⟩, hok, _, rfl⟩
    exact ⟨hok, rfl⟩
  · rintro ⟨hok, rfl⟩
    exact ⟨c', c', ⟨rfl, rfl⟩, hok, trivial, rfl⟩

theorem advance_eq_ok_iff {u : PUnit} : advance c = .ok u c' ↔ c' = c.advance :=
  modify_eq_ok_iff

theorem skipBlank_eq_ok_iff {u : PUnit} : skipBlank c = .ok u c' ↔ c' = c.skipBlank :=
  modify_eq_ok_iff

theorem take_eq_ok_iff {t : List Char} : take c = .ok t c' ↔ t = c.current ∧ c' = c.advance :=
  modifyGet_eq_ok_iff

theorem split_eq_ok_iff {p : Pattern} {t : List Char} :
    split p c = .ok t c' ↔ t = (c.split p).1 ∧ c' = (c.split p).2 :=
  modifyGet_eq_ok_iff

theorem takeUntil_eq_ok_iff {stops : List (List Char)} {t : List Char} :
    takeUntil stops c = .ok t c' ↔ t = (c.takeUntil stops).1 ∧ c' = (c.takeUntil stops).2 :=
  modifyGet_eq_ok_iff

theorem takeQuoted_eq_ok_iff {quote t : List Char} :
    takeQuoted quote c = .ok t c' ↔ t = (c.takeQuoted quote).1 ∧ c' = (c.takeQuoted quote).2 :=
  modifyGet_eq_ok_iff

/-- A run that was collected is what collecting left behind. -/
theorem collect_eq_ok_iff {run run' : Run} {x : Drafting α} :
    collect run x c = .ok run' c' ↔
      ∃ a, x { cursor := c, run } = .ok a { cursor := c', run := run' } := by
  simp only [collect]
  cases hx : x { cursor := c, run } with
  | ok a d =>
      constructor
      · intro h
        cases h
        exact ⟨a, rfl⟩
      · rintro ⟨a', heq⟩
        cases heq
        rfl
  | error e d =>
      constructor
      · intro h
        cases h
      · rintro ⟨a', heq⟩
        cases heq

end Read

namespace Drafting

variable {α : Type} {d d' : Draft}

theorem read_eq_ok_iff {x : Read α} {a : α} :
    read x d = .ok a d' ↔ ∃ c, x d.cursor = .ok a c ∧ d' = { d with cursor := c } := by
  simp only [read]
  cases hx : x d.cursor with
  | ok b c =>
      constructor
      · intro h
        cases h
        exact ⟨c, rfl, rfl⟩
      · rintro ⟨c', heq, rfl⟩
        cases heq
        rfl
  | error e c =>
      constructor
      · intro h
        cases h
      · rintro ⟨c', heq, _⟩
        cases heq

theorem write_eq_ok_iff {x : Read (List Char)} {u : Unit} :
    write x d = .ok u d' ↔
      ∃ t c, x d.cursor = .ok t c ∧ d' = { cursor := c, run := d.run.append t } := by
  simp only [write, bind_eq_ok_iff, read_eq_ok_iff, modify_eq_ok_iff]
  constructor
  · rintro ⟨t, d₁, ⟨c, hx, rfl⟩, rfl⟩
    exact ⟨t, c, hx, rfl⟩
  · rintro ⟨t, c, hx, rfl⟩
    exact ⟨t, { d with cursor := c }, ⟨c, hx, rfl⟩, rfl⟩

theorem inlay_eq_ok_iff {x : Read Element} {u : Unit} :
    inlay x d = .ok u d' ↔
      ∃ e c, x d.cursor = .ok e c ∧ d' = { cursor := c, run := d.run.inlay e c.loc } := by
  simp only [inlay, bind_eq_ok_iff, read_eq_ok_iff, modify_eq_ok_iff]
  constructor
  · rintro ⟨e, d₁, ⟨c, hx, rfl⟩, rfl⟩
    exact ⟨e, c, hx, rfl⟩
  · rintro ⟨e, c, hx, rfl⟩
    exact ⟨e, { d with cursor := c }, ⟨c, hx, rfl⟩, rfl⟩

end Drafting

namespace Rule

open Read

variable {c c' : Cursor} {t : List Char}

/-! ### Literals -/

-- A rule succeeds if each of its steps does. What a step returns and where it
-- leaves the cursor are determined, so both directions come down to the
-- conditions of the steps that can fail.

theorem quotedString_eq_ok_iff :
    quotedString c = .ok t c' ↔
      c.isAt quotes = true ∧ (c.advance.takeQuoted c.current).2.eof = false ∧
        t = (c.advance.takeQuoted c.current).1 ++ (c.advance.takeQuoted c.current).2.current ∧
        c' = (c.advance.takeQuoted c.current).2.advance := by
  simp only [quotedString, bind_eq_ok_iff, location_eq_ok_iff, ensureHere_eq_ok_iff,
    take_eq_ok_iff, takeQuoted_eq_ok_iff, ensure_eq_ok_iff, pure_eq_ok_iff, Bool.not_eq_true']
  constructor
  · rintro ⟨_, _, ⟨rfl, rfl⟩, _, _, ⟨hat, rfl⟩, _, _, ⟨rfl, rfl⟩, _, _, ⟨rfl, rfl⟩, _, _,
      ⟨heof, rfl⟩, _, _, ⟨rfl, rfl⟩, rfl, rfl⟩
    exact ⟨hat, heof, rfl, rfl⟩
  · rintro ⟨hat, heof, rfl, rfl⟩
    exact ⟨_, _, ⟨rfl, rfl⟩, (), _, ⟨hat, rfl⟩, _, _, ⟨rfl, rfl⟩, _, _, ⟨rfl, rfl⟩, (), _,
      ⟨heof, rfl⟩, _, _, ⟨rfl, rfl⟩, rfl, rfl⟩

theorem lineComment_eq_ok_iff :
    lineComment c = .ok t c' ↔
      c.isAt [Marker.lineComment] = true ∧
        ((c.takeUntil [['\n']]).2.eof = true ∧ t = (c.takeUntil [['\n']]).1 ∧
            c' = (c.takeUntil [['\n']]).2 ∨
          (c.takeUntil [['\n']]).2.eof = false ∧
            t = (c.takeUntil [['\n']]).1 ++ (c.takeUntil [['\n']]).2.current ∧
            c' = (c.takeUntil [['\n']]).2.advance) := by
  simp only [lineComment, bind_eq_ok_iff, ensureHere_eq_ok_iff, takeUntil_eq_ok_iff,
    get_eq_ok_iff, ite_eq_ok_iff, take_eq_ok_iff, pure_eq_ok_iff, Bool.not_eq_true]
  constructor
  · rintro ⟨_, _, ⟨hat, rfl⟩, _, _, ⟨rfl, rfl⟩, _, _, ⟨rfl, rfl⟩,
      ⟨heof, rfl, rfl⟩ | ⟨heof, _, _, ⟨rfl, rfl⟩, rfl, rfl⟩⟩
    · exact ⟨hat, Or.inl ⟨heof, rfl, rfl⟩⟩
    · exact ⟨hat, Or.inr ⟨heof, rfl, rfl⟩⟩
  · rintro ⟨hat, ⟨heof, rfl, rfl⟩ | ⟨heof, rfl, rfl⟩⟩
    · exact ⟨(), _, ⟨hat, rfl⟩, _, _, ⟨rfl, rfl⟩, _, _, ⟨rfl, rfl⟩, Or.inl ⟨heof, rfl, rfl⟩⟩
    · exact ⟨(), _, ⟨hat, rfl⟩, _, _, ⟨rfl, rfl⟩, _, _, ⟨rfl, rfl⟩,
        Or.inr ⟨heof, _, _, ⟨rfl, rfl⟩, rfl, rfl⟩⟩

theorem blockComment_eq_ok_iff :
    blockComment c = .ok t c' ↔
      c.isAt [Marker.blockOpen] = true ∧ (c.takeUntil [Marker.blockClose]).2.eof = false ∧
        t = (c.takeUntil [Marker.blockClose]).1 ++ (c.takeUntil [Marker.blockClose]).2.current ∧
        c' = (c.takeUntil [Marker.blockClose]).2.advance := by
  simp only [blockComment, bind_eq_ok_iff, location_eq_ok_iff, ensureHere_eq_ok_iff,
    takeUntil_eq_ok_iff, ensure_eq_ok_iff, take_eq_ok_iff, pure_eq_ok_iff, Bool.not_eq_true']
  constructor
  · rintro ⟨_, _, ⟨rfl, rfl⟩, _, _, ⟨hat, rfl⟩, _, _, ⟨rfl, rfl⟩, _, _, ⟨heof, rfl⟩, _, _,
      ⟨rfl, rfl⟩, rfl, rfl⟩
    exact ⟨hat, heof, rfl, rfl⟩
  · rintro ⟨hat, heof, rfl, rfl⟩
    exact ⟨_, _, ⟨rfl, rfl⟩, (), _, ⟨hat, rfl⟩, _, _, ⟨rfl, rfl⟩, (), _, ⟨heof, rfl⟩, _, _,
      ⟨rfl, rfl⟩, rfl, rfl⟩

theorem comment_eq_ok_iff {x : Child} :
    comment c = .ok x c' ↔
      c.isAt [Marker.commentOpen] = true ∧
        (c.advance.takeUntil [Marker.commentClose]).2.eof = false ∧
        x = .comment (c.advance.takeUntil [Marker.commentClose]).1 ∧
        c' = (c.advance.takeUntil [Marker.commentClose]).2.advance := by
  simp only [comment, bind_eq_ok_iff, location_eq_ok_iff, ensureHere_eq_ok_iff,
    advance_eq_ok_iff, takeUntil_eq_ok_iff, ensure_eq_ok_iff, pure_eq_ok_iff, Bool.not_eq_true']
  constructor
  · rintro ⟨_, _, ⟨rfl, rfl⟩, _, _, ⟨hat, rfl⟩, _, _, rfl, _, _, ⟨rfl, rfl⟩, _, _, ⟨heof, rfl⟩,
      _, _, rfl, rfl, rfl⟩
    exact ⟨hat, heof, rfl, rfl⟩
  · rintro ⟨hat, heof, rfl, rfl⟩
    exact ⟨_, _, ⟨rfl, rfl⟩, (), _, ⟨hat, rfl⟩, ⟨⟩, _, rfl, _, _, ⟨rfl, rfl⟩, (), _, ⟨heof, rfl⟩,
      ⟨⟩, _, rfl, rfl, rfl⟩

/-! ### Code -/

variable {g : Grammar} {inner : Nested}

theorem group_eq_ok_iff {d d' : Draft} {u : Unit} :
    group inner d = .ok u d' ↔
      ∃ close as d₁, d.cursor.closer? = some close ∧
        many (fun d => d.cursor.eof || d.cursor.isAt [close]) (groupPiece inner) inner.depth
            { cursor := d.cursor.advance, run := d.run.append d.cursor.current } = .ok as d₁ ∧
          d₁.cursor.eof = false ∧
          d' = { cursor := d₁.cursor.advance, run := d₁.run.append d₁.cursor.current } := by
  rw [group, bind_eq_ok_iff]
  simp only [get_eq_ok_iff]
  cases hclose : d.cursor.closer? with
  | none =>
      constructor
      · rintro ⟨_, _, ⟨rfl, rfl⟩, h⟩
        simp only [hclose, Drafting.read_eq_ok_iff, failHere_ne_ok, false_and, exists_false] at h
      · rintro ⟨close, _, _, hc, _⟩
        cases hc
  | some close =>
      constructor
      · rintro ⟨_, _, ⟨rfl, rfl⟩, h⟩
        simp only [hclose, bind_eq_ok_iff, Drafting.write_eq_ok_iff, Drafting.read_eq_ok_iff,
          take_eq_ok_iff, ensure_eq_ok_iff, Bool.not_eq_true'] at h
        rcases h with ⟨_, _, ⟨_, _, ⟨rfl, rfl⟩, rfl⟩, as, d₁, hmany, _, _,
          ⟨_, ⟨heof, rfl⟩, rfl⟩, _, _, ⟨rfl, rfl⟩, rfl⟩
        exact ⟨close, as, d₁, rfl, hmany, heof, rfl⟩
      · rintro ⟨_, as, d₁, hc, hmany, heof, rfl⟩
        cases hc
        refine ⟨d, d, ⟨rfl, rfl⟩, ?_⟩
        simp only [hclose, bind_eq_ok_iff, Drafting.write_eq_ok_iff, Drafting.read_eq_ok_iff,
          take_eq_ok_iff, ensure_eq_ok_iff, Bool.not_eq_true']
        exact ⟨(), _, ⟨_, _, ⟨rfl, rfl⟩, rfl⟩, as, d₁, hmany, (), _, ⟨_, ⟨heof, rfl⟩, rfl⟩, _, _,
          ⟨rfl, rfl⟩, rfl⟩

theorem openCode_eq_ok_iff {code : Code} :
    openCode inner c = .ok code c' ↔
      ∃ as run, many (fun d => d.cursor.eof || (d.cursor.matched? Pattern.codeEnd).isSome)
            (openPiece inner) inner.depth { cursor := c, run := { loc := c.loc } } =
          .ok as { cursor := c', run } ∧
        code = run.flush.segments ∧ code ≠ [] := by
  simp only [openCode, bind_eq_ok_iff, location_eq_ok_iff, collect_eq_ok_iff, ensure_eq_ok_iff,
    pure_eq_ok_iff, Bool.not_eq_true', List.isEmpty_eq_false_iff]
  constructor
  · rintro ⟨_, _, ⟨rfl, rfl⟩, run, _, ⟨as, hmany⟩, _, _, ⟨hne, rfl⟩, rfl, rfl⟩
    exact ⟨as, run, hmany, rfl, hne⟩
  · rintro ⟨as, run, hmany, rfl, hne⟩
    exact ⟨_, _, ⟨rfl, rfl⟩, run, _, ⟨as, hmany⟩, (), _, ⟨hne, rfl⟩, rfl, rfl⟩

theorem bracedCode_eq_ok_iff {code : Code} :
    bracedCode inner c = .ok code c' ↔
      c.isAt [['{'], Marker.spread] = true ∧
        ∃ run, inner.group { cursor := c, run := { loc := c.loc } } =
            .ok () { cursor := c', run } ∧
          code = unbraced c.current.length run := by
  simp only [bracedCode, bind_eq_ok_iff, ensureHere_eq_ok_iff, get_eq_ok_iff, collect_eq_ok_iff,
    pure_eq_ok_iff]
  constructor
  · rintro ⟨_, _, ⟨hat, rfl⟩, _, _, ⟨rfl, rfl⟩, run, _, ⟨_, hgroup⟩, rfl, rfl⟩
    exact ⟨hat, run, hgroup, rfl⟩
  · rintro ⟨hat, run, hgroup, rfl⟩
    exact ⟨(), _, ⟨hat, rfl⟩, _, _, ⟨rfl, rfl⟩, run, _, ⟨(), hgroup⟩, rfl, rfl⟩

theorem topLevel_eq_ok_iff {root : Root} :
    topLevel inner c = .ok root c' ↔
      ∃ as run, many (·.cursor.eof) (piece inner (Drafting.write take)) inner.depth
            { cursor := c, run := { loc := c.loc } } = .ok as { cursor := c', run } ∧
        root = { segments := run.flush.segments } := by
  simp only [topLevel, bind_eq_ok_iff, location_eq_ok_iff, collect_eq_ok_iff, pure_eq_ok_iff]
  constructor
  · rintro ⟨_, _, ⟨rfl, rfl⟩, run, _, ⟨as, hmany⟩, rfl, rfl⟩
    exact ⟨as, run, hmany, rfl⟩
  · rintro ⟨as, run, hmany, rfl⟩
    exact ⟨_, _, ⟨rfl, rfl⟩, run, _, ⟨as, hmany⟩, rfl, rfl⟩

/-- Code as a rule hands over to it from the mark in front of it: the sign is
    passed, a brace is left to the code itself. -/
theorem code_behind_mark_eq_ok_iff {α : Type} {make : Code → Location → α} {cause : Cause} {a : α} :
    (do
      ensureHere (·.isAt [['@']]) cause
      let loc ← location
      advance
      return make (← openCode inner) loc : Read α) c = .ok a c' ↔
        c.isAt [['@']] = true ∧
          ∃ code', openCode inner c.advance = .ok code' c' ∧ a = make code' c.loc := by
  simp only [bind_eq_ok_iff, ensureHere_eq_ok_iff, location_eq_ok_iff, advance_eq_ok_iff,
    pure_eq_ok_iff]
  constructor
  · rintro ⟨_, _, ⟨hat, rfl⟩, _, _, ⟨rfl, rfl⟩, _, _, rfl, code', _, hcode, rfl, rfl⟩
    exact ⟨hat, code', hcode, rfl⟩
  · rintro ⟨hat, code', hcode, rfl⟩
    exact ⟨(), _, ⟨hat, rfl⟩, _, _, ⟨rfl, rfl⟩, ⟨⟩, _, rfl, code', _, hcode, rfl, rfl⟩

/-! ### Attributes -/

/-- A property is a bare name, or a name with a literal value, or a name with
    a value that code computes. -/
theorem property_eq_ok_iff {a : Attribute} :
    property g inner c = .ok a c' ↔
      (c.matched? Pattern.identifier).isSome = true ∧
        (c.pastName.isAt [['=']] = false ∧ a = .fixed c.name ['t', 'r', 'u', 'e'] ∧
            c' = c.pastName ∨
          c.pastName.isAt [['=']] = true ∧ c.pastName.pastSign.isAt quotes = true ∧
            (∃ v, quotedString c.pastName.pastSign = .ok v c' ∧ a = .fixed c.name v) ∨
          c.pastName.isAt [['=']] = true ∧ c.pastName.pastSign.isAt quotes = false ∧
            (g = .brace → c.pastName.pastSign.isAt [['{']] = true) ∧
            ∃ code', code g inner c.pastName.pastSign = .ok code' c' ∧
              a = .computed c.name code' c.loc) := by
  -- Only braced code has to begin with a brace.
  have hg : ∀ b : Bool, (decide (g = .sigil) || b) = true ↔ (g = .brace → b = true) := by
    intro b
    cases g <;> simp
  simp only [property, bind_eq_ok_iff, ensureHere_eq_ok_iff, location_eq_ok_iff, split_eq_ok_iff,
    skipBlank_eq_ok_iff, get_eq_ok_iff, ite_eq_ok_iff, advance_eq_ok_iff, pure_eq_ok_iff,
    Bool.not_eq_true, hg]
  constructor
  · rintro ⟨_, _, ⟨hid, rfl⟩, _, _, ⟨rfl, rfl⟩, _, _, ⟨rfl, rfl⟩, _, _, rfl, _, _, ⟨rfl, rfl⟩, h⟩
    refine ⟨hid, ?_⟩
    rcases h with ⟨heq, _, _, rfl, _, _, rfl, _, _, ⟨rfl, rfl⟩, h⟩ | ⟨heq, rfl, rfl⟩
    · rcases h with ⟨hq, v, _, hv, rfl, rfl⟩ | ⟨hq, _, _, ⟨hb, rfl⟩, code', _, hcode, rfl, rfl⟩
      · exact Or.inr (Or.inl ⟨heq, hq, v, hv, rfl⟩)
      · exact Or.inr (Or.inr ⟨heq, hq, hb, code', hcode, rfl⟩)
    · exact Or.inl ⟨heq, rfl, rfl⟩
  · rintro ⟨hid, h⟩
    refine ⟨(), _, ⟨hid, rfl⟩, _, _, ⟨rfl, rfl⟩, _, _, ⟨rfl, rfl⟩, ⟨⟩, _, rfl, _, _, ⟨rfl, rfl⟩, ?_⟩
    rcases h with ⟨heq, rfl, rfl⟩ | ⟨heq, hq, v, hv, rfl⟩ | ⟨heq, hq, hb, code', hcode, rfl⟩
    · exact Or.inr ⟨heq, rfl, rfl⟩
    · exact Or.inl ⟨heq, ⟨⟩, _, rfl, ⟨⟩, _, rfl, _, _, ⟨rfl, rfl⟩, Or.inl ⟨hq, v, _, hv, rfl, rfl⟩⟩
    · exact Or.inl ⟨heq, ⟨⟩, _, rfl, ⟨⟩, _, rfl, _, _, ⟨rfl, rfl⟩,
        Or.inr ⟨hq, (), _, ⟨hb, rfl⟩, code', _, hcode, rfl, rfl⟩⟩

theorem mixin_eq_ok_iff {a : Attribute} (hat : c.isAt [g.mixinMark] = true) :
    mixin g inner c = .ok a c' ↔
      ∃ code', code g inner (g.behindMark c) = .ok code' c' ∧ a = .mixin code' c.loc := by
  cases g with
  | sigil =>
      rw [mixin, openMixin, code_behind_mark_eq_ok_iff]
      constructor
      · rintro ⟨_, h⟩
        exact h
      · intro h
        exact ⟨hat, h⟩
  | brace =>
      simp only [mixin, bracedMixin, bind_eq_ok_iff, ensureHere_eq_ok_iff, location_eq_ok_iff,
        pure_eq_ok_iff, code, Grammar.behindMark]
      constructor
      · rintro ⟨_, _, ⟨_, rfl⟩, _, _, ⟨rfl, rfl⟩, code', _, hcode, rfl, rfl⟩
        exact ⟨code', hcode, rfl⟩
      · rintro ⟨code', hcode, rfl⟩
        exact ⟨(), _, ⟨hat, rfl⟩, _, _, ⟨rfl, rfl⟩, code', _, hcode, rfl, rfl⟩

theorem tagEntry_eq_ok_iff {a : Attribute} :
    tagEntry g inner c = .ok a c' ↔
      (c.matched? Pattern.identifier).isSome = true ∧ property g inner c = .ok a c' ∨
        (c.matched? Pattern.identifier).isSome = false ∧ c.isAt [g.mixinMark] = true ∧
          ∃ code', code g inner (g.behindMark c) = .ok code' c' ∧ a = .mixin code' c.loc := by
  rw [tagEntry, bind_eq_ok_iff]
  simp only [get_eq_ok_iff, ite_eq_ok_iff, Bool.not_eq_true, failHere_ne_ok, and_false, or_false]
  constructor
  · rintro ⟨_, _, ⟨rfl, rfl⟩, h | ⟨hid, hat, h⟩⟩
    · exact Or.inl h
    · exact Or.inr ⟨hid, hat, (mixin_eq_ok_iff hat).mp h⟩
  · rintro (h | ⟨hid, hat, h⟩)
    · exact ⟨c, c, ⟨rfl, rfl⟩, Or.inl h⟩
    · exact ⟨c, c, ⟨rfl, rfl⟩, Or.inr ⟨hid, hat, (mixin_eq_ok_iff hat).mpr h⟩⟩

theorem spacedEntry_eq_ok_iff {a : Attribute} :
    spacedEntry g inner c = .ok a c' ↔
      ∃ c₁, tagEntry g inner c = .ok a c₁ ∧ c' = c₁.skipBlank := by
  simp only [spacedEntry, bind_eq_ok_iff, skipBlank_eq_ok_iff, pure_eq_ok_iff]
  constructor
  · rintro ⟨_, c₁, hentry, _, _, rfl, rfl, rfl⟩
    exact ⟨c₁, hentry, rfl⟩
  · rintro ⟨c₁, hentry, rfl⟩
    exact ⟨a, c₁, hentry, ⟨⟩, _, rfl, rfl, rfl⟩

/-! ### Content -/

theorem insertion_eq_ok_iff {x : Child} (hat : c.isAt [g.insertionMark] = true) :
    insertion g inner c = .ok x c' ↔
      ∃ code', code g inner (g.behindMark c) = .ok code' c' ∧ x = .insertion code' c.loc := by
  cases g with
  | sigil =>
      rw [insertion, openInsertion, code_behind_mark_eq_ok_iff]
      constructor
      · rintro ⟨_, h⟩
        exact h
      · intro h
        exact ⟨hat, h⟩
  | brace =>
      simp only [insertion, bracedInsertion, bind_eq_ok_iff, location_eq_ok_iff, pure_eq_ok_iff,
        code, Grammar.behindMark]
      constructor
      · rintro ⟨_, _, ⟨rfl, rfl⟩, code', _, hcode, rfl, rfl⟩
        exact ⟨code', hcode, rfl⟩
      · rintro ⟨code', hcode, rfl⟩
        exact ⟨_, _, ⟨rfl, rfl⟩, code', _, hcode, rfl, rfl⟩

/-- An entry of content is an element, an insertion, a comment or text,
    whichever begins here. -/
theorem child_eq_ok_iff {x : Child} :
    child g inner c = .ok x c' ↔
      c.isAt [['<']] = true ∧ (∃ e, inner.element c = .ok e c' ∧ x = .element e) ∨
      c.isAt [['<']] = false ∧ c.isAt [g.insertionMark] = true ∧
        (∃ code', code g inner (g.behindMark c) = .ok code' c' ∧ x = .insertion code' c.loc) ∨
      c.isAt [['<']] = false ∧ c.isAt [g.insertionMark] = false ∧
        c.isAt [Marker.commentOpen] = true ∧ comment c = .ok x c' ∨
      c.isAt [['<']] = false ∧ c.isAt [g.insertionMark] = false ∧
        c.isAt [Marker.commentOpen] = false ∧
        x = .text (c.takeUntil g.textStops).1 ∧ c' = (c.takeUntil g.textStops).2 := by
  rw [child, bind_eq_ok_iff]
  simp only [get_eq_ok_iff, ite_eq_ok_iff, Bool.not_eq_true, bind_eq_ok_iff, pure_eq_ok_iff, text,
    takeUntil_eq_ok_iff]
  constructor
  · rintro ⟨_, _, ⟨rfl, rfl⟩, ⟨hopen, e, _, he, rfl, rfl⟩ | ⟨hopen, h⟩⟩
    · exact Or.inl ⟨hopen, e, he, rfl⟩
    · rcases h with ⟨hmark, h⟩ | ⟨hmark, ⟨hcom, h⟩ | ⟨hcom, _, _, ⟨rfl, rfl⟩, rfl, rfl⟩⟩
      · exact Or.inr (Or.inl ⟨hopen, hmark, (insertion_eq_ok_iff hmark).mp h⟩)
      · exact Or.inr (Or.inr (Or.inl ⟨hopen, hmark, hcom, h⟩))
      · exact Or.inr (Or.inr (Or.inr ⟨hopen, hmark, hcom, rfl, rfl⟩))
  · intro h
    refine ⟨c, c, ⟨rfl, rfl⟩, ?_⟩
    rcases h with ⟨hopen, e, he, rfl⟩ | ⟨hopen, hmark, h⟩ | ⟨hopen, hmark, hcom, h⟩ |
      ⟨hopen, hmark, hcom, rfl, rfl⟩
    · exact Or.inl ⟨hopen, e, _, he, rfl, rfl⟩
    · exact Or.inr ⟨hopen, Or.inl ⟨hmark, (insertion_eq_ok_iff hmark).mpr h⟩⟩
    · exact Or.inr ⟨hopen, Or.inr ⟨hmark, Or.inl ⟨hcom, h⟩⟩⟩
    · exact Or.inr ⟨hopen, Or.inr ⟨hmark, Or.inr ⟨hcom, _, _, ⟨rfl, rfl⟩, rfl, rfl⟩⟩⟩

/-! ### Elements -/

theorem endTag_eq_ok_iff {tag : List Char} {start : Location} {u : Unit} :
    endTag tag start c = .ok u c' ↔
      c.eof = false ∧ (c.advance.split Pattern.identifier).1 = tag ∧
        (c.advance.split Pattern.identifier).2.isAt [['>']] = true ∧
        c' = (c.advance.split Pattern.identifier).2.advance := by
  simp only [endTag, bind_eq_ok_iff, ensure_eq_ok_iff, advance_eq_ok_iff, split_eq_ok_iff,
    ensureHere_eq_ok_iff, Bool.not_eq_true', decide_eq_true_eq]
  constructor
  · rintro ⟨_, _, ⟨heof, rfl⟩, _, _, rfl, _, _, ⟨rfl, rfl⟩, _, _, ⟨hname, rfl⟩, _, _,
      ⟨hat, rfl⟩, rfl⟩
    exact ⟨heof, hname, hat, rfl⟩
  · rintro ⟨heof, hname, hat, rfl⟩
    exact ⟨(), _, ⟨heof, rfl⟩, ⟨⟩, _, rfl, _, _, ⟨rfl, rfl⟩, (), _, ⟨hname, rfl⟩, (), _,
      ⟨hat, rfl⟩, rfl⟩

theorem tagName_eq_ok_iff {start : Location} :
    tagName start c = .ok t c' ↔
      c.name ≠ [] ∧ t = c.name ∧ c' = (c.split Pattern.identifier).2 := by
  simp only [tagName, bind_eq_ok_iff, split_eq_ok_iff, ensure_eq_ok_iff, pure_eq_ok_iff,
    Bool.not_eq_true', List.isEmpty_eq_false_iff]
  constructor
  · rintro ⟨_, _, ⟨rfl, rfl⟩, _, _, ⟨hne, rfl⟩, rfl, rfl⟩
    exact ⟨hne, rfl, rfl⟩
  · rintro ⟨hne, rfl, rfl⟩
    exact ⟨_, _, ⟨rfl, rfl⟩, (), _, ⟨hne, rfl⟩, rfl, rfl⟩

/-- An element is a tag that closes itself, or a tag, content and an end tag
    of the same name. -/
theorem element_eq_ok_iff {e : Element} :
    element g inner c = .ok e c' ↔
      c.isAt [['<']] = true ∧ c.advance.name ≠ [] ∧
        ∃ as c₁, many Cursor.tagEnds (spacedEntry g inner) inner.depth c.advance.pastName =
            .ok as c₁ ∧ c₁.eof = false ∧
          (c₁.current = Marker.emptyClose ∧ e = .mk c.advance.name as [] c.loc ∧ c' = c₁.advance ∨
            c₁.current ≠ Marker.emptyClose ∧
              ∃ cs c₂, many Cursor.contentEnds (child g inner) inner.depth c₁.advance =
                  .ok cs c₂ ∧
                endTag c.advance.name c.loc c₂ = .ok () c' ∧
                e = .mk c.advance.name as cs c.loc) := by
  simp only [element, bind_eq_ok_iff, location_eq_ok_iff, ensureHere_eq_ok_iff, advance_eq_ok_iff,
    tagName_eq_ok_iff, skipBlank_eq_ok_iff, ensure_eq_ok_iff, take_eq_ok_iff, ite_eq_ok_iff,
    pure_eq_ok_iff, Bool.not_eq_true']
  constructor
  · rintro ⟨_, _, ⟨rfl, rfl⟩, _, _, ⟨hat, rfl⟩, _, _, rfl, _, _, ⟨hne, rfl, rfl⟩, _, _, rfl, as, c₁,
      has, _, _, ⟨heof, rfl⟩, _, _, ⟨rfl, rfl⟩, h⟩
    refine ⟨hat, hne, as, _, has, heof, ?_⟩
    rcases h with ⟨hend, rfl, rfl⟩ | ⟨hend, cs, c₂, hcs, _, _, htag, rfl, rfl⟩
    · exact Or.inl ⟨hend, rfl, rfl⟩
    · exact Or.inr ⟨hend, cs, c₂, hcs, htag, rfl⟩
  · rintro ⟨hat, hne, as, c₁, has, heof, h⟩
    refine ⟨_, _, ⟨rfl, rfl⟩, (), _, ⟨hat, rfl⟩, ⟨⟩, _, rfl, _, _, ⟨hne, rfl, rfl⟩, ⟨⟩, _, rfl, as,
      c₁, has, (), _, ⟨heof, rfl⟩, _, _, ⟨rfl, rfl⟩, ?_⟩
    rcases h with ⟨hend, rfl, rfl⟩ | ⟨hend, cs, c₂, hcs, htag, rfl⟩
    · exact Or.inl ⟨hend, rfl, rfl⟩
    · exact Or.inr ⟨hend, cs, c₂, hcs, (), _, htag, rfl, rfl⟩

end Rule

end Inlay
