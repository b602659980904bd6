import Inlay.Proofs.Success

/-!
# What Failure Says

The counterpart of `Inlay.Proofs.Success`. A computation that failed did so at
one of its steps, and all the steps before that one succeeded. The lemmas here
turn the failure of a computation into the step that failed, one lemma for
each way of putting computations together and one for each rule.

Where the cursor stood when the failure was noticed is of no interest, since
nothing goes on from there. `Refuses` leaves it out.

Every lemma is an equivalence, for the same reason as there: read from left to
right it finds the step, and read from right to left it makes the failure of a
step one of the whole.

## Main definitions

* `Refuses`: A computation that stops with a given failure.

## Theorems

* `bind_refuses_iff`: One computation after another.
* `many_refuses_iff`: Repetition, by what its first pass does.
* `Rule.quotedString_refuses_iff`, `Rule.group_refuses_iff`,
  `Rule.openCode_refuses_iff`: Code.
* `Rule.property_refuses_iff`, `Rule.child_refuses_iff`,
  `Rule.element_refuses_iff`: Markup.
-/

namespace Inlay

/-- Started at `s`, `x` stops with the failure `f`. -/
def Refuses {σ α : Type} (x : EStateM Stop σ α) (s : σ) (f : Failure) : Prop :=
  ∃ s', x s = .error (.failure f) s'

section

variable {σ α β : Type} {s : σ} {f : Failure}

theorem bind_refuses_iff {x : EStateM Stop σ α} {k : α → EStateM Stop σ β} :
    Refuses (x >>= k) s f ↔ Refuses x s f ∨ ∃ a s₁, x s = .ok a s₁ ∧ Refuses (k a) s₁ f := by
  simp only [Refuses, Bind.bind, EStateM.bind]
  cases hx : x s with
  | ok a s₁ =>
      constructor
      · intro h
        exact Or.inr ⟨a, s₁, rfl, h⟩
      · rintro (⟨_, h⟩ | ⟨_, _, heq, h⟩)
        · cases h
        · cases heq
          exact h
  | error e s₁ =>
      constructor
      · rintro ⟨_, h⟩
        cases h
        exact Or.inl ⟨s₁, rfl⟩
      · rintro (⟨_, h⟩ | ⟨_, _, heq, _⟩)
        · cases h
          exact ⟨s₁, rfl⟩
        · cases heq

theorem not_pure_refuses {a : α} : ¬ Refuses (pure a : EStateM Stop σ α) s f := by
  rintro ⟨s', h⟩
  cases h

theorem not_get_refuses : ¬ Refuses (get : EStateM Stop σ σ) s f := by
  rintro ⟨s', h⟩
  cases h

theorem not_modify_refuses {k : σ → σ} : ¬ Refuses (modify k : EStateM Stop σ PUnit) s f := by
  rintro ⟨s', h⟩
  cases h

theorem not_modifyGet_refuses {k : σ → α × σ} :
    ¬ Refuses (modifyGet k : EStateM Stop σ α) s f := by
  rintro ⟨s', h⟩
  cases h

/-- Being exhausted is not a failure. -/
theorem not_exhausted_refuses : ¬ Refuses (throw .exhausted : EStateM Stop σ α) s f := by
  rintro ⟨s', h⟩
  cases h

theorem ite_refuses_iff {b : Prop} [Decidable b] {x y : EStateM Stop σ α} :
    Refuses (if b then x else y) s f ↔ b ∧ Refuses x s f ∨ ¬ b ∧ Refuses y s f := by
  by_cases h : b
  · simp only [h, if_true, true_and, not_true_eq_false, false_and, or_false]
  · simp only [h, if_false, false_and, not_false_eq_true, true_and, false_or]

/-- A computation that looks at its state first. -/
theorem get_bind_refuses_iff {k : σ → EStateM Stop σ β} :
    Refuses ((get : EStateM Stop σ σ) >>= k) s f ↔ Refuses (k s) s f :=
  Iff.rfl

end

/-- A loop that fails was not over, and its first pass fails or the passes
    behind it do. -/
theorem many_refuses_iff {σ α : Type} {stop : σ → Bool} {body : EStateM Stop σ α} {limit : Nat}
    {s : σ} {f : Failure} :
    Refuses (many stop body (limit + 1)) s f ↔
      stop s = false ∧ (Refuses body s f ∨
        ∃ a s₁, body s = .ok a s₁ ∧ Refuses (many stop body limit) s₁ f) := by
  rw [many, get_bind_refuses_iff]
  simp only [ite_refuses_iff, bind_refuses_iff, not_pure_refuses, and_false, exists_false, or_false,
    false_or, Bool.not_eq_true]

theorem not_many_zero_refuses {σ α : Type} {stop : σ → Bool} {body : EStateM Stop σ α} {s : σ}
    {f : Failure} : ¬ Refuses (many stop body 0) s f :=
  not_exhausted_refuses

namespace Read

variable {α : Type} {c : Cursor} {f : Failure}

theorem fail_refuses_iff {cause : Cause} {loc : Location} :
    Refuses (fail cause loc : Read α) c f ↔ f = ⟨cause, loc⟩ := by
  constructor
  · rintro ⟨c', h⟩
    cases h
    rfl
  · rintro rfl
    exact ⟨c, rfl⟩

theorem failHere_refuses_iff {cause : Cause} :
    Refuses (failHere cause : Read α) c f ↔ f = ⟨cause, c.loc⟩ :=
  fail_refuses_iff

theorem not_location_refuses : ¬ Refuses location c f := by
  rintro ⟨c', h⟩
  cases h

theorem ensure_refuses_iff {ok : Cursor → Bool} {cause : Cause} {loc : Location} :
    Refuses (ensure ok cause loc) c f ↔ ok c = false ∧ f = ⟨cause, loc⟩ := by
  rw [ensure, get_bind_refuses_iff, ite_refuses_iff, fail_refuses_iff]
  simp only [not_pure_refuses, and_false, false_or, Bool.not_eq_true]

theorem ensureHere_refuses_iff {ok : Cursor → Bool} {cause : Cause} :
    Refuses (ensureHere ok cause) c f ↔ ok c = false ∧ f = ⟨cause, c.loc⟩ := by
  rw [ensureHere, get_bind_refuses_iff, ite_refuses_iff, failHere_refuses_iff]
  simp only [not_pure_refuses, and_false, false_or, Bool.not_eq_true]

theorem not_advance_refuses : ¬ Refuses advance c f :=
  not_modify_refuses

theorem not_skipBlank_refuses : ¬ Refuses skipBlank c f :=
  not_modify_refuses

theorem not_take_refuses : ¬ Refuses take c f :=
  not_modifyGet_refuses

theorem not_split_refuses {p : Pattern} : ¬ Refuses (split p) c f :=
  not_modifyGet_refuses

theorem not_takeUntil_refuses {stops : List (List Char)} : ¬ Refuses (takeUntil stops) c f :=
  not_modifyGet_refuses

theorem not_takeQuoted_refuses {quote : List Char} : ¬ Refuses (takeQuoted quote) c f :=
  not_modifyGet_refuses

/-- Collecting fails where the computation that collects does. -/
theorem collect_refuses_iff {run : Run} {x : Drafting α} :
    Refuses (collect run x) c f ↔ Refuses x { cursor := c, run } f := by
  simp only [Refuses, collect]
  cases hx : x { cursor := c, run } with
  | ok a d =>
      constructor
      · rintro ⟨_, h⟩
        cases h
      · rintro ⟨_, h⟩
        cases h
  | error e d =>
      constructor
      · rintro ⟨_, h⟩
        cases h
        exact ⟨d, rfl⟩
      · rintro ⟨_, h⟩
        cases h
        exact ⟨_, rfl⟩

end Read

namespace Drafting

variable {α : Type} {d : Draft} {f : Failure}

theorem read_refuses_iff {x : Read α} : Refuses (read x) d f ↔ Refuses x d.cursor f := by
  simp only [Refuses, read]
  cases hx : x d.cursor with
  | ok a c =>
      constructor
      · rintro ⟨_, h⟩
        cases h
      · rintro ⟨_, h⟩
        cases h
  | error e c =>
      constructor
      · rintro ⟨_, h⟩
        cases h
        exact ⟨c, rfl⟩
      · rintro ⟨_, h⟩
        cases h
        exact ⟨_, rfl⟩

theorem write_refuses_iff {x : Read (List Char)} :
    Refuses (write x) d f ↔ Refuses x d.cursor f := by
  rw [write, bind_refuses_iff, read_refuses_iff]
  simp only [not_modify_refuses, and_false, exists_false, or_false]

theorem inlay_refuses_iff {x : Read Element} :
    Refuses (inlay x) d f ↔ Refuses x d.cursor f := by
  rw [inlay, bind_refuses_iff, read_refuses_iff]
  simp only [not_modify_refuses, and_false, exists_false, or_false]

end Drafting

namespace Rule

open Read

variable {c : Cursor} {f : Failure} {g : Grammar} {inner : Nested}

/-! ### Literals -/

-- Each rule is taken apart into its steps. Steps that cannot fail drop out,
-- and those in front of the failure determine where it was noticed.

theorem quotedString_refuses_iff :
    Refuses quotedString c f ↔
      c.isAt quotes = false ∧ f = ⟨.notString, c.loc⟩ ∨
        c.isAt quotes = true ∧ (c.advance.takeQuoted c.current).2.eof = true ∧
          f = ⟨.unterminatedString, c.loc⟩ := by
  simp only [quotedString, bind_refuses_iff, not_location_refuses, location_eq_ok_iff,
    ensureHere_refuses_iff, ensureHere_eq_ok_iff, not_take_refuses, take_eq_ok_iff,
    not_takeQuoted_refuses, takeQuoted_eq_ok_iff, ensure_refuses_iff, not_pure_refuses, and_false,
    exists_false, or_false, false_or, Bool.not_eq_false']
  constructor
  · rintro ⟨_, _, ⟨rfl, rfl⟩, h | ⟨_, _, ⟨hat, rfl⟩, _, _, ⟨rfl, rfl⟩, _, _, ⟨rfl, rfl⟩, heof, rfl⟩⟩
    · exact Or.inl h
    · exact Or.inr ⟨hat, heof, rfl⟩
  · rintro (h | ⟨hat, heof, rfl⟩)
    · exact ⟨_, _, ⟨rfl, rfl⟩, Or.inl h⟩
    · exact ⟨_, _, ⟨rfl, rfl⟩, Or.inr ⟨(), _, ⟨hat, rfl⟩, _, _, ⟨rfl, rfl⟩, _, _, ⟨rfl, rfl⟩, heof,
        rfl⟩⟩

/-- A comment that ends with its line, or with the source, does not fail once
    it has begun. -/
theorem lineComment_refuses_iff :
    Refuses lineComment c f ↔
      c.isAt [Marker.lineComment] = false ∧ f = ⟨.notCodeComment, c.loc⟩ := by
  simp only [lineComment, bind_refuses_iff, ensureHere_refuses_iff, not_takeUntil_refuses,
    not_get_refuses, ite_refuses_iff, not_take_refuses, not_pure_refuses, and_false, exists_false,
    or_false]

theorem blockComment_refuses_iff :
    Refuses blockComment c f ↔
      c.isAt [Marker.blockOpen] = false ∧ f = ⟨.notCodeComment, c.loc⟩ ∨
        c.isAt [Marker.blockOpen] = true ∧ (c.takeUntil [Marker.blockClose]).2.eof = true ∧
          f = ⟨.unterminatedBlock, c.loc⟩ := by
  simp only [blockComment, bind_refuses_iff, not_location_refuses, location_eq_ok_iff,
    ensureHere_refuses_iff, ensureHere_eq_ok_iff, not_takeUntil_refuses, takeUntil_eq_ok_iff,
    ensure_refuses_iff, not_take_refuses, not_pure_refuses, and_false, exists_false, or_false,
    false_or, Bool.not_eq_false']
  constructor
  · rintro ⟨_, _, ⟨rfl, rfl⟩, h | ⟨_, _, ⟨hat, rfl⟩, _, _, ⟨rfl, rfl⟩, heof, rfl⟩⟩
    · exact Or.inl h
    · exact Or.inr ⟨hat, heof, rfl⟩
  · rintro (h | ⟨hat, heof, rfl⟩)
    · exact ⟨_, _, ⟨rfl, rfl⟩, Or.inl h⟩
    · exact ⟨_, _, ⟨rfl, rfl⟩, Or.inr ⟨(), _, ⟨hat, rfl⟩, _, _, ⟨rfl, rfl⟩, heof, rfl⟩⟩

theorem comment_refuses_iff :
    Refuses comment c f ↔
      c.isAt [Marker.commentOpen] = false ∧ f = ⟨.notComment, c.loc⟩ ∨
        c.isAt [Marker.commentOpen] = true ∧
          (c.advance.takeUntil [Marker.commentClose]).2.eof = true ∧
          f = ⟨.unterminatedComment, c.loc⟩ := by
  simp only [comment, bind_refuses_iff, not_location_refuses, location_eq_ok_iff,
    ensureHere_refuses_iff, ensureHere_eq_ok_iff, not_advance_refuses, advance_eq_ok_iff,
    not_takeUntil_refuses, takeUntil_eq_ok_iff, ensure_refuses_iff, not_pure_refuses, and_false,
    exists_false, or_false, false_or, Bool.not_eq_false']
  constructor
  · rintro ⟨_, _, ⟨rfl, rfl⟩, h | ⟨_, _, ⟨hat, rfl⟩, _, _, rfl, _, _, ⟨rfl, rfl⟩, heof, rfl⟩⟩
    · exact Or.inl h
    · exact Or.inr ⟨hat, heof, rfl⟩
  · rintro (h | ⟨hat, heof, rfl⟩)
    · exact ⟨_, _, ⟨rfl, rfl⟩, Or.inl h⟩
    · exact ⟨_, _, ⟨rfl, rfl⟩, Or.inr ⟨(), _, ⟨hat, rfl⟩, ⟨⟩, _, rfl, _, _, ⟨rfl, rfl⟩, heof, rfl⟩⟩

/-! ### Code -/

theorem group_refuses_iff {d : Draft} :
    Refuses (group inner) d f ↔
      d.cursor.closer? = none ∧ f = ⟨.notGroup, d.cursor.loc⟩ ∨
        ∃ close, d.cursor.closer? = some close ∧
          (Refuses (many (fun d => d.cursor.eof || d.cursor.isAt [close]) (groupPiece inner)
              inner.depth) { cursor := d.cursor.advance, run := d.run.append d.cursor.current } f ∨
            ∃ as d₁, many (fun d => d.cursor.eof || d.cursor.isAt [close]) (groupPiece inner)
                inner.depth { cursor := d.cursor.advance, run := d.run.append d.cursor.current } =
                  .ok as d₁ ∧
              d₁.cursor.eof = true ∧ f = ⟨.unterminatedGroup, d.cursor.loc⟩) := by
  rw [group, get_bind_refuses_iff]
  cases hclose : d.cursor.closer? with
  | none =>
      simp only [hclose, Drafting.read_refuses_iff, failHere_refuses_iff, true_and, reduceCtorEq,
        false_and, exists_false, or_false]
  | some close =>
      simp only [hclose, bind_refuses_iff, Drafting.write_refuses_iff, Drafting.write_eq_ok_iff,
        Drafting.read_refuses_iff, not_take_refuses, take_eq_ok_iff, ensure_refuses_iff, and_false,
        exists_false, or_false, false_or, Bool.not_eq_false', reduceCtorEq, false_and,
        Option.some.injEq]
      constructor
      · rintro ⟨_, _, ⟨_, _, ⟨rfl, rfl⟩, rfl⟩, h⟩
        exact ⟨close, rfl, h⟩
      · rintro ⟨_, rfl, h⟩
        exact ⟨(), _, ⟨_, _, ⟨rfl, rfl⟩, rfl⟩, h⟩

theorem openCode_refuses_iff :
    Refuses (openCode inner) c f ↔
      Refuses (many (fun d => d.cursor.eof || (d.cursor.matched? Pattern.codeEnd).isSome)
          (openPiece inner) inner.depth) { cursor := c, run := { loc := c.loc } } f ∨
        ∃ as run c', many (fun d => d.cursor.eof || (d.cursor.matched? Pattern.codeEnd).isSome)
              (openPiece inner) inner.depth { cursor := c, run := { loc := c.loc } } =
            .ok as { cursor := c', run } ∧
          run.flush.segments = [] ∧ f = ⟨.notCode, c.loc⟩ := by
  simp only [openCode, bind_refuses_iff, not_location_refuses, location_eq_ok_iff,
    collect_refuses_iff, collect_eq_ok_iff, ensure_refuses_iff, not_pure_refuses, and_false,
    exists_false, or_false, false_or, Bool.not_eq_false', List.isEmpty_iff]
  constructor
  · rintro ⟨_, _, ⟨rfl, rfl⟩, h | ⟨run, c', ⟨as, hmany⟩, hnil, rfl⟩⟩
    · exact Or.inl h
    · exact Or.inr ⟨as, run, c', hmany, hnil, rfl⟩
  · rintro (h | ⟨as, run, c', hmany, hnil, rfl⟩)
    · exact ⟨_, _, ⟨rfl, rfl⟩, Or.inl h⟩
    · exact ⟨_, _, ⟨rfl, rfl⟩, Or.inr ⟨run, c', ⟨as, hmany⟩, hnil, rfl⟩⟩

theorem bracedCode_refuses_iff :
    Refuses (bracedCode inner) c f ↔
      c.isAt [['{'], Marker.spread] = false ∧ f = ⟨.notBracedCode, c.loc⟩ ∨
        c.isAt [['{'], Marker.spread] = true ∧
          Refuses inner.group { cursor := c, run := { loc := c.loc } } f := by
  simp only [bracedCode, bind_refuses_iff, ensureHere_refuses_iff, ensureHere_eq_ok_iff,
    not_get_refuses, get_eq_ok_iff, collect_refuses_iff, not_pure_refuses, and_false, exists_false,
    or_false, false_or]
  constructor
  · rintro (h | ⟨_, _, ⟨hat, rfl⟩, _, _, ⟨rfl, rfl⟩, h⟩)
    · exact Or.inl h
    · exact Or.inr ⟨hat, h⟩
  · rintro (h | ⟨hat, h⟩)
    · exact Or.inl h
    · exact Or.inr ⟨(), _, ⟨hat, rfl⟩, _, _, ⟨rfl, rfl⟩, h⟩

theorem topLevel_refuses_iff :
    Refuses (topLevel inner) c f ↔
      Refuses (many (·.cursor.eof) (piece inner (Drafting.write take)) inner.depth)
        { cursor := c, run := { loc := c.loc } } f := by
  simp only [topLevel, bind_refuses_iff, not_location_refuses, location_eq_ok_iff,
    collect_refuses_iff, not_pure_refuses, and_false, exists_false, or_false, false_or]
  constructor
  · rintro ⟨_, _, ⟨rfl, rfl⟩, h⟩
    exact h
  · intro h
    exact ⟨_, _, ⟨rfl, rfl⟩, h⟩

/-- Code behind a mark that stands there fails as the code does. -/
theorem code_behind_mark_refuses_iff {α : Type} {make : Code → Location → α} {cause : Cause}
    (hat : c.isAt [['@']] = true) :
    Refuses (do
      ensureHere (·.isAt [['@']]) cause
      let loc ← location
      advance
      return make (← openCode inner) loc : Read α) c f ↔ Refuses (openCode inner) c.advance f := by
  simp only [bind_refuses_iff, ensureHere_refuses_iff, ensureHere_eq_ok_iff, hat,
    not_location_refuses, location_eq_ok_iff, not_advance_refuses, advance_eq_ok_iff,
    not_pure_refuses, Bool.true_eq_false, false_and, and_false, exists_false, or_false, false_or,
    true_and]
  constructor
  · rintro ⟨_, _, rfl, _, _, ⟨rfl, rfl⟩, _, _, rfl, h⟩
    exact h
  · intro h
    exact ⟨(), _, rfl, _, _, ⟨rfl, rfl⟩, ⟨⟩, _, rfl, h⟩

/-! ### Attributes -/

/-- A property that begins with its name fails in its value: in a string, at
    what is no value of the grammar, or in code. -/
theorem property_refuses_iff (hid : (c.matched? Pattern.identifier).isSome = true) :
    Refuses (property g inner) c f ↔
      c.pastName.isAt [['=']] = true ∧
        (c.pastName.pastSign.isAt quotes = true ∧ Refuses quotedString c.pastName.pastSign f ∨
          c.pastName.pastSign.isAt quotes = false ∧
            (g = .brace ∧ c.pastName.pastSign.isAt [['{']] = false ∧
                f = ⟨.unexpectedValue, c.pastName.pastSign.loc⟩ ∨
              (g = .brace → c.pastName.pastSign.isAt [['{']] = true) ∧
                Refuses (code g inner) c.pastName.pastSign f)) := by
  have hsome : ∀ b : Bool, (decide (g = .sigil) || b) = true ↔ (g = .brace → b = true) := by
    intro b
    cases g <;> simp
  have hnone : ∀ b : Bool, (decide (g = .sigil) || b) = false ↔ g = .brace ∧ b = false := by
    intro b
    cases g <;> simp
  simp only [property, bind_refuses_iff, ensureHere_refuses_iff, ensureHere_eq_ok_iff, hid,
    not_location_refuses, location_eq_ok_iff, not_split_refuses, split_eq_ok_iff,
    not_skipBlank_refuses, skipBlank_eq_ok_iff, not_get_refuses, get_eq_ok_iff, ite_refuses_iff,
    not_advance_refuses, advance_eq_ok_iff, not_pure_refuses, Bool.true_eq_false, Bool.not_eq_true,
    false_and, and_false, exists_false, or_false, false_or, true_and, hsome, hnone]
  constructor
  · rintro ⟨_, _, rfl, _, _, ⟨rfl, rfl⟩, _, _, ⟨rfl, rfl⟩, _, _, rfl, _, _, ⟨rfl, rfl⟩, heq, _, _,
      rfl, _, _, rfl, _, _, ⟨rfl, rfl⟩, h⟩
    refine ⟨heq, ?_⟩
    rcases h with h | ⟨hquote, ⟨⟨hg, hat⟩, rfl⟩ | ⟨_, _, ⟨hat, rfl⟩, h⟩⟩
    · exact Or.inl h
    · exact Or.inr ⟨hquote, Or.inl ⟨hg, hat, rfl⟩⟩
    · exact Or.inr ⟨hquote, Or.inr ⟨hat, h⟩⟩
  · rintro ⟨heq, h⟩
    refine ⟨(), _, rfl, _, _, ⟨rfl, rfl⟩, _, _, ⟨rfl, rfl⟩, ⟨⟩, _, rfl, _, _, ⟨rfl, rfl⟩, heq, ⟨⟩,
      _, rfl, ⟨⟩, _, rfl, _, _, ⟨rfl, rfl⟩, ?_⟩
    rcases h with h | ⟨hquote, ⟨hg, hat, rfl⟩ | ⟨hat, h⟩⟩
    · exact Or.inl h
    · exact Or.inr ⟨hquote, Or.inl ⟨⟨hg, hat⟩, rfl⟩⟩
    · exact Or.inr ⟨hquote, Or.inr ⟨(), _, ⟨hat, rfl⟩, h⟩⟩

theorem mixin_refuses_iff (hat : c.isAt [g.mixinMark] = true) :
    Refuses (mixin g inner) c f ↔ Refuses (code g inner) (g.behindMark c) f := by
  cases g with
  | sigil => exact code_behind_mark_refuses_iff hat
  | brace =>
      have hmark : c.isAt [Marker.spread] = true := hat
      simp only [mixin, bracedMixin, bind_refuses_iff, ensureHere_refuses_iff, ensureHere_eq_ok_iff,
        hmark, not_location_refuses, location_eq_ok_iff, not_pure_refuses, Bool.true_eq_false,
        false_and, and_false, exists_false, or_false, false_or, true_and, code, Grammar.behindMark]
      constructor
      · rintro ⟨_, _, rfl, _, _, ⟨rfl, rfl⟩, h⟩
        exact h
      · intro h
        exact ⟨(), _, rfl, _, _, ⟨rfl, rfl⟩, h⟩

/-- An entry of a tag fails as the property or the mixin that it is, or
    because it is neither. -/
theorem tagEntry_refuses_iff :
    Refuses (tagEntry g inner) c f ↔
      (c.matched? Pattern.identifier).isSome = true ∧ Refuses (property g inner) c f ∨
        (c.matched? Pattern.identifier).isSome = false ∧ c.isAt [g.mixinMark] = true ∧
          Refuses (code g inner) (g.behindMark c) f ∨
        (c.matched? Pattern.identifier).isSome = false ∧ c.isAt [g.mixinMark] = false ∧
          f = ⟨.unrecognizedEntry, c.loc⟩ := by
  rw [tagEntry, get_bind_refuses_iff]
  simp only [ite_refuses_iff, failHere_refuses_iff, Bool.not_eq_true]
  constructor
  · rintro (h | ⟨hid, ⟨hat, h⟩ | h⟩)
    · exact Or.inl h
    · exact Or.inr (Or.inl ⟨hid, hat, (mixin_refuses_iff hat).mp h⟩)
    · exact Or.inr (Or.inr ⟨hid, h⟩)
  · rintro (h | ⟨hid, hat, h⟩ | ⟨hid, h⟩)
    · exact Or.inl h
    · exact Or.inr ⟨hid, Or.inl ⟨hat, (mixin_refuses_iff hat).mpr h⟩⟩
    · exact Or.inr ⟨hid, Or.inr h⟩

theorem spacedEntry_refuses_iff :
    Refuses (spacedEntry g inner) c f ↔ Refuses (tagEntry g inner) c f := by
  simp only [spacedEntry, bind_refuses_iff, not_skipBlank_refuses, not_pure_refuses, and_false,
    exists_false, or_false]

/-! ### Content -/

theorem insertion_refuses_iff (hat : c.isAt [g.insertionMark] = true) :
    Refuses (insertion g inner) c f ↔ Refuses (code g inner) (g.behindMark c) f := by
  cases g with
  | sigil => exact code_behind_mark_refuses_iff hat
  | brace =>
      simp only [insertion, bracedInsertion, bind_refuses_iff, not_location_refuses,
        location_eq_ok_iff, not_pure_refuses, and_false, exists_false, or_false, false_or, code,
        Grammar.behindMark]
      constructor
      · rintro ⟨_, _, ⟨rfl, rfl⟩, h⟩
        exact h
      · intro h
        exact ⟨_, _, ⟨rfl, rfl⟩, h⟩

/-- An entry of content fails as the element, the insertion or the comment
    that begins here; text does not fail. -/
theorem child_refuses_iff :
    Refuses (child g inner) c f ↔
      c.isAt [['<']] = true ∧ Refuses inner.element c f ∨
      c.isAt [['<']] = false ∧ c.isAt [g.insertionMark] = true ∧
        Refuses (code g inner) (g.behindMark c) f ∨
      c.isAt [['<']] = false ∧ c.isAt [g.insertionMark] = false ∧
        c.isAt [Marker.commentOpen] = true ∧ Refuses comment c f := by
  rw [child, get_bind_refuses_iff]
  simp only [ite_refuses_iff, bind_refuses_iff, text, not_takeUntil_refuses, not_pure_refuses,
    and_false, exists_false, or_false, Bool.not_eq_true]
  constructor
  · rintro (h | ⟨hopen, ⟨hmark, h⟩ | h⟩)
    · exact Or.inl h
    · exact Or.inr (Or.inl ⟨hopen, hmark, (insertion_refuses_iff hmark).mp h⟩)
    · exact Or.inr (Or.inr ⟨hopen, h⟩)
  · rintro (h | ⟨hopen, hmark, h⟩ | ⟨hopen, h⟩)
    · exact Or.inl h
    · exact Or.inr ⟨hopen, Or.inl ⟨hmark, (insertion_refuses_iff hmark).mpr h⟩⟩
    · exact Or.inr ⟨hopen, Or.inr h⟩

/-! ### Elements -/

theorem tagName_refuses_iff {start : Location} :
    Refuses (tagName start) c f ↔ c.name = [] ∧ f = ⟨.badName, start⟩ := by
  simp only [tagName, bind_refuses_iff, not_split_refuses, split_eq_ok_iff, ensure_refuses_iff,
    not_pure_refuses, and_false, exists_false, or_false, false_or, Bool.not_eq_false',
    List.isEmpty_iff]
  constructor
  · rintro ⟨_, _, ⟨rfl, rfl⟩, h⟩
    exact h
  · intro h
    exact ⟨_, _, ⟨rfl, rfl⟩, h⟩

/-- The end of an element fails where there is none, at a name that is not
    that of the element, or behind the name. -/
theorem endTag_refuses_iff {tag : List Char} {start : Location} :
    Refuses (endTag tag start) c f ↔
      c.eof = true ∧ f = ⟨.missingEndTag, start⟩ ∨
        c.eof = false ∧
          (c.advance.name ≠ tag ∧ f = ⟨.mismatchedTags, start⟩ ∨
            c.advance.name = tag ∧ (c.advance.split Pattern.identifier).2.isAt [['>']] = false ∧
              f = ⟨.malformedEndTag, (c.advance.split Pattern.identifier).2.loc⟩) := by
  simp only [endTag, bind_refuses_iff, ensure_refuses_iff, ensure_eq_ok_iff, not_advance_refuses,
    advance_eq_ok_iff, not_split_refuses, split_eq_ok_iff, ensureHere_refuses_iff,
    ensureHere_eq_ok_iff, and_false, exists_false, or_false, false_or, Bool.not_eq_false',
    Bool.not_eq_true', decide_eq_true_eq, decide_eq_false_iff_not]
  constructor
  · rintro (h | ⟨_, _, ⟨heof, rfl⟩, _, _, rfl, _, _, ⟨rfl, rfl⟩, h | ⟨_, _, ⟨hname, rfl⟩, h⟩⟩)
    · exact Or.inl h
    · exact Or.inr ⟨heof, Or.inl h⟩
    · exact Or.inr ⟨heof, Or.inr ⟨hname, h⟩⟩
  · rintro (h | ⟨heof, h | ⟨hname, h⟩⟩)
    · exact Or.inl h
    · exact Or.inr ⟨(), _, ⟨heof, rfl⟩, ⟨⟩, _, rfl, _, _, ⟨rfl, rfl⟩, Or.inl h⟩
    · exact Or.inr ⟨(), _, ⟨heof, rfl⟩, ⟨⟩, _, rfl, _, _, ⟨rfl, rfl⟩,
        Or.inr ⟨(), _, ⟨hname, rfl⟩, h⟩⟩

/-- An element fails at its name, in its entries, at the end of its tag, in
    its content, or at its end. -/
theorem element_refuses_iff (hat : c.isAt [['<']] = true) :
    Refuses (element g inner) c f ↔
      c.advance.name = [] ∧ f = ⟨.badName, c.loc⟩ ∨
        c.advance.name ≠ [] ∧
          (Refuses (many Cursor.tagEnds (spacedEntry g inner) inner.depth) c.advance.pastName f ∨
            ∃ as c₁, many Cursor.tagEnds (spacedEntry g inner) inner.depth c.advance.pastName =
                .ok as c₁ ∧
              (c₁.eof = true ∧ f = ⟨.unterminatedTag, c.loc⟩ ∨
                c₁.eof = false ∧ c₁.current ≠ Marker.emptyClose ∧
                  (Refuses (many Cursor.contentEnds (child g inner) inner.depth) c₁.advance f ∨
                    ∃ xs c₂, many Cursor.contentEnds (child g inner) inner.depth c₁.advance =
                        .ok xs c₂ ∧
                      Refuses (endTag c.advance.name c.loc) c₂ f))) := by
  simp only [element, bind_refuses_iff, not_location_refuses, location_eq_ok_iff,
    ensureHere_refuses_iff, ensureHere_eq_ok_iff, not_advance_refuses, advance_eq_ok_iff,
    tagName_refuses_iff, tagName_eq_ok_iff, not_skipBlank_refuses, skipBlank_eq_ok_iff,
    ensure_refuses_iff, ensure_eq_ok_iff, not_take_refuses, take_eq_ok_iff, ite_refuses_iff,
    not_pure_refuses, Bool.not_eq_true', Bool.not_eq_false', and_false, exists_false, or_false,
    false_or]
  constructor
  · rintro ⟨_, _, ⟨rfl, rfl⟩, ⟨hnot, _⟩ | ⟨_, _, ⟨_, rfl⟩, _, _, rfl, h⟩⟩
    · exact absurd (hat.symm.trans hnot) Bool.true_eq_false.mp
    rcases h with h | ⟨_, _, ⟨hne, rfl, rfl⟩, _, _, rfl, h⟩
    · exact Or.inl h
    refine Or.inr ⟨hne, ?_⟩
    rcases h with h | ⟨as, c₁, has, h | ⟨_, _, ⟨heof, rfl⟩, _, _, ⟨rfl, rfl⟩, hmark, h⟩⟩
    · exact Or.inl h
    · exact Or.inr ⟨as, c₁, has, Or.inl h⟩
    · exact Or.inr ⟨as, _, has, Or.inr ⟨heof, hmark, h⟩⟩
  · intro h
    refine ⟨_, _, ⟨rfl, rfl⟩, Or.inr ⟨(), _, ⟨hat, rfl⟩, ⟨⟩, _, rfl, ?_⟩⟩
    rcases h with h | ⟨hne, h⟩
    · exact Or.inl h
    refine Or.inr ⟨_, _, ⟨hne, rfl, rfl⟩, ⟨⟩, _, rfl, ?_⟩
    rcases h with h | ⟨as, c₁, has, h | ⟨heof, hmark, h⟩⟩
    · exact Or.inl h
    · exact Or.inr ⟨as, c₁, has, Or.inl h⟩
    · exact Or.inr ⟨as, c₁, has, Or.inr ⟨(), _, ⟨heof, rfl⟩, _, _, ⟨rfl, rfl⟩, hmark, h⟩⟩

end Rule

end Inlay
