import Inlay.Proofs.Adequacy
import Mathlib.Logic.Relation

/-!
# Tasks and Failure

The grammar as a relation has nothing to say where reading fails, since a
phrase that is not read has no derivation. This module describes the other
half. Reading is a matter of tasks, each of which is something to be read at
some cursor. A task is worked on by entering further tasks (`Enters`), one
step for each place where a rule calls another one or repeats itself. Whatever
has been read before such a place has a derivation, which the step asks for.

A task that fails has entered, step by step, one that fails by itself, without
anything it enters being to blame. `Raises` lists the ways of the latter, one
for each place where a failure can originate. It has fewer rules than there
are causes. A cause that no rule names is a guard, which the task it belongs
to already implies.

The chain of tasks from the start of a source is also what makes sense of a
point of the reading: a property of all points that are ever reached is an
invariant of `Enters`.

## Main definitions

* `Goal`, `Task`: Something to be read at some cursor.
* `Task.source`: The task that a parse begins with.
* `Enters`: The tasks that a task leads to.
* `Raises`: The failures of a task itself.
* `Reaches`, `Fails`: What lies behind a chain of tasks.

## Theorems

* `Reaches.invariant`: What every step preserves holds of all that is reached.
* `Enters.fails`: A task fails as the tasks that it enters.
-/

namespace Inlay

/-- What there is to be read. -/
inductive Goal where
  | piece (z : Zone)
  | pieces (z : Zone)
  | group
  | code
  | entry
  | entries
  | child
  | children
  | element
deriving DecidableEq

/-- Something to be read at some cursor. -/
structure Task where
  goal : Goal
  cursor : Cursor
deriving DecidableEq

/-- A whole source is to be read, from its start. -/
def Task.source (s : List Char) : Task :=
  ⟨.pieces .source, Cursor.ofTexts ((tokenize s).map Fragment.text)⟩

/-- The tag of the element at `c` has been read, up to `c₁`. -/
def TagRead (g : Grammar) (c c₁ : Cursor) : Prop :=
  c.isAt [['<']] = true ∧ c.advance.name ≠ [] ∧
    ∃ as, Derives g c.advance.pastName (.entries as) c₁

/-- The tag and the content of the element at `c` have been read, up to `c₂`. -/
def ContentRead (g : Grammar) (c c₂ : Cursor) : Prop :=
  ∃ c₁ xs, TagRead g c c₁ ∧ c₁.isAt [['>']] = true ∧ Derives g c₁.advance (.children xs) c₂

/-- Content is read up to an end tag, or to the end. -/
theorem ContentRead.isAt_endOpen {g : Grammar} {c c₂ : Cursor} (h : ContentRead g c c₂)
    (heof : c₂.eof = false) : c₂.isAt [Marker.endOpen] = true := by
  rcases h with ⟨c₁, xs, _, _, hxs⟩
  have hend : c₂.contentEnds = true := Rule.many_ends
    (hxs.runs (c₁.advance.size + 1) (c₁.advance.size + 1) (Nat.lt_succ_self _) (Nat.lt_succ_self _))
  rwa [Cursor.contentEnds, heof, Bool.false_or] at hend

/-- The value of the property at `c` is to be read next. -/
def ValueNext (c : Cursor) : Prop :=
  (c.matched? Pattern.identifier).isSome = true ∧ c.pastName.isAt [['=']] = true

/-- Work on the first task leads to the second. -/
inductive Enters (g : Grammar) : Task → Task → Prop where
  | inlay {z : Zone} {c : Cursor} :
    z ≠ .unnested → c.isAt [['<']] = true → Enters g ⟨.piece z, c⟩ ⟨.element, c⟩
  | nest {z : Zone} {c : Cursor} :
    z ≠ .source → c.closer?.isSome = true → Enters g ⟨.piece z, c⟩ ⟨.group, c⟩
  | piece {z : Zone} {c : Cursor} :
    z.ends c = false → Enters g ⟨.pieces z, c⟩ ⟨.piece z, c⟩
  | pieces {z : Zone} {c c₁ : Cursor} {ps : List Piece} :
    z.ends c = false → Derives g c (.piece z ps) c₁ → Enters g ⟨.pieces z, c⟩ ⟨.pieces z, c₁⟩
  | group {c : Cursor} {close : List Char} :
    c.closer? = some close → Enters g ⟨.group, c⟩ ⟨.pieces (.group close), c.advance⟩
  | openCode {c : Cursor} :
    g = .sigil → Enters g ⟨.code, c⟩ ⟨.pieces .unnested, c⟩
  | bracedCode {c : Cursor} :
    g = .brace → c.isAt [['{'], Marker.spread] = true → Enters g ⟨.code, c⟩ ⟨.group, c⟩
  | computed {c : Cursor} :
    ValueNext c → c.pastName.pastSign.isAt quotes = false →
      (g = .brace → c.pastName.pastSign.isAt [['{']] = true) →
      Enters g ⟨.entry, c⟩ ⟨.code, c.pastName.pastSign⟩
  | mixin {c : Cursor} :
    (c.matched? Pattern.identifier).isSome = false → c.isAt [g.mixinMark] = true →
      Enters g ⟨.entry, c⟩ ⟨.code, g.behindMark c⟩
  | entry {c : Cursor} :
    c.tagEnds = false → Enters g ⟨.entries, c⟩ ⟨.entry, c⟩
  | entries {c c₁ : Cursor} {a : Attribute} :
    c.tagEnds = false → Derives g c (.entry a) c₁ →
      Enters g ⟨.entries, c⟩ ⟨.entries, c₁.skipBlank⟩
  | childElement {c : Cursor} :
    c.isAt [['<']] = true → Enters g ⟨.child, c⟩ ⟨.element, c⟩
  | insertion {c : Cursor} :
    c.isAt [g.insertionMark] = true → Enters g ⟨.child, c⟩ ⟨.code, g.behindMark c⟩
  | child {c : Cursor} :
    c.contentEnds = false → Enters g ⟨.children, c⟩ ⟨.child, c⟩
  | children {c c₁ : Cursor} {x : Child} :
    c.contentEnds = false → Derives g c (.child x) c₁ → Enters g ⟨.children, c⟩ ⟨.children, c₁⟩
  | tag {c : Cursor} :
    c.isAt [['<']] = true → c.advance.name ≠ [] →
      Enters g ⟨.element, c⟩ ⟨.entries, c.advance.pastName⟩
  | content {c c₁ : Cursor} :
    TagRead g c c₁ → c₁.isAt [['>']] = true → Enters g ⟨.element, c⟩ ⟨.children, c₁.advance⟩

/-- A task fails by itself. -/
inductive Raises (g : Grammar) : Task → Failure → Prop where
  | string {z : Zone} {c : Cursor} :
    c.isAt quotes = true → (c.advance.takeQuoted c.current).2.eof = true →
      Raises g ⟨.piece z, c⟩ ⟨.unterminatedString, c.loc⟩
  | block {z : Zone} {c : Cursor} :
    z ≠ .unnested → c.isAt [Marker.blockOpen] = true →
      (c.takeUntil [Marker.blockClose]).2.eof = true →
      Raises g ⟨.piece z, c⟩ ⟨.unterminatedBlock, c.loc⟩
  | group {c c₁ : Cursor} {close : List Char} {ps : List Piece} :
    c.closer? = some close → Derives g c.advance (.pieces (.group close) ps) c₁ →
      c₁.eof = true → Raises g ⟨.group, c⟩ ⟨.unterminatedGroup, c.loc⟩
  | code {c : Cursor} :
    g = .sigil → Zone.unnested.ends c = true → Raises g ⟨.code, c⟩ ⟨.notCode, c.loc⟩
  | quoted {c : Cursor} :
    ValueNext c → c.pastName.pastSign.isAt quotes = true →
      (c.pastName.pastSign.advance.takeQuoted c.pastName.pastSign.current).2.eof = true →
      Raises g ⟨.entry, c⟩ ⟨.unterminatedString, c.pastName.pastSign.loc⟩
  | value {c : Cursor} :
    g = .brace → ValueNext c → c.pastName.pastSign.isAt quotes = false →
      c.pastName.pastSign.isAt [['{']] = false →
      Raises g ⟨.entry, c⟩ ⟨.unexpectedValue, c.pastName.pastSign.loc⟩
  | entry {c : Cursor} :
    (c.matched? Pattern.identifier).isSome = false → c.isAt [g.mixinMark] = false →
      Raises g ⟨.entry, c⟩ ⟨.unrecognizedEntry, c.loc⟩
  | comment {c : Cursor} :
    c.isAt [Marker.commentOpen] = true →
      (c.advance.takeUntil [Marker.commentClose]).2.eof = true →
      Raises g ⟨.child, c⟩ ⟨.unterminatedComment, c.loc⟩
  | name {c : Cursor} :
    c.isAt [['<']] = true → c.advance.name = [] → Raises g ⟨.element, c⟩ ⟨.badName, c.loc⟩
  | tag {c c₁ : Cursor} :
    TagRead g c c₁ → c₁.eof = true → Raises g ⟨.element, c⟩ ⟨.unterminatedTag, c.loc⟩
  | content {c c₂ : Cursor} :
    ContentRead g c c₂ → c₂.eof = true → Raises g ⟨.element, c⟩ ⟨.missingEndTag, c.loc⟩
  | endName {c c₂ : Cursor} :
    ContentRead g c c₂ → c₂.eof = false → c₂.advance.name ≠ c.advance.name →
      Raises g ⟨.element, c⟩ ⟨.mismatchedTags, c.loc⟩
  | endTag {c c₂ : Cursor} :
    ContentRead g c c₂ → c₂.eof = false → c₂.advance.name = c.advance.name →
      (c₂.advance.split Pattern.identifier).2.isAt [['>']] = false →
      Raises g ⟨.element, c⟩ ⟨.malformedEndTag, (c₂.advance.split Pattern.identifier).2.loc⟩

/-- Work on the first task leads to the second, in some number of steps. -/
def Reaches (g : Grammar) : Task → Task → Prop :=
  Relation.ReflTransGen (Enters g)

/-- Work on a task leads to one that fails. -/
def Fails (g : Grammar) (t : Task) (f : Failure) : Prop :=
  ∃ t', Reaches g t t' ∧ Raises g t' f

section

variable {g : Grammar} {t t' : Task} {f : Failure}

theorem Raises.fails (h : Raises g t f) : Fails g t f :=
  ⟨t, Relation.ReflTransGen.refl, h⟩

/-- A task fails as the tasks that it enters. -/
theorem Enters.fails (h : Enters g t t') (hf : Fails g t' f) : Fails g t f := by
  rcases hf with ⟨u, hreach, hraise⟩
  exact ⟨u, hreach.head h, hraise⟩

/-- What every step preserves holds of all that is reached. -/
theorem Reaches.invariant {I : Task → Prop} (hstep : ∀ {t t'}, Enters g t t' → I t → I t')
    (h : Reaches g t t') (ht : I t) : I t' := by
  induction h with
  | refl => exact ht
  | tail _ henter ih => exact hstep henter ih

end

end Inlay
