import Inlay.Proofs.Termination
import Mathlib.Logic.Relation

/-!
# Where a Cursor Stands

A cursor never loses its place. Whatever is done with it, in any order, and
also where a call fails or the end has been reached: it stands in one of its
fragments, and the fragments are what is in front of its offset, followed by
what is left of the fragment it stands in, followed by the later ones.

All reading moves a cursor in two ways, by stepping past the current fragment
and by peeling a stretch off it. That a computation moves it in no other way
(`Travels`) is shown once for each rule of the grammar, and it says the same
about success and about failure, since a cursor survives both. Anything that
the two ways preserve is then an invariant of every rule and of every sequence
of calls.

## Main definitions

* `Cursor.Step`, `Cursor.Moves`: The ways in which a cursor moves.
* `Travels`: A computation that moves its cursor in these ways only.
* `Cursor.Follows`: A cursor that stands in one of some fragments.
* `Cursor.Call`, `Cursor.afterAll`: What can be done with a cursor.
* `Cursor.InPlace`: What it is not to lose its place.

## Theorems

* `Rule.nested_travels`: Everything that nests moves the cursor by steps.
* `Cursor.Step.follows`: A step leaves the cursor in one of the fragments.
* `Cursor.Call.moves`: A call moves the cursor by steps.
* `Cursor.afterAll_inPlace`: Calls never make a cursor lose its place.
-/

namespace Inlay

/-! ### Steps -/

namespace Cursor

/-- The two ways in which a cursor moves. -/
inductive Step : Cursor → Cursor → Prop
  | advance (c : Cursor) : Step c c.advance
  | split (p : Pattern) (c : Cursor) : Step c (c.split p).2

/-- A cursor is moved by any number of steps. -/
def Moves : Cursor → Cursor → Prop :=
  Relation.ReflTransGen Step

theorem Moves.refl (c : Cursor) : c.Moves c :=
  Relation.ReflTransGen.refl

theorem moves_advance (c : Cursor) : c.Moves c.advance :=
  .single (.advance c)

theorem moves_split (p : Pattern) (c : Cursor) : c.Moves (c.split p).2 :=
  .single (.split p c)

theorem moves_skipBlank (c : Cursor) : c.Moves c.skipBlank := by
  -- Along the passes of the loop, each of which leaves less unread.
  induction hm : c.size using Nat.strongRecOn generalizing c with
  | _ m ih =>
  rcases c.skipBlank_step with heq | ⟨c₁, hstep, hless, heq⟩
  · rw [heq]
    exact .refl c
  · have hmoves : c.Moves c₁ := by
      rcases hstep with rfl | rfl
      · exact c.moves_advance
      · exact c.moves_split Pattern.blanks
    rw [heq]
    exact hmoves.trans (ih c₁.size (by rw [← hm]; exact hless) c₁ rfl)

theorem moves_takeUntil (stops : List (List Char)) (c : Cursor) :
    c.Moves (c.takeUntil stops).2 := by
  induction hm : c.size using Nat.strongRecOn generalizing c with
  | _ m ih =>
  rcases c.takeUntil_step stops with heq | ⟨hless, heq⟩
  · rw [heq]
    exact .refl c
  · rw [heq]
    exact c.moves_advance.trans (ih c.advance.size (by rw [← hm]; exact hless) c.advance rfl)

theorem moves_takeQuotedFrom (quote text : List Char) (c : Cursor) :
    c.Moves (takeQuotedFrom quote text c.unread c.index c.loc).2 := by
  induction hm : c.size using Nat.strongRecOn generalizing c text with
  | _ m ih =>
  rcases c.takeQuoted_step quote text with heq | ⟨hless, heq⟩
  · rw [heq]
    exact .refl c
  · rw [heq]
    exact c.moves_advance.trans
      (ih c.advance.size (by rw [← hm]; exact hless) (text ++ c.current) c.advance rfl)

end Cursor

/-! ### Computations that move a cursor by steps -/

/-- The state that a computation leaves, whether it succeeded or stopped. -/
def stateAfter {ε σ α : Type} (x : EStateM ε σ α) (s : σ) : σ :=
  match x s with
  | .ok _ s' | .error _ s' => s'

/-- A computation that moves the cursor in its state by steps only. -/
def Travels {ε σ α : Type} (place : σ → Cursor) (x : EStateM ε σ α) : Prop :=
  ∀ s, (place s).Moves (place (stateAfter x s))

namespace Travels

variable {ε σ α β : Type} {place : σ → Cursor} {x : EStateM ε σ α}

theorem pure (a : α) : Travels place (pure a : EStateM ε σ α) :=
  fun s => .refl (place s)

theorem throw (e : ε) : Travels place (throw e : EStateM ε σ α) :=
  fun s => .refl (place s)

theorem get : Travels place (get : EStateM ε σ σ) :=
  fun s => .refl (place s)

theorem modifyGet {f : σ → α × σ} (h : ∀ s, (place s).Moves (place (f s).2)) :
    Travels place (modifyGet f : EStateM ε σ α) :=
  h

theorem modify {f : σ → σ} (h : ∀ s, (place s).Moves (place (f s))) :
    Travels place (modify f : EStateM ε σ PUnit) :=
  h

theorem bind {f : α → EStateM ε σ β} (hx : Travels place x) (hf : ∀ a, Travels place (f a)) :
    Travels place (x >>= f) := by
  intro s
  have hmoves := hx s
  simp only [stateAfter, Bind.bind, EStateM.bind] at hmoves ⊢
  cases hr : x s with
  | ok a s' =>
      rw [hr] at hmoves
      exact hmoves.trans (hf a s')
  | error e s' =>
      rw [hr] at hmoves
      exact hmoves

theorem ite {b : Prop} [Decidable b] {y : EStateM ε σ α} (hx : Travels place x)
    (hy : Travels place y) : Travels place (if b then x else y) := by
  by_cases h : b
  · rwa [if_pos h]
  · rwa [if_neg h]

/-- A loop moves the cursor by steps if each pass does, also where the limit is
    reached. -/
theorem many {α : Type} {body : EStateM Stop σ α} (stop : σ → Bool) (limit : Nat)
    (h : Travels place body) : Travels place (many stop body limit) := by
  induction limit with
  | zero => exact throw _
  | succ limit ih =>
      exact get.bind fun _ => (pure []).ite (h.bind fun _ => ih.bind fun _ => pure _)

end Travels

/-- Reading that moves the cursor by steps only. -/
abbrev ReadTravels {α : Type} (x : Read α) : Prop :=
  Travels id x

/-- Collecting that moves the cursor by steps only. -/
abbrev DraftTravels {α : Type} (x : Drafting α) : Prop :=
  Travels Draft.cursor x

namespace Read

variable {α : Type}

theorem fail_travels (cause : Cause) (loc : Location) : ReadTravels (fail cause loc : Read α) :=
  .throw _

theorem failHere_travels (cause : Cause) : ReadTravels (failHere cause : Read α) :=
  fun c => .refl c

theorem location_travels : ReadTravels location :=
  Travels.get.bind fun _ => .pure _

theorem ensure_travels (ok : Cursor → Bool) (cause : Cause) (loc : Location) :
    ReadTravels (ensure ok cause loc) :=
  Travels.get.bind fun _ => (Travels.pure ()).ite (fail_travels cause loc)

theorem ensureHere_travels (ok : Cursor → Bool) (cause : Cause) :
    ReadTravels (ensureHere ok cause) :=
  Travels.get.bind fun _ => (Travels.pure ()).ite (failHere_travels cause)

theorem advance_travels : ReadTravels advance :=
  .modify Cursor.moves_advance

theorem take_travels : ReadTravels take :=
  .modifyGet Cursor.moves_advance

theorem split_travels (p : Pattern) : ReadTravels (split p) :=
  .modifyGet (Cursor.moves_split p)

theorem skipBlank_travels : ReadTravels skipBlank :=
  .modify Cursor.moves_skipBlank

theorem takeUntil_travels (stops : List (List Char)) : ReadTravels (takeUntil stops) :=
  .modifyGet (Cursor.moves_takeUntil stops)

theorem takeQuoted_travels (quote : List Char) : ReadTravels (takeQuoted quote) :=
  .modifyGet (Cursor.moves_takeQuotedFrom quote quote)

theorem collect_travels {x : Drafting α} (run : Run) (h : DraftTravels x) :
    ReadTravels (collect run x) := by
  intro c
  have hmoves := h { cursor := c, run }
  simp only [stateAfter, collect] at hmoves ⊢
  cases hr : x { cursor := c, run } with
  | ok a d =>
      rw [hr] at hmoves
      exact hmoves
  | error e d =>
      rw [hr] at hmoves
      exact hmoves

end Read

namespace Drafting

variable {α : Type}

theorem read_travels {x : Read α} (h : ReadTravels x) : DraftTravels (read x) := by
  intro d
  have hmoves := h d.cursor
  simp only [stateAfter, read] at hmoves ⊢
  cases hr : x d.cursor with
  | ok a c =>
      rw [hr] at hmoves
      exact hmoves
  | error e c =>
      rw [hr] at hmoves
      exact hmoves

theorem write_travels {x : Read (List Char)} (h : ReadTravels x) : DraftTravels (write x) :=
  (read_travels h).bind fun _ => .modify fun d => .refl d.cursor

theorem inlay_travels {x : Read Element} (h : ReadTravels x) : DraftTravels (inlay x) :=
  (read_travels h).bind fun _ => .modify fun d => .refl d.cursor

end Drafting

/-! ### Rules -/

namespace Rule

open Read

variable {g : Grammar} {inner : Nested}

/-- What nests in a rule moves the cursor by steps only. -/
structure NestedTravels (inner : Nested) : Prop where
  element : ReadTravels inner.element
  group : DraftTravels inner.group

-- Every rule is put together from steps, and its proof goes through the same
-- steps in the same order.

theorem quotedString_travels : ReadTravels quotedString :=
  location_travels.bind fun _ => (ensureHere_travels _ _).bind fun _ => take_travels.bind fun _ =>
    (takeQuoted_travels _).bind fun _ => (ensure_travels _ _ _).bind fun _ =>
      take_travels.bind fun _ => .pure _

theorem lineComment_travels : ReadTravels lineComment :=
  (ensureHere_travels _ _).bind fun _ => (takeUntil_travels _).bind fun _ =>
    Travels.get.bind fun _ => (Travels.pure _).ite (take_travels.bind fun _ => .pure _)

theorem blockComment_travels : ReadTravels blockComment :=
  location_travels.bind fun _ => (ensureHere_travels _ _).bind fun _ =>
    (takeUntil_travels _).bind fun _ => (ensure_travels _ _ _).bind fun _ =>
      take_travels.bind fun _ => .pure _

theorem piece_travels (h : NestedTravels inner) {otherwise : Drafting Unit}
    (hother : DraftTravels otherwise) : DraftTravels (piece inner otherwise) :=
  Travels.get.bind fun _ => (Drafting.write_travels quotedString_travels).ite <|
    (Drafting.write_travels lineComment_travels).ite <|
      (Drafting.write_travels blockComment_travels).ite <|
        (Drafting.inlay_travels h.element).ite hother

theorem groupPiece_travels (h : NestedTravels inner) : DraftTravels (groupPiece inner) :=
  piece_travels h <| Travels.get.bind fun _ => h.group.ite (Drafting.write_travels take_travels)

theorem group_travels (h : NestedTravels inner) : DraftTravels (group inner) := by
  refine Travels.get.bind fun d => ?_
  cases hclose : d.cursor.closer? with
  | none => simpa only [hclose] using Drafting.read_travels (failHere_travels .notGroup)
  | some close =>
      simp only [hclose]
      exact (Drafting.write_travels take_travels).bind fun _ =>
        (Travels.many _ _ (groupPiece_travels h)).bind fun _ =>
          (Drafting.read_travels (ensure_travels _ _ _)).bind fun _ =>
            Drafting.write_travels take_travels

theorem openPiece_travels (h : NestedTravels inner) : DraftTravels (openPiece inner) :=
  Travels.get.bind fun _ => h.group.ite <|
    (Drafting.write_travels quotedString_travels).ite (Drafting.write_travels (split_travels _))

theorem openCode_travels (h : NestedTravels inner) : ReadTravels (openCode inner) :=
  location_travels.bind fun _ =>
    (collect_travels _ (Travels.many _ _ (openPiece_travels h))).bind fun _ =>
      (ensure_travels _ _ _).bind fun _ => .pure _

theorem bracedCode_travels (h : NestedTravels inner) : ReadTravels (bracedCode inner) :=
  (ensureHere_travels _ _).bind fun _ => Travels.get.bind fun _ =>
    (collect_travels _ h.group).bind fun _ => .pure _

theorem code_travels (g : Grammar) (h : NestedTravels inner) : ReadTravels (code g inner) := by
  cases g with
  | sigil => exact openCode_travels h
  | brace => exact bracedCode_travels h

theorem topLevel_travels (h : NestedTravels inner) : ReadTravels (topLevel inner) :=
  location_travels.bind fun _ =>
    (collect_travels _
      (Travels.many _ _ (piece_travels h (Drafting.write_travels take_travels)))).bind fun _ =>
        .pure _

theorem property_travels (g : Grammar) (h : NestedTravels inner) : ReadTravels (property g inner) :=
  (ensureHere_travels _ _).bind fun _ => location_travels.bind fun _ =>
    (split_travels _).bind fun _ => skipBlank_travels.bind fun _ => Travels.get.bind fun _ =>
      Travels.ite
        (advance_travels.bind fun _ => skipBlank_travels.bind fun _ => Travels.get.bind fun _ =>
          Travels.ite (quotedString_travels.bind fun _ => .pure _)
            ((ensureHere_travels _ _).bind fun _ => (code_travels g h).bind fun _ => .pure _))
        (.pure _)

theorem openMixin_travels (h : NestedTravels inner) : ReadTravels (openMixin inner) :=
  (ensureHere_travels _ _).bind fun _ => location_travels.bind fun _ =>
    advance_travels.bind fun _ => (openCode_travels h).bind fun _ => .pure _

theorem bracedMixin_travels (h : NestedTravels inner) : ReadTravels (bracedMixin inner) :=
  (ensureHere_travels _ _).bind fun _ => location_travels.bind fun _ =>
    (bracedCode_travels h).bind fun _ => .pure _

theorem tagEntry_travels (g : Grammar) (h : NestedTravels inner) :
    ReadTravels (tagEntry g inner) := by
  have hmixin : ReadTravels (mixin g inner) := by
    cases g with
    | sigil => exact openMixin_travels h
    | brace => exact bracedMixin_travels h
  exact Travels.get.bind fun _ => (property_travels g h).ite (hmixin.ite (failHere_travels _))

theorem text_travels (g : Grammar) : ReadTravels (text g) :=
  (takeUntil_travels _).bind fun _ => .pure _

theorem comment_travels : ReadTravels comment :=
  location_travels.bind fun _ => (ensureHere_travels _ _).bind fun _ =>
    advance_travels.bind fun _ => (takeUntil_travels _).bind fun _ =>
      (ensure_travels _ _ _).bind fun _ => advance_travels.bind fun _ => .pure _

theorem openInsertion_travels (h : NestedTravels inner) : ReadTravels (openInsertion inner) :=
  (ensureHere_travels _ _).bind fun _ => location_travels.bind fun _ =>
    advance_travels.bind fun _ => (openCode_travels h).bind fun _ => .pure _

theorem bracedInsertion_travels (h : NestedTravels inner) : ReadTravels (bracedInsertion inner) :=
  location_travels.bind fun _ => (bracedCode_travels h).bind fun _ => .pure _

theorem child_travels (g : Grammar) (h : NestedTravels inner) : ReadTravels (child g inner) := by
  have hinsertion : ReadTravels (insertion g inner) := by
    cases g with
    | sigil => exact openInsertion_travels h
    | brace => exact bracedInsertion_travels h
  exact Travels.get.bind fun _ => (h.element.bind fun _ => Travels.pure _).ite <|
    hinsertion.ite <| comment_travels.ite (text_travels g)

theorem tagName_travels (start : Location) : ReadTravels (tagName start) :=
  (split_travels _).bind fun _ => (ensure_travels _ _ _).bind fun _ => .pure _

theorem spacedEntry_travels (g : Grammar) (h : NestedTravels inner) :
    ReadTravels (spacedEntry g inner) :=
  (tagEntry_travels g h).bind fun _ => skipBlank_travels.bind fun _ => .pure _

theorem endTag_travels (tag : List Char) (start : Location) : ReadTravels (endTag tag start) :=
  (ensure_travels _ _ _).bind fun _ => advance_travels.bind fun _ => (split_travels _).bind fun _ =>
    (ensure_travels _ _ _).bind fun _ => (ensureHere_travels _ _).bind fun _ => advance_travels

theorem element_travels (g : Grammar) (h : NestedTravels inner) : ReadTravels (element g inner) :=
  location_travels.bind fun start => (ensureHere_travels _ _).bind fun _ =>
    advance_travels.bind fun _ => (tagName_travels start).bind fun tag =>
      skipBlank_travels.bind fun _ =>
        (Travels.many _ _ (spacedEntry_travels g h)).bind fun _ =>
          (ensure_travels _ _ _).bind fun _ => take_travels.bind fun _ =>
            Travels.ite (.pure _) <|
              (Travels.many _ _ (child_travels g h)).bind fun _ =>
                (endTag_travels tag start).bind fun _ => .pure _

/-- Everything that nests moves the cursor by steps, however deep it may nest. -/
theorem nested_travels (g : Grammar) (depth : Nat) : NestedTravels (nested g depth) := by
  induction depth with
  | zero => exact ⟨.throw _, .throw _⟩
  | succ depth ih => exact ⟨element_travels g ih, group_travels ih⟩

end Rule

/-! ### Calls -/

/-- Excluding the outcome in which the nesting is used up leaves the state as
    it is. -/
theorem stateAfter_settle {σ α : Type} {x : EStateM Stop σ α} {y : EStateM Failure σ α} {s : σ}
    (hy : ∃ h, y s = settle (x s) h) : stateAfter y s = stateAfter x s := by
  rcases hy with ⟨h, hy⟩
  simp only [stateAfter, hy]
  generalize x s = r at h
  cases r with
  | ok a s' => rfl
  | error e s' =>
      cases e with
      | failure f => rfl
      | exhausted => exact absurd rfl (h s')

/-- A rule that is run on its own moves the cursor as it does inside another. -/
theorem Parser.travels {α : Type} (p : Parser α) (g : Grammar) {rule : Rule.Nested → Read α}
    (hrule : ∀ {inner}, Rule.NestedTravels inner → ReadTravels (rule inner))
    (hp : ∀ c, ∃ h, p c = settle (rule (Rule.nested g (c.size + 1)) c) h) : Travels id p := by
  intro c
  rw [stateAfter_settle (hp c)]
  exact hrule (Rule.nested_travels g _) c

theorem DraftParser.group_travels (g : Grammar) : Travels Draft.cursor (group g) := by
  intro d
  rw [stateAfter_settle (x := Rule.group (Rule.nested g (d.cursor.size + 1))) ⟨_, rfl⟩]
  exact Rule.group_travels (Rule.nested_travels g _) d

namespace Cursor

/-- What can be done with a cursor: its own operations, and every rule of the
    grammar that can be run on it. -/
inductive Call
  | advance
  | take
  | split (p : Pattern)
  | skipBlank
  | quotedString
  | lineComment
  | blockComment
  | element (g : Grammar)
  | tagEntry (g : Grammar)
  | property (g : Grammar)
  | openMixin (g : Grammar)
  | bracedMixin (g : Grammar)
  | child (g : Grammar)
  | text (g : Grammar)
  | comment
  | openInsertion (g : Grammar)
  | bracedInsertion (g : Grammar)
  | openCode (g : Grammar)
  | bracedCode (g : Grammar)
  | topLevel (g : Grammar)
  | group (g : Grammar) (run : Run)

/-- The cursor that a call leaves, also where it fails. -/
def Call.after : Call → Cursor → Cursor
  | advance, c => c.advance
  | take, c => c.take.2
  | split p, c => (c.split p).2
  | skipBlank, c => c.skipBlank
  | quotedString, c => stateAfter Parser.quotedString c
  | lineComment, c => stateAfter Parser.lineComment c
  | blockComment, c => stateAfter Parser.blockComment c
  | element g, c => stateAfter (Parser.element g) c
  | tagEntry g, c => stateAfter (Parser.tagEntry g) c
  | property g, c => stateAfter (Parser.property g) c
  | openMixin g, c => stateAfter (Parser.openMixin g) c
  | bracedMixin g, c => stateAfter (Parser.bracedMixin g) c
  | child g, c => stateAfter (Parser.child g) c
  | text g, c => stateAfter (Parser.text g) c
  | comment, c => stateAfter Parser.comment c
  | openInsertion g, c => stateAfter (Parser.openInsertion g) c
  | bracedInsertion g, c => stateAfter (Parser.bracedInsertion g) c
  | openCode g, c => stateAfter (Parser.openCode g) c
  | bracedCode g, c => stateAfter (Parser.bracedCode g) c
  | topLevel g, c => stateAfter (Parser.topLevel g) c
  | group g run, c => (stateAfter (DraftParser.group g) { cursor := c, run }).cursor

/-- The cursor that some calls leave, one after another. -/
def afterAll (c : Cursor) (calls : List Call) : Cursor :=
  calls.foldl (fun c call => call.after c) c

/-- A call moves the cursor by steps. -/
theorem Call.moves (call : Call) (c : Cursor) : c.Moves (call.after c) := by
  cases call with
  | advance => exact c.moves_advance
  | take => exact c.moves_advance
  | split p => exact c.moves_split p
  | skipBlank => exact c.moves_skipBlank
  | quotedString =>
      exact Parser.travels .quotedString .sigil (fun _ => Rule.quotedString_travels)
        (fun _ => ⟨_, rfl⟩) c
  | lineComment =>
      exact Parser.travels .lineComment .sigil (fun _ => Rule.lineComment_travels)
        (fun _ => ⟨_, rfl⟩) c
  | blockComment =>
      exact Parser.travels .blockComment .sigil (fun _ => Rule.blockComment_travels)
        (fun _ => ⟨_, rfl⟩) c
  | element g => exact Parser.travels (.element g) g (Rule.element_travels g) (fun _ => ⟨_, rfl⟩) c
  | tagEntry g =>
      exact Parser.travels (.tagEntry g) g (Rule.tagEntry_travels g) (fun _ => ⟨_, rfl⟩) c
  | property g =>
      exact Parser.travels (.property g) g (Rule.property_travels g) (fun _ => ⟨_, rfl⟩) c
  | openMixin g =>
      exact Parser.travels (.openMixin g) g Rule.openMixin_travels (fun _ => ⟨_, rfl⟩) c
  | bracedMixin g =>
      exact Parser.travels (.bracedMixin g) g Rule.bracedMixin_travels (fun _ => ⟨_, rfl⟩) c
  | child g => exact Parser.travels (.child g) g (Rule.child_travels g) (fun _ => ⟨_, rfl⟩) c
  | text g =>
      exact Parser.travels (.text g) g (fun _ => Rule.text_travels g)
        (fun c => ⟨Rule.text_ends.ne_exhausted (Nat.le_refl c.size), rfl⟩) c
  | comment =>
      exact Parser.travels .comment .sigil (fun _ => Rule.comment_travels) (fun _ => ⟨_, rfl⟩) c
  | openInsertion g =>
      exact Parser.travels (.openInsertion g) g Rule.openInsertion_travels (fun _ => ⟨_, rfl⟩) c
  | bracedInsertion g =>
      exact Parser.travels (.bracedInsertion g) g Rule.bracedInsertion_travels (fun _ => ⟨_, rfl⟩) c
  | openCode g => exact Parser.travels (.openCode g) g Rule.openCode_travels (fun _ => ⟨_, rfl⟩) c
  | bracedCode g =>
      exact Parser.travels (.bracedCode g) g Rule.bracedCode_travels (fun _ => ⟨_, rfl⟩) c
  | topLevel g => exact Parser.travels (.topLevel g) g Rule.topLevel_travels (fun _ => ⟨_, rfl⟩) c
  | group g run => exact DraftParser.group_travels g { cursor := c, run }

theorem moves_afterAll (c : Cursor) (calls : List Call) : c.Moves (c.afterAll calls) := by
  induction calls generalizing c with
  | nil => exact .refl c
  | cons call calls ih => exact (call.moves c).trans (ih (call.after c))

/-! ### Standing in a fragment -/

/-- What is unread at an index into some fragments: nothing behind the last of
    them, or else the rest of the one with that index and all later ones. -/
def StandsIn (fs : List Fragment) (index : Nat) (unread : List Fragment) : Prop :=
  (unread = [] ∧ fs.length ≤ index) ∨
    ∃ f g rest, fs.drop index = f :: rest ∧ unread = g :: rest ∧ g.text <:+ f.text

/-- A cursor that stands in one of some fragments, or behind them, with an
    offset that counts what has been read of them. -/
structure Follows (fs : List Fragment) (c : Cursor) : Prop where
  stands : StandsIn fs c.index c.unread
  counts : c.Counts (fs.flatMap Fragment.text).length

variable {fs : List Fragment} {c c' : Cursor}

theorem drop_succ_of_drop {α : Type} {xs rest : List α} {x : α} {i : Nat}
    (h : xs.drop i = x :: rest) : xs.drop (i + 1) = rest := by
  rw [← List.tail_drop, h, List.tail_cons]

/-- A whole fragment stands at its own index. -/
theorem StandsIn.whole (fs : List Fragment) (i : Nat) : StandsIn fs i (fs.drop i) := by
  cases h : fs.drop i with
  | nil => exact Or.inl ⟨rfl, List.drop_eq_nil_iff.mp h⟩
  | cons f rest => exact Or.inr ⟨f, f, rest, h, rfl, List.suffix_refl _⟩

theorem StandsIn.advance (h : StandsIn fs c.index c.unread) :
    StandsIn fs c.advance.index c.advance.unread := by
  rcases c with ⟨unread, index, loc⟩
  rcases h with ⟨rfl, hindex⟩ | ⟨f, g, rest, hdrop, rfl, _⟩
  · exact Or.inl ⟨rfl, Nat.le_succ_of_le hindex⟩
  · have hwhole := StandsIn.whole fs (index + 1)
    rw [drop_succ_of_drop hdrop] at hwhole
    exact hwhole

theorem StandsIn.split (h : StandsIn fs c.index c.unread) (p : Pattern) :
    StandsIn fs (c.split p).2.index (c.split p).2.unread := by
  rcases c with ⟨unread, index, loc⟩
  rcases h with ⟨rfl, hindex⟩ | ⟨f, g, rest, hdrop, rfl, hsuffix⟩
  · exact Or.inl ⟨rfl, hindex⟩
  · simp only [Cursor.split]
    split
    · -- The fragment is used up, and the next one is whole.
      have hwhole := StandsIn.whole fs (index + 1)
      rw [drop_succ_of_drop hdrop] at hwhole
      exact hwhole
    · rename_i x xs hleft
      refine Or.inr ⟨f, ⟨x, xs⟩, rest, hdrop, rfl, ?_⟩
      rw [Fragment.text, ← hleft]
      exact (List.drop_suffix _ _).trans hsuffix

/-- A step leaves the cursor in one of the fragments. -/
theorem Step.follows (hstep : Step c c') (h : c.Follows fs) : c'.Follows fs := by
  cases hstep with
  | advance => exact ⟨h.stands.advance, h.counts.advance⟩
  | split p => exact ⟨h.stands.split p, h.counts.split p⟩

theorem Moves.follows (hmoves : c.Moves c') (h : c.Follows fs) : c'.Follows fs := by
  induction hmoves with
  | refl => exact h
  | tail _ hstep ih => exact hstep.follows ih

/-- A step never goes back. -/
theorem Step.pos_le (hstep : Step c c') : c.loc.pos ≤ c'.loc.pos := by
  cases hstep with
  | advance =>
      rw [pos_advance]
      exact Int.le_add_of_nonneg_right (Int.natCast_nonneg _)
  | split p =>
      rw [loc_split]
      exact Int.le_add_of_nonneg_right (Int.natCast_nonneg _)

theorem Moves.pos_le (hmoves : c.Moves c') : c.loc.pos ≤ c'.loc.pos := by
  induction hmoves with
  | refl => exact Int.le_refl _
  | tail _ hstep ih => exact Int.le_trans ih hstep.pos_le

/-! ### Keeping the place -/

/-- The texts that hold something to read. -/
def kept (texts : List (List Char)) : List (List Char) :=
  texts.filter (· ≠ [])

/-- A cursor over some texts that has not lost its place. -/
structure InPlace (texts : List (List Char)) (c : Cursor) : Prop where
  /-- There is nothing to read just at the end. -/
  current_eq_nil_iff : c.current = [] ↔ c.eof = true
  /-- The end is behind the last text. -/
  eof_iff : c.eof = true ↔ (kept texts).length ≤ c.index
  /-- Anywhere else there is a last part of the text with its index to read. -/
  suffix : c.eof = false → ∃ t, (kept texts)[c.index]? = some t ∧ c.current <:+ t
  /-- The texts are what the offset counts, what there is to read of this text
      and the later texts. -/
  parts : ∃ offset : Nat, c.loc.pos = offset ∧ offset ≤ texts.flatten.length ∧
    texts.flatten =
      texts.flatten.take offset ++ c.current ++ ((kept texts).drop (c.index + 1)).flatten
  /-- At the end the offset has counted everything. -/
  finish : c.eof = true →
    (kept texts).drop (c.index + 1) = [] ∧ c.loc.pos = texts.flatten.length

theorem map_text_ofText? (texts : List (List Char)) :
    (texts.filterMap Fragment.ofText?).map Fragment.text = kept texts := by
  induction texts with
  | nil => rfl
  | cons t ts ih =>
      cases t with
      | nil => exact ih
      | cons x xs => exact congrArg ((x :: xs) :: ·) ih

theorem flatten_kept (texts : List (List Char)) : (kept texts).flatten = texts.flatten := by
  induction texts with
  | nil => rfl
  | cons t ts ih =>
      cases t with
      | nil => exact ih
      | cons x xs => exact congrArg ((x :: xs) ++ ·) ih

theorem follows_ofTexts (texts : List (List Char)) :
    (ofTexts texts).Follows (ofTexts texts).unread where
  stands := StandsIn.whole _ 0
  counts := Int.zero_add _

/-- What is unread is the rest of this fragment and the later fragments. -/
theorem Follows.rest_eq (h : c.Follows fs) :
    c.rest = c.current ++ (fs.drop (c.index + 1)).flatMap Fragment.text := by
  rcases c with ⟨unread, index, loc⟩
  rcases h.stands with ⟨rfl, hindex⟩ | ⟨f, g, rest, hdrop, rfl, _⟩
  · rw [List.drop_eq_nil_of_le (Nat.le_succ_of_le hindex)]
    rfl
  · rw [drop_succ_of_drop hdrop]
    rfl

/-- What is unread is a last part of the fragments. -/
theorem Follows.rest_suffix (h : c.Follows fs) : c.rest <:+ fs.flatMap Fragment.text := by
  rcases c with ⟨unread, index, loc⟩
  rcases h.stands with ⟨rfl, _⟩ | ⟨f, g, rest, hdrop, rfl, front, hfront⟩
  · exact List.nil_suffix
  · have hall := List.take_append_drop index fs
    rw [hdrop] at hall
    refine ⟨(fs.take index).flatMap Fragment.text ++ front, ?_⟩
    calc (fs.take index).flatMap Fragment.text ++ front ++ (g.text ++ rest.flatMap Fragment.text)
        = (fs.take index).flatMap Fragment.text ++ (f.text ++ rest.flatMap Fragment.text) := by
          rw [← hfront]
          simp only [List.append_assoc]
      _ = (fs.take index ++ f :: rest).flatMap Fragment.text := by
          rw [List.flatMap_append, List.flatMap_cons]
      _ = fs.flatMap Fragment.text := by rw [hall]

theorem Follows.eof_iff (h : c.Follows fs) : c.eof = true ↔ fs.length ≤ c.index := by
  rcases c with ⟨unread, index, loc⟩
  rcases h.stands with ⟨rfl, hindex⟩ | ⟨f, g, rest, hdrop, rfl, _⟩
  · exact iff_of_true rfl hindex
  · refine iff_of_false Bool.false_ne_true fun hindex => ?_
    rw [List.drop_eq_nil_of_le hindex] at hdrop
    cases hdrop

/-- A cursor that follows the fragments of some texts has not lost its place. -/
theorem Follows.inPlace {texts : List (List Char)} (h : c.Follows (ofTexts texts).unread) :
    c.InPlace texts := by
  have hmap : (ofTexts texts).unread.map Fragment.text = kept texts := map_text_ofText? texts
  have hall : (ofTexts texts).unread.flatMap Fragment.text = texts.flatten := by
    rw [List.flatMap_def, hmap, flatten_kept]
  have hlater : ((ofTexts texts).unread.drop (c.index + 1)).flatMap Fragment.text =
      ((kept texts).drop (c.index + 1)).flatten := by
    rw [List.flatMap_def, List.map_drop, hmap]
  have heof : c.eof = true ↔ (kept texts).length ≤ c.index := by
    rw [h.eof_iff, ← hmap, List.length_map]
  have hcounts := h.counts
  have hsuffix := h.rest_suffix
  rw [hall] at hcounts hsuffix
  unfold Counts size at hcounts
  refine ⟨?_, heof, fun hnot => ?_, ?_, fun hend => ?_⟩
  · cases hend : c.eof with
    | true =>
        refine iff_of_true ?_ rfl
        rcases c with ⟨_ | ⟨f, rest⟩, index, loc⟩
        · rfl
        · cases hend
    | false => exact iff_of_false (current_ne_nil hend) Bool.false_ne_true
  · rcases c with ⟨unread, index, loc⟩
    rcases h.stands with ⟨rfl, _⟩ | ⟨f, g, rest, hdrop, rfl, hlast⟩
    · cases hnot
    · refine ⟨f.text, ?_, hlast⟩
      rw [← hmap, List.getElem?_map, ← List.head?_drop, hdrop]
      rfl
  · refine ⟨texts.flatten.length - c.rest.length, ?_, Nat.sub_le _ _, ?_⟩
    · have hle := hsuffix.length_le
      omega
    · rw [List.append_assoc, ← hlater, ← h.rest_eq]
      exact List.suffix_iff_eq_append.mp hsuffix |>.symm
  · have hrest := rest_of_eof hend
    rw [hrest] at hcounts
    exact ⟨List.drop_eq_nil_of_le (Nat.le_succ_of_le (heof.mp hend)),
      (Int.add_zero _).symm.trans hcounts⟩

/-- Whatever is done with a cursor over some texts, in any order, and also
    where a call fails or the end has been reached, it does not lose its
    place, and its offset never decreases. -/
theorem afterAll_inPlace (texts : List (List Char)) (calls : List Call) :
    ((ofTexts texts).afterAll calls).InPlace texts ∧
      ∀ more, ((ofTexts texts).afterAll calls).loc.pos ≤
        ((ofTexts texts).afterAll (calls ++ more)).loc.pos := by
  refine ⟨((moves_afterAll _ calls).follows (follows_ofTexts texts)).inPlace, fun more => ?_⟩
  rw [afterAll, afterAll, List.foldl_append]
  exact (moves_afterAll _ more).pos_le

end Cursor

end Inlay
