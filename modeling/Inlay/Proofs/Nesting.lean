import Inlay.Grammar.Parser

/-!
# Depth of Nesting

The rules are run with an allowed depth of nesting, which is no part of the
grammar. This module shows that it does not matter: a depth that is above the
number of unread characters gives the same outcome as every other one
(`Rule.topLevel_nested`).

The comparison is `Approx`: one computation does what another does wherever
the first does not end exhausted. Every rule keeps it, so a smaller depth
approximates a larger one. The bounds on what is unread exclude that reading
ends exhausted, and so two depths agree.

The same comparison says how the rules nest. What nests in a rule can be
barred from being entered with as much unread as the rule itself was entered
with (`Rule.descending`). With the bars reading still does not end exhausted,
so no bar is ever met, and the outcome is the same.

## Main definitions

* `Approx`: Agreement, except where the first ends exhausted.
* `Rule.Nested.below`: Nested rules that may only be entered below a bound.
* `Rule.descending`: Nesting in which every rule is entered below the one that
  it stands in.

## Theorems

* `Rule.topLevel_nested`: The depth of nesting does not matter.
* `Rule.element_descending`, `Rule.group_descending`: Whatever nests in a rule
  is entered with less unread than the rule itself.
-/

namespace Inlay

/-- `y` does what `x` does, wherever `x` does not end exhausted. -/
def Approx {σ α : Type} (x y : EStateM Stop σ α) : Prop :=
  ∀ s, (∃ s', x s = .error .exhausted s') ∨ x s = y s

namespace Approx

variable {σ α β : Type} {x y : EStateM Stop σ α}

theorem refl (x : EStateM Stop σ α) : Approx x x :=
  fun _ => Or.inr rfl

/-- What does not end exhausted is what it approximates. -/
theorem eq_of_ne (h : Approx x y) {s : σ} (hs : ∀ s', x s ≠ .error .exhausted s') : x s = y s := by
  rcases h s with ⟨s', hs'⟩ | heq
  · exact absurd hs' (hs s')
  · exact heq

theorem trans {z : EStateM Stop σ α} (h : Approx x y) (h' : Approx y z) : Approx x z := by
  intro s
  rcases h s with hs | heq
  · exact Or.inl hs
  · rw [heq]
    exact h' s

theorem bind {f f' : α → EStateM Stop σ β} (h : Approx x y) (hf : ∀ a, Approx (f a) (f' a)) :
    Approx (x >>= f) (y >>= f') := by
  intro s
  rcases h s with ⟨s', hs'⟩ | heq
  · refine Or.inl ⟨s', ?_⟩
    simp only [Bind.bind, EStateM.bind, hs']
  · simp only [Bind.bind, EStateM.bind, ← heq]
    cases hx : x s with
    | ok a s' => exact hf a s'
    | error e s' => exact Or.inr rfl

theorem ite {b : Prop} [Decidable b] {x' y' : EStateM Stop σ α} (h : Approx x y)
    (h' : Approx x' y') : Approx (if b then x else x') (if b then y else y') := by
  by_cases hb : b
  · rw [if_pos hb, if_pos hb]
    exact h
  · rw [if_neg hb, if_neg hb]
    exact h'

/-- A loop that may go on for longer does the same. -/
theorem many {stop : σ → Bool} {limit limit' : Nat} (h : Approx x y) (hlimit : limit ≤ limit') :
    Approx (Inlay.many stop x limit) (Inlay.many stop y limit') := by
  induction limit generalizing limit' with
  | zero => exact fun s => Or.inl ⟨s, rfl⟩
  | succ limit ih =>
      cases limit' with
      | zero => exact absurd hlimit (Nat.not_succ_le_zero limit)
      | succ limit' =>
          refine (refl _).bind fun s => ite (refl _) ?_
          exact h.bind fun a => (ih (Nat.le_of_succ_le_succ hlimit)).bind fun _ => refl _

end Approx

section

variable {α : Type}

theorem Drafting.read_approx {x y : Read α} (h : Approx x y) : Approx (read x) (read y) := by
  intro d
  unfold read
  rcases h d.cursor with ⟨c, hc⟩ | heq
  · rw [hc]
    exact Or.inl ⟨_, rfl⟩
  · rw [heq]
    exact Or.inr rfl

theorem Drafting.inlay_approx {x y : Read Element} (h : Approx x y) : Approx (inlay x) (inlay y) :=
  (read_approx h).bind fun _ => Approx.refl _

theorem Read.collect_approx {x y : Drafting α} (run : Run) (h : Approx x y) :
    Approx (collect run x) (collect run y) := by
  intro c
  unfold collect
  rcases h { cursor := c, run } with ⟨d, hd⟩ | heq
  · rw [hd]
    exact Or.inl ⟨_, rfl⟩
  · rw [heq]
    exact Or.inr rfl

end

namespace Rule

open Read

/-- Nested rules that approximate others. -/
structure Nested.Approx (inner inner' : Nested) : Prop where
  depth : inner.depth ≤ inner'.depth
  element : Inlay.Approx inner.element inner'.element
  group : Inlay.Approx inner.group inner'.group

variable {g : Grammar} {inner inner' : Nested}

/-! ### Code -/

theorem piece_approx {x y : Drafting Unit} (h : inner.Approx inner') (hother : Approx x y) :
    Approx (piece inner x) (piece inner' y) := by
  refine (Approx.refl _).bind fun d => ?_
  refine Approx.ite (Approx.refl _) (Approx.ite (Approx.refl _) (Approx.ite (Approx.refl _) ?_))
  exact Approx.ite (Drafting.inlay_approx h.element) hother

theorem groupPiece_approx (h : inner.Approx inner') :
    Approx (groupPiece inner) (groupPiece inner') := by
  refine piece_approx h ((Approx.refl _).bind fun d => ?_)
  exact Approx.ite h.group (Approx.refl _)

theorem group_approx (h : inner.Approx inner') : Approx (group inner) (group inner') := by
  refine (Approx.refl _).bind fun d => ?_
  cases hclose : d.cursor.closer? with
  | none =>
      simp only [hclose]
      exact Approx.refl _
  | some close =>
      simp only [hclose]
      refine (Approx.refl _).bind fun _ => ?_
      exact (Approx.many (groupPiece_approx h) h.depth).bind fun _ => Approx.refl _

theorem openPiece_approx (h : inner.Approx inner') : Approx (openPiece inner) (openPiece inner') := by
  refine (Approx.refl _).bind fun d => ?_
  exact Approx.ite h.group (Approx.refl _)

theorem openCode_approx (h : inner.Approx inner') : Approx (openCode inner) (openCode inner') := by
  refine (Approx.refl _).bind fun start => ?_
  refine (collect_approx _ (Approx.many (openPiece_approx h) h.depth)).bind fun run => ?_
  exact Approx.refl _

theorem bracedCode_approx (h : inner.Approx inner') :
    Approx (bracedCode inner) (bracedCode inner') := by
  refine (Approx.refl _).bind fun _ => (Approx.refl _).bind fun c => ?_
  exact (collect_approx _ h.group).bind fun _ => Approx.refl _

theorem code_approx (h : inner.Approx inner') : Approx (code g inner) (code g inner') := by
  cases g with
  | sigil => exact openCode_approx h
  | brace => exact bracedCode_approx h

theorem topLevel_approx (h : inner.Approx inner') : Approx (topLevel inner) (topLevel inner') := by
  refine (Approx.refl _).bind fun start => ?_
  refine (collect_approx _ (Approx.many (piece_approx h (Approx.refl _)) h.depth)).bind fun run => ?_
  exact Approx.refl _

/-! ### Markup -/

theorem property_approx (h : inner.Approx inner') : Approx (property g inner) (property g inner') := by
  refine (Approx.refl _).bind fun _ => (Approx.refl _).bind fun loc => ?_
  refine (Approx.refl _).bind fun name => (Approx.refl _).bind fun _ => ?_
  refine (Approx.refl _).bind fun c => Approx.ite ?_ (Approx.refl _)
  refine (Approx.refl _).bind fun _ => (Approx.refl _).bind fun _ => ?_
  refine (Approx.refl _).bind fun c => Approx.ite (Approx.refl _) ?_
  exact (Approx.refl _).bind fun _ => (code_approx h).bind fun _ => Approx.refl _

theorem mixin_approx (h : inner.Approx inner') : Approx (mixin g inner) (mixin g inner') := by
  cases g with
  | sigil =>
      refine (Approx.refl _).bind fun _ => (Approx.refl _).bind fun loc => ?_
      exact (Approx.refl _).bind fun _ => (openCode_approx h).bind fun _ => Approx.refl _
  | brace =>
      refine (Approx.refl _).bind fun _ => (Approx.refl _).bind fun loc => ?_
      exact (bracedCode_approx h).bind fun _ => Approx.refl _

theorem insertion_approx (h : inner.Approx inner') :
    Approx (insertion g inner) (insertion g inner') := by
  cases g with
  | sigil =>
      refine (Approx.refl _).bind fun _ => (Approx.refl _).bind fun loc => ?_
      exact (Approx.refl _).bind fun _ => (openCode_approx h).bind fun _ => Approx.refl _
  | brace =>
      refine (Approx.refl _).bind fun loc => ?_
      exact (bracedCode_approx h).bind fun _ => Approx.refl _

theorem spacedEntry_approx (h : inner.Approx inner') :
    Approx (spacedEntry g inner) (spacedEntry g inner') := by
  have hentry : Approx (tagEntry g inner) (tagEntry g inner') := by
    refine (Approx.refl _).bind fun c => ?_
    exact Approx.ite (property_approx h) (Approx.ite (mixin_approx h) (Approx.refl _))
  exact hentry.bind fun _ => Approx.refl _

theorem child_approx (h : inner.Approx inner') : Approx (child g inner) (child g inner') := by
  refine (Approx.refl _).bind fun c => Approx.ite ?_ ?_
  · exact h.element.bind fun _ => Approx.refl _
  · exact Approx.ite (insertion_approx h) (Approx.refl _)

theorem element_approx (h : inner.Approx inner') : Approx (element g inner) (element g inner') := by
  refine (Approx.refl _).bind fun start => (Approx.refl _).bind fun _ => ?_
  refine (Approx.refl _).bind fun _ => (Approx.refl _).bind fun tag => ?_
  refine (Approx.refl _).bind fun _ => ?_
  refine (Approx.many (spacedEntry_approx h) h.depth).bind fun attributes => ?_
  refine (Approx.refl _).bind fun _ => (Approx.refl _).bind fun mark => ?_
  refine Approx.ite (Approx.refl _) ?_
  exact (Approx.many (child_approx h) h.depth).bind fun _ => Approx.refl _

/-! ### Depths -/

/-- What may nest deeper does the same. -/
theorem nested_approx (g : Grammar) {n m : Nat} (h : n ≤ m) : (nested g n).Approx (nested g m) := by
  induction n generalizing m with
  | zero =>
      refine ⟨Nat.zero_le _, fun c => Or.inl ⟨c, rfl⟩, fun d => Or.inl ⟨d, rfl⟩⟩
  | succ n ih =>
      cases m with
      | zero => exact absurd h (Nat.not_succ_le_zero n)
      | succ m =>
          have hinner := ih (Nat.le_of_succ_le_succ h)
          exact ⟨h, element_approx hinner, group_approx hinner⟩

/-- The depth of nesting does not matter, as long as it is above the number of
    unread characters. -/
theorem topLevel_nested (g : Grammar) {n m : Nat} {c : Cursor} (hn : c.size < n) (hm : c.size < m) :
    topLevel (nested g n) c = topLevel (nested g m) c := by
  have hleast : ∀ {k}, c.size < k →
      topLevel (nested g (c.size + 1)) c = topLevel (nested g k) c := by
    intro k hk
    have hends := topLevel_ends (nested_bounded g (c.size + 1)) (Nat.lt_succ_self c.size)
    exact (topLevel_approx (nested_approx g hk)).eq_of_ne fun _ => hends.ne_exhausted (Nat.le_refl _) _
  rw [← hleast hn, ← hleast hm]

/-- Nested rules that end exhausted when they are entered with `n` or more
    characters unread. -/
def Nested.below (inner : Nested) (n : Nat) : Nested where
  depth := inner.depth
  element := fun c => if c.size < n then inner.element c else .error .exhausted c
  group := fun d => if d.cursor.size < n then inner.group d else .error .exhausted d

theorem Nested.below_approx (inner : Nested) (n : Nat) : (inner.below n).Approx inner := by
  refine ⟨Nat.le_refl _, fun c => ?_, fun d => ?_⟩
  · by_cases hc : c.size < n
    · exact Or.inr (if_pos hc)
    · exact Or.inl ⟨c, if_neg hc⟩
  · by_cases hd : d.cursor.size < n
    · exact Or.inr (if_pos hd)
    · exact Or.inl ⟨d, if_neg hd⟩

/-- Below the bar nested rules keep their bound. -/
theorem Bounded.below {n : Nat} (h : Bounded n inner) : Bounded n (inner.below n) := by
  refine ⟨h.depth, fun k hk c hc => ?_, fun k hk d hd => ?_⟩
  · have hopen : (inner.below n).element c = inner.element c :=
      if_pos (Nat.lt_of_le_of_lt hc hk)
    rw [hopen]
    exact h.element k hk c hc
  · have hopen : (inner.below n).group d = inner.group d :=
      if_pos (Nat.lt_of_le_of_lt hd hk)
    rw [hopen]
    exact h.group k hk d hd

theorem Bounded.mono {n m : Nat} (h : Bounded n inner) (hm : m ≤ n) : Bounded m inner :=
  ⟨Nat.le_trans hm h.depth, fun k hk => h.element k (Nat.lt_of_lt_of_le hk hm),
    fun k hk => h.group k (Nat.lt_of_lt_of_le hk hm)⟩

/-- What may nest to a given depth, if nothing may be entered with as much
    unread as the element or the group that it stands in. -/
def descending (g : Grammar) : Nat → Nested
  | 0 => nested g 0
  | depth + 1 =>
    { depth := depth + 1
      element := fun c => element g ((descending g depth).below c.size) c
      group := fun d => group ((descending g depth).below d.cursor.size) d }

theorem element_descending_succ (g : Grammar) (n : Nat) (c : Cursor) :
    (descending g (n + 1)).element c = element g ((descending g n).below c.size) c :=
  rfl

theorem group_descending_succ (g : Grammar) (n : Nat) (d : Draft) :
    (descending g (n + 1)).group d = group ((descending g n).below d.cursor.size) d :=
  rfl

theorem descending_approx (g : Grammar) (n : Nat) : (descending g n).Approx (nested g n) := by
  induction n with
  | zero => exact ⟨Nat.le_refl _, Approx.refl _, Approx.refl _⟩
  | succ n ih =>
      have helement : Approx (element g (descending g n)) (nested g (n + 1)).element :=
        element_approx ih
      have hgroup : Approx (group (descending g n)) (nested g (n + 1)).group := group_approx ih
      refine ⟨Nat.le_refl _, fun c => ?_, fun d => ?_⟩
      · rw [element_descending_succ]
        exact (element_approx (Nested.below_approx _ _)).trans helement c
      · rw [group_descending_succ]
        exact (group_approx (Nested.below_approx _ _)).trans hgroup d

/-- A depth is enough for fewer characters than it counts, also with the bar. -/
theorem descending_bounded (g : Grammar) (n : Nat) : Bounded n (descending g n) := by
  induction n with
  | zero => exact nested_bounded g 0
  | succ n ih =>
      refine ⟨Nat.le_refl _, fun k hk c hc => ?_, fun k hk d hd => ?_⟩
      · have hinner := (ih.mono (Nat.le_of_lt_succ (Nat.lt_of_le_of_lt hc hk))).below
        have hshrinks := (element_shrinks (g := g) hinner (Nat.le_refl c.size)).weaken
          (fun _ h => h) fun _ _ h => Nat.lt_of_lt_of_le h hc
        rw [element_descending_succ]
        exact hshrinks c (Nat.le_refl _)
      · have hinner := (ih.mono (Nat.le_of_lt_succ (Nat.lt_of_le_of_lt hd hk))).below
        have hshrinks := (group_shrinks hinner (Nat.le_refl d.cursor.size)).weaken
          (fun _ h => h) fun _ _ h => Nat.lt_of_lt_of_le h hd
        rw [group_descending_succ]
        exact hshrinks d (Nat.le_refl _)

/-- Whatever nests in an element or a group is entered with less unread than
    the element or the group itself: barring everything else changes nothing. -/
theorem element_descending (g : Grammar) {n : Nat} {c : Cursor} (h : c.size < n) :
    (descending g n).element c = (nested g n).element c := by
  have hshrinks := (descending_bounded g n).element c.size h
  exact (descending_approx g n).element.eq_of_ne fun _ => hshrinks.ne_exhausted (Nat.le_refl _) _

theorem group_descending (g : Grammar) {n : Nat} {d : Draft} (h : d.cursor.size < n) :
    (descending g n).group d = (nested g n).group d := by
  have hshrinks := (descending_bounded g n).group d.cursor.size h
  exact (descending_approx g n).group.eq_of_ne fun _ => hshrinks.ne_exhausted (Nat.le_refl _) _

end Rule

end Inlay
