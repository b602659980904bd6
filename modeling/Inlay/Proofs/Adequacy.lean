import Inlay.Proofs.Derivation
import Mathlib.Control.Monad.Basic

/-!
# Adequacy of Derivations

Runs and derivations are two descriptions of the same reading. A run has a
depth of nesting and a limit for each of its loops; a derivation has neither.
This module goes from one to the other, in both directions.

From a run to a derivation the argument follows the rules: what nests in a
rule has derivations by the induction on the depth, and the rule adds one step
to them. From a derivation to a run it follows the derivation, and the point
is that neither the nesting nor a loop is stopped early. Each pass leaves less
unread than it found, so a limit above the number of unread characters is
never reached, and what nests is entered behind an opening mark, where one
level of nesting less is still enough.

## Main definitions

* `Rule.Nested.Derived`: Nested rules whose runs have derivations.
* `Phrase.Runs`: A phrase that is read by running the rule for it.

## Theorems

* `Rule.nested_derived`: Every run of a nested rule has a derivation.
* `Derives.runs`: Every derivation is a run.
* `parse_eq_ok_iff`: A source is read exactly if it has a derivation.
-/

namespace Inlay

namespace Cursor

variable {c : Cursor}

theorem isAt_iff {texts : List (List Char)} :
    c.isAt texts = true ↔ c.eof = false ∧ c.current ∈ texts := by
  simp only [isAt, Bool.and_eq_true, Bool.not_eq_true', List.contains_iff_mem]

/-- What the current fragment is decides every comparison with it. -/
theorem isAt_eq_contains {t : List Char} (h : c.isAt [t] = true) (texts : List (List Char)) :
    c.isAt texts = texts.contains t := by
  rcases isAt_iff.mp h with ⟨heof, hmem⟩
  rw [isAt, heof, List.mem_singleton.mp hmem]
  rfl

theorem isAt_quotes (h : c.isAt quotes = true) : c.isAt [['"']] = true ∨ c.isAt [['\'']] = true := by
  rcases isAt_iff.mp h with ⟨heof, hmem⟩
  simp only [quotes, List.mem_cons, List.not_mem_nil, or_false] at hmem
  rcases hmem with hmem | hmem
  · exact Or.inl (isAt_iff.mpr ⟨heof, by rw [hmem]; exact List.mem_singleton_self _⟩)
  · exact Or.inr (isAt_iff.mpr ⟨heof, by rw [hmem]; exact List.mem_singleton_self _⟩)

/-- The fragments that open a group, each with the one that closes it. -/
theorem closer?_cases {close : List Char} (h : c.closer? = some close) :
    c.isAt [['(']] = true ∧ close = [')'] ∨ c.isAt [['[']] = true ∧ close = [']'] ∨
      c.isAt [['{']] = true ∧ close = ['}'] ∨ c.isAt [Marker.spread] = true ∧ close = ['}'] := by
  have heof : c.eof = false := eof_of_closer? (by rw [h]; rfl)
  have hat : ∀ t, c.current = t → c.isAt [t] = true := by
    intro t ht
    exact isAt_iff.mpr ⟨heof, by rw [ht]; exact List.mem_singleton_self t⟩
  unfold closer? at h
  by_cases h1 : c.current = ['(']
  · rw [if_pos h1, Option.some.injEq] at h
    exact Or.inl ⟨hat _ h1, h.symm⟩
  rw [if_neg h1] at h
  by_cases h2 : c.current = ['[']
  · rw [if_pos h2, Option.some.injEq] at h
    exact Or.inr (Or.inl ⟨hat _ h2, h.symm⟩)
  rw [if_neg h2] at h
  by_cases h3 : c.current = ['{']
  · simp only [h3, decide_true, Bool.true_or, if_true, Option.some.injEq] at h
    exact Or.inr (Or.inr (Or.inl ⟨hat _ h3, h.symm⟩))
  by_cases h4 : c.current = Marker.spread
  · simp only [h4, decide_true, Bool.or_true, if_true, Option.some.injEq] at h
    exact Or.inr (Or.inr (Or.inr ⟨hat _ h4, h.symm⟩))
  · simp only [h3, h4, decide_false, Bool.or_false, Bool.false_eq_true, if_false,
      reduceCtorEq] at h

/-- Where something else than an opening delimiter is expected, none stands. -/
theorem closer?_eq_none {t : List Char} (h : c.isAt [t] = true)
    (hne : [['('], ['['], ['{'], Marker.spread].contains t = false) : c.closer? = none := by
  cases hclose : c.closer? with
  | none => rfl
  | some close =>
      have hin : c.isAt [['('], ['['], ['{'], Marker.spread] = true := by
        rcases closer?_cases hclose with ⟨hat, _⟩ | ⟨hat, _⟩ | ⟨hat, _⟩ | ⟨hat, _⟩ <;>
          rw [isAt_eq_contains hat] <;> decide
      rw [isAt_eq_contains h, hne] at hin
      cases hin

/-- An opening delimiter is nothing else. -/
theorem isAt_of_closer? {close : List Char} (h : c.closer? = some close)
    {texts : List (List Char)} (hp : texts.contains ['('] = false)
    (hb : texts.contains ['['] = false) (hc : texts.contains ['{'] = false)
    (hs : texts.contains Marker.spread = false) : c.isAt texts = false := by
  rcases closer?_cases h with ⟨hat, _⟩ | ⟨hat, _⟩ | ⟨hat, _⟩ | ⟨hat, _⟩ <;>
    rw [isAt_eq_contains hat] <;> assumption

/-- The entries of a tag are read behind its opening mark and its name. -/
theorem size_tagEntries_lt (c : Cursor) (h : c.isAt [['<']] = true) :
    c.advance.pastName.size < c.size := by
  have h1 := size_advance_lt (eof_of_isAt h)
  have h2 := c.advance.size_split_le Pattern.identifier
  have h3 := (c.advance.split Pattern.identifier).2.size_skipBlank_le
  unfold pastName
  omega

end Cursor

theorem Grammar.size_behindMark_le (g : Grammar) (c : Cursor) : (g.behindMark c).size ≤ c.size := by
  cases g with
  | sigil => exact c.size_advance_le
  | brace => exact Nat.le_refl _

/-! ### From runs to derivations -/

/-- What nests in a rule has derivations. -/
structure Rule.Nested.Derived (g : Grammar) (inner : Rule.Nested) : Prop where
  element : ∀ {c c' e}, inner.element c = .ok e c' → Derives g c (.element e) c'
  group : ∀ {d d' : Draft} {u}, inner.group d = .ok u d' →
    ∃ ps, Derives g d.cursor (.group ps) d'.cursor ∧ d'.run = d.run.extend ps

namespace Rule

open Read

variable {g : Grammar} {inner : Nested}

/-- A piece of code is a literal, an element, or what the zone makes of
    anything else. -/
theorem piece_derives (hinner : Nested.Derived g inner) {z : Zone} (hz : z ≠ .unnested)
    {otherwise : Drafting Unit} {d d' : Draft} {u : Unit}
    (hother : d.cursor.isAt quotes = false → d.cursor.isAt [Marker.lineComment] = false →
      d.cursor.isAt [Marker.blockOpen] = false → d.cursor.isAt [['<']] = false →
      otherwise d = .ok u d' →
      ∃ ps, Derives g d.cursor (.piece z ps) d'.cursor ∧ d'.run = d.run.extend ps)
    (h : piece inner otherwise d = .ok u d') :
    ∃ ps, Derives g d.cursor (.piece z ps) d'.cursor ∧ d'.run = d.run.extend ps := by
  rw [piece, bind_eq_ok_iff] at h
  simp only [get_eq_ok_iff, ite_eq_ok_iff, Bool.not_eq_true, Drafting.write_eq_ok_iff,
    Drafting.inlay_eq_ok_iff] at h
  -- What was not tried first is kept, since it says what the rest can be.
  rcases h with ⟨_, _, ⟨rfl, rfl⟩, ⟨_, t, c, ht, rfl⟩ | ⟨hquote, h⟩⟩
  · exact ⟨[.text t], Derives.verbatim (Verbatim.string ht), rfl⟩
  rcases h with ⟨_, t, c, ht, rfl⟩ | ⟨hline, h⟩
  · exact ⟨[.text t], Derives.verbatim (Verbatim.lineComment hz ht), rfl⟩
  rcases h with ⟨_, t, c, ht, rfl⟩ | ⟨hblock, h⟩
  · exact ⟨[.text t], Derives.verbatim (Verbatim.blockComment hz ht), rfl⟩
  rcases h with ⟨_, e, c, he, rfl⟩ | ⟨hopen, h⟩
  · exact ⟨[.inlay e c.loc], Derives.inlay hz (hinner.element he), rfl⟩
  · exact hother hquote hline hblock hopen h

/-- A pass over code collects pieces that have a derivation. -/
theorem pass_derives (hinner : Nested.Derived g inner) (z : Zone) {d d' : Draft} {u : Unit}
    (h : z.pass inner d = .ok u d') :
    ∃ ps, Derives g d.cursor (.piece z ps) d'.cursor ∧ d'.run = d.run.extend ps := by
  -- A fragment that is nothing else is taken as it is.
  have hplain : ∀ {z : Zone}, z ≠ .unnested → z.plain d.cursor = true →
      Drafting.write take d = .ok u d' →
      ∃ ps, Derives g d.cursor (.piece z ps) d'.cursor ∧ d'.run = d.run.extend ps := by
    intro z hz hplain htake
    rcases Drafting.write_eq_ok_iff.mp htake with ⟨t, c, ht, rfl⟩
    rcases take_eq_ok_iff.mp ht with ⟨rfl, rfl⟩
    exact ⟨[.text d.cursor.current], Derives.verbatim (Verbatim.plain hz hplain), rfl⟩
  cases z with
  -- A source has no groups: its delimiters are fragments like any other.
  | source =>
      have hz : Zone.source ≠ .unnested := by decide
      refine piece_derives hinner hz (fun hq hl hb ho htake => ?_) h
      exact hplain hz (by simp [Zone.plain, hq, hl, hb, ho]) htake
  | group close =>
      have hz : Zone.group close ≠ .unnested := by
        intro hz
        cases hz
      refine piece_derives hinner hz (fun hq hl hb ho hrest => ?_) h
      rw [bind_eq_ok_iff] at hrest
      simp only [get_eq_ok_iff, ite_eq_ok_iff, Bool.not_eq_true] at hrest
      rcases hrest with ⟨_, _, ⟨rfl, rfl⟩, ⟨_, hgroup⟩ | ⟨hclose, htake⟩⟩
      · rcases hinner.group hgroup with ⟨ps, hps, hrun⟩
        refine ⟨ps, Derives.nest ?_ hps, hrun⟩
        intro hz
        cases hz
      · refine hplain hz ?_ htake
        simp [Zone.plain, hq, hl, hb, ho, Option.isSome_eq_false_iff.mp hclose]
  | unnested =>
      change openPiece inner d = .ok u d' at h
      rw [openPiece, bind_eq_ok_iff] at h
      simp only [get_eq_ok_iff, ite_eq_ok_iff, Bool.not_eq_true, Drafting.write_eq_ok_iff,
        split_eq_ok_iff] at h
      rcases h with ⟨_, _, ⟨rfl, rfl⟩, ⟨_, hgroup⟩ | ⟨hclose, h⟩⟩
      · rcases hinner.group hgroup with ⟨ps, hps, hrun⟩
        exact ⟨ps, Derives.nest (by decide) hps, hrun⟩
      rcases h with ⟨_, t, c, ht, rfl⟩ | ⟨hquote, t, c, ⟨rfl, rfl⟩, rfl⟩
      · exact ⟨[.text t], Derives.verbatim (Verbatim.string ht), rfl⟩
      · refine ⟨[.text _], Derives.verbatim (Verbatim.stretch ?_ hquote), rfl⟩
        exact Option.isNone_iff_eq_none.mp (Option.isSome_eq_false_iff.mp hclose)

/-- A loop over code collects the pieces of its passes. -/
theorem passes_derive (hinner : Nested.Derived g inner) (z : Zone) {limit : Nat} {d d' : Draft}
    {us : List Unit}
    (h : many (fun d => z.ends d.cursor) (z.pass inner) limit d = .ok us d') :
    ∃ ps, Derives g d.cursor (.pieces z ps) d'.cursor ∧ d'.run = d.run.extend ps := by
  induction limit generalizing d us with
  | zero => exact absurd h many_zero_ne_ok
  | succ limit ih =>
      rcases many_eq_ok_iff.mp h with ⟨hend, _, rfl⟩ | ⟨hend, u, d₁, rest, hpass, hrest, _⟩
      · exact ⟨[], Derives.noPieces hend, rfl⟩
      · rcases pass_derives hinner z hpass with ⟨ps, hps, hrun₁⟩
        rcases ih hrest with ⟨qs, hqs, hrun⟩
        refine ⟨ps ++ qs, Derives.pieces hend hps hqs, ?_⟩
        rw [Run.extend_append, ← hrun₁]
        exact hrun

theorem group_derives (hinner : Nested.Derived g inner) {d d' : Draft} {u : Unit}
    (h : group inner d = .ok u d') :
    ∃ ps, Derives g d.cursor (.group ps) d'.cursor ∧ d'.run = d.run.extend ps := by
  rcases group_eq_ok_iff.mp h with ⟨close, us, d₁, hclose, hmany, heof, rfl⟩
  rcases passes_derive hinner (.group close) hmany with ⟨ps, hps, hrun⟩
  refine ⟨_, Derives.group hclose hps heof, ?_⟩
  rw [List.cons_append, Run.extend_cons, Run.extend_append, Run.extend_cons, Run.extend_nil, hrun]
  rfl

theorem code_derives (hinner : Nested.Derived g inner) {c c' : Cursor} {code' : Code}
    (h : code g inner c = .ok code' c') : Derives g c (.code code') c' := by
  cases g with
  | sigil =>
      rcases openCode_eq_ok_iff.mp h with ⟨us, run, hmany, rfl, hne⟩
      rcases passes_derive hinner .unnested hmany with ⟨ps, hps, hrun⟩
      simp only at hrun
      rw [hrun] at hne ⊢
      exact Derives.openCode rfl hps hne
  | brace =>
      rcases bracedCode_eq_ok_iff.mp h with ⟨hat, run, hgroup, rfl⟩
      rcases hinner.group hgroup with ⟨ps, hps, hrun⟩
      simp only at hrun
      rw [hrun]
      exact Derives.bracedCode rfl hat hps

theorem tagEntry_derives (hinner : Nested.Derived g inner) {c c' : Cursor} {a : Attribute}
    (h : tagEntry g inner c = .ok a c') : Derives g c (.entry a) c' := by
  rcases tagEntry_eq_ok_iff.mp h with ⟨_, hprop⟩ | ⟨hid, hat, code', hcode, rfl⟩
  · rcases property_eq_ok_iff.mp hprop with ⟨hid, ⟨heq, rfl, rfl⟩ | ⟨heq, _, v, hv, rfl⟩ |
      ⟨heq, hquote, hbrace, code', hcode, rfl⟩⟩
    · exact Derives.bare hid heq
    · exact Derives.quoted hid heq hv
    · exact Derives.computed hid heq hquote hbrace (code_derives hinner hcode)
  · exact Derives.mixin hid hat (code_derives hinner hcode)

theorem entries_derive (hinner : Nested.Derived g inner) {limit : Nat} {c c' : Cursor}
    {as : List Attribute} (h : many Cursor.tagEnds (spacedEntry g inner) limit c = .ok as c') :
    Derives g c (.entries as) c' := by
  induction limit generalizing c as with
  | zero => exact absurd h many_zero_ne_ok
  | succ limit ih =>
      rcases many_eq_ok_iff.mp h with ⟨hend, rfl, rfl⟩ | ⟨hend, a, c₁, rest, ha, hrest, rfl⟩
      · exact Derives.noEntries hend
      · rcases spacedEntry_eq_ok_iff.mp ha with ⟨c₂, hentry, rfl⟩
        exact Derives.entries hend (tagEntry_derives hinner hentry) (ih hrest)

theorem child_derives (hinner : Nested.Derived g inner) {c c' : Cursor} {x : Child}
    (h : child g inner c = .ok x c') : Derives g c (.child x) c' := by
  rcases child_eq_ok_iff.mp h with ⟨_, e, he, rfl⟩ | ⟨_, hmark, code', hcode, rfl⟩ |
    ⟨_, _, _, hcom⟩ | ⟨hopen, hmark, hcom, rfl, rfl⟩
  · exact Derives.childElement (hinner.element he)
  · exact Derives.insertion hmark (code_derives hinner hcode)
  · exact Derives.comment hcom
  · exact Derives.text hopen hmark hcom

theorem children_derive (hinner : Nested.Derived g inner) {limit : Nat} {c c' : Cursor}
    {xs : List Child} (h : many Cursor.contentEnds (child g inner) limit c = .ok xs c') :
    Derives g c (.children xs) c' := by
  induction limit generalizing c xs with
  | zero => exact absurd h many_zero_ne_ok
  | succ limit ih =>
      rcases many_eq_ok_iff.mp h with ⟨hend, rfl, rfl⟩ | ⟨hend, x, c₁, rest, hx, hrest, rfl⟩
      · exact Derives.noChildren hend
      · exact Derives.children hend (child_derives hinner hx) (ih hrest)

/-- A loop that succeeds was left at its condition. -/
theorem many_ends {σ α : Type} {stop : σ → Bool} {body : EStateM Stop σ α} {limit : Nat}
    {s s' : σ} {as : List α} (h : many stop body limit s = .ok as s') : stop s' = true := by
  induction limit generalizing s as with
  | zero => exact absurd h many_zero_ne_ok
  | succ limit ih =>
      rcases many_eq_ok_iff.mp h with ⟨hend, _, rfl⟩ | ⟨_, _, _, _, _, hrest, _⟩
      · exact hend
      · exact ih hrest

theorem element_derives (hinner : Nested.Derived g inner) {c c' : Cursor} {e : Element}
    (h : element g inner c = .ok e c') : Derives g c (.element e) c' := by
  rcases element_eq_ok_iff.mp h with ⟨hat, hne, as, c₁, has, heof, hend⟩
  have hentries := entries_derive hinner has
  -- The tag was left at one of its two closing marks.
  have hmark : c₁.current = ['>'] ∨ c₁.current = Marker.emptyClose := by
    have hstop := many_ends has
    rw [Cursor.tagEnds, heof, Bool.false_or] at hstop
    have hmem := (Cursor.isAt_iff.mp hstop).2
    simpa only [List.mem_cons, List.not_mem_nil, or_false] using hmem
  rcases hend with ⟨hcur, rfl, rfl⟩ | ⟨hcur, xs, c₂, hxs, hend, rfl⟩
  · refine Derives.emptyElement hat hne hentries (Cursor.isAt_iff.mpr ⟨heof, ?_⟩)
    rw [hcur]
    exact List.mem_singleton_self _
  · rcases endTag_eq_ok_iff.mp hend with ⟨heof₂, htag, hclose, rfl⟩
    have hstop := many_ends hxs
    rw [Cursor.contentEnds, heof₂, Bool.false_or] at hstop
    refine Derives.fullElement hat hne hentries (Cursor.isAt_iff.mpr ⟨heof, ?_⟩)
      (children_derive hinner hxs) hstop htag hclose
    rw [hmark.resolve_right hcur]
    exact List.mem_singleton_self _

/-- Every run of a nested rule has a derivation. -/
theorem nested_derived (g : Grammar) (n : Nat) : Nested.Derived g (nested g n) := by
  induction n with
  | zero => exact ⟨fun h => absurd h throw_ne_ok, fun h => absurd h throw_ne_ok⟩
  | succ n ih => exact ⟨fun h => element_derives ih h, fun h => group_derives ih h⟩

end Rule

/-! ### From derivations to runs -/

theorem Contract.of_ok {ε σ α : Type} {P : σ → Prop} {x : EStateM ε σ α} {Q : α → σ → Prop}
    {E : ε → σ → Prop} {s s' : σ} {a : α} (h : Contract P x Q E) (hs : P s)
    (hx : x s = .ok a s') : Q a s' := by
  have hq := h s hs
  rw [hx] at hq
  exact hq

/-- A phrase is read from `c` to `c'` by the rule for it, in every run that is
    allowed a nesting deeper than there are unread characters. -/
def Phrase.Runs (g : Grammar) (c : Cursor) : Phrase → Cursor → Prop
  | .piece z ps, c' => ∀ depth, c.size < depth → ∀ run,
    z.pass (Rule.nested g depth) { cursor := c, run } =
      .ok () { cursor := c', run := run.extend ps }
  | .pieces z ps, c' => ∀ depth limit, c.size < depth → c.size < limit → ∀ run, ∃ us,
    many (fun d => z.ends d.cursor) (z.pass (Rule.nested g depth)) limit { cursor := c, run } =
      .ok us { cursor := c', run := run.extend ps }
  | .group ps, c' => ∀ depth, c.size < depth → ∀ run,
    (Rule.nested g depth).group { cursor := c, run } =
      .ok () { cursor := c', run := run.extend ps }
  | .code ss, c' => ∀ depth, c.size < depth → Rule.code g (Rule.nested g depth) c = .ok ss c'
  | .entry a, c' => ∀ depth, c.size < depth → Rule.tagEntry g (Rule.nested g depth) c = .ok a c'
  | .entries as, c' => ∀ depth limit, c.size < depth → c.size < limit →
    many Cursor.tagEnds (Rule.spacedEntry g (Rule.nested g depth)) limit c = .ok as c'
  | .child x, c' => ∀ depth, c.size < depth → Rule.child g (Rule.nested g depth) c = .ok x c'
  | .children xs, c' => ∀ depth limit, c.size < depth → c.size < limit →
    many Cursor.contentEnds (Rule.child g (Rule.nested g depth)) limit c = .ok xs c'
  | .element e, c' => ∀ depth, c.size < depth → (Rule.nested g depth).element c = .ok e c'

namespace Rule

open Read

variable {g : Grammar}

theorem depth_nested (g : Grammar) (n : Nat) : (nested g n).depth = n := by
  cases n with
  | zero => rfl
  | succ n => rfl

/-- A pass over code leaves less unread wherever the code goes on. -/
theorem pass_size_lt {z : Zone} {depth : Nat} {d d' : Draft} {u : Unit}
    (hdepth : d.cursor.size < depth) (hend : z.ends d.cursor = false)
    (h : z.pass (nested g depth) d = .ok u d') : d'.cursor.size < d.cursor.size := by
  have hinner := nested_bounded g depth
  cases z with
  | source =>
      exact (piece_shrinks hinner hdepth write_take_shrinks).of_ok ⟨Nat.le_refl _, hend⟩ h
  | group close =>
      exact (groupPiece_shrinks hinner hdepth).of_ok
        ⟨Nat.le_refl _, (Bool.or_eq_false_iff.mp hend).1⟩ h
  | unnested =>
      exact (openPiece_shrinks hinner hdepth).of_ok
        ⟨Nat.le_refl _, (Bool.or_eq_false_iff.mp hend).1, hend⟩ h

/-- What is taken over as it is, is taken by the pass of its zone. -/
theorem pass_of_verbatim {inner : Nested} {z : Zone} {c c' : Cursor} {t : List Char}
    (h : Verbatim z c t c') (run : Run) :
    z.pass inner { cursor := c, run } = .ok () { cursor := c', run := run.append t } := by
  -- In the source and in groups a piece is tried as each literal in turn.
  have hpiece : ∀ {z : Zone} {x : Drafting Unit}, z ≠ .unnested →
      (∀ otherwise, piece inner otherwise { cursor := c, run } = x { cursor := c, run }) →
      x { cursor := c, run } = .ok () { cursor := c', run := run.append t } →
      z.pass inner { cursor := c, run } = .ok () { cursor := c', run := run.append t } := by
    intro z x hz hx hok
    cases z with
    | source => exact (hx _).trans hok
    | group close => exact (hx _).trans hok
    | unnested => exact absurd rfl hz
  cases h with
  | string ht =>
      have hat := (quotedString_eq_ok_iff.mp ht).1
      have hwrite : Drafting.write quotedString { cursor := c, run } =
          .ok () { cursor := c', run := run.append t } :=
        Drafting.write_eq_ok_iff.mpr ⟨t, c', ht, rfl⟩
      by_cases hz : z = .unnested
      · have hclose : c.closer? = none := by
          rcases Cursor.isAt_quotes hat with hq | hq
          · exact Cursor.closer?_eq_none hq (by decide)
          · exact Cursor.closer?_eq_none hq (by decide)
        subst hz
        change openPiece inner { cursor := c, run } = _
        rw [openPiece, bind_eq_ok_iff]
        refine ⟨_, _, get_eq_ok_iff.mpr ⟨rfl, rfl⟩, ?_⟩
        simp only [hclose, Option.isSome_none, Bool.false_eq_true, if_false, hat, if_true]
        exact hwrite
      · refine hpiece hz (fun otherwise => ?_) hwrite
        simp only [piece, get_bind_eq, hat, if_true]
  | lineComment hz ht =>
      have hat := (lineComment_eq_ok_iff.mp ht).1
      refine hpiece hz (fun otherwise => ?_) (Drafting.write_eq_ok_iff.mpr ⟨t, c', ht, rfl⟩)
      have hq : c.isAt quotes = false := by rw [Cursor.isAt_eq_contains hat]; decide
      simp only [piece, get_bind_eq, hq, hat, if_true, Bool.false_eq_true, if_false]
  | blockComment hz ht =>
      have hat := (blockComment_eq_ok_iff.mp ht).1
      refine hpiece hz (fun otherwise => ?_) (Drafting.write_eq_ok_iff.mpr ⟨t, c', ht, rfl⟩)
      have hq : c.isAt quotes = false := by rw [Cursor.isAt_eq_contains hat]; decide
      have hl : c.isAt [Marker.lineComment] = false := by rw [Cursor.isAt_eq_contains hat]; decide
      simp only [piece, get_bind_eq, hq, hl, hat, if_true, Bool.false_eq_true, if_false]
  | plain hz hplain =>
      simp only [Zone.plain, Bool.and_eq_true, Bool.not_eq_true', Bool.or_eq_true,
        decide_eq_true_eq] at hplain
      rcases hplain with ⟨⟨⟨⟨hq, hl⟩, hb⟩, ho⟩, hnest⟩
      have htake : Drafting.write take { cursor := c, run } =
          .ok () { cursor := c.advance, run := run.append c.current } :=
        Drafting.write_eq_ok_iff.mpr ⟨_, _, take_eq_ok_iff.mpr ⟨rfl, rfl⟩, rfl⟩
      have hother : ∀ otherwise, piece inner otherwise { cursor := c, run } =
          otherwise { cursor := c, run } := by
        intro otherwise
        simp only [piece, get_bind_eq, hq, hl, hb, ho, Bool.false_eq_true, if_false]
      cases z with
      | source => exact (hother _).trans htake
      | group close =>
          have hnone : c.closer?.isSome = false := by
            rcases hnest with hnest | hnest
            · cases hnest
            · exact Option.isSome_eq_false_iff.mpr hnest
          refine (hother _).trans ?_
          simp only [get_bind_eq, hnone, Bool.false_eq_true, if_false]
          exact htake
      | unnested => exact absurd rfl hz
  | stretch hclose hquote =>
      change openPiece inner { cursor := c, run } = _
      rw [openPiece, bind_eq_ok_iff]
      refine ⟨_, _, get_eq_ok_iff.mpr ⟨rfl, rfl⟩, ?_⟩
      simp only [hclose, Option.isSome_none, Bool.false_eq_true, if_false, hquote]
      exact Drafting.write_eq_ok_iff.mpr ⟨_, _, split_eq_ok_iff.mpr ⟨rfl, rfl⟩, rfl⟩

/-- An element that begins here is inlaid by the pass of the zone. -/
theorem pass_of_element {inner : Nested} {z : Zone} (hz : z ≠ .unnested) {c c' : Cursor}
    {e : Element} (hat : c.isAt [['<']] = true) (he : inner.element c = .ok e c') (run : Run) :
    z.pass inner { cursor := c, run } =
      .ok () { cursor := c', run := run.inlay e c'.loc } := by
  have hq : c.isAt quotes = false := by rw [Cursor.isAt_eq_contains hat]; decide
  have hl : c.isAt [Marker.lineComment] = false := by rw [Cursor.isAt_eq_contains hat]; decide
  have hb : c.isAt [Marker.blockOpen] = false := by rw [Cursor.isAt_eq_contains hat]; decide
  have hpiece : ∀ otherwise, piece inner otherwise { cursor := c, run } =
      .ok () { cursor := c', run := run.inlay e c'.loc } := by
    intro otherwise
    simp only [piece, get_bind_eq, hq, hl, hb, hat, if_true, Bool.false_eq_true, if_false]
    exact Drafting.inlay_eq_ok_iff.mpr ⟨e, c', he, rfl⟩
  cases z with
  | source => exact hpiece _
  | group close => exact hpiece _
  | unnested => exact absurd rfl hz

/-- A group that begins here is collected by the pass of the zone. -/
theorem pass_of_group {inner : Nested} {z : Zone} (hz : z ≠ .source) {c c' : Cursor}
    {run run' : Run} {close : List Char} (hclose : c.closer? = some close)
    (h : inner.group { cursor := c, run } = .ok () { cursor := c', run := run' }) :
    z.pass inner { cursor := c, run } = .ok () { cursor := c', run := run' } := by
  have hq : c.isAt quotes = false :=
    Cursor.isAt_of_closer? hclose (by decide) (by decide) (by decide) (by decide)
  have hl : c.isAt [Marker.lineComment] = false :=
    Cursor.isAt_of_closer? hclose (by decide) (by decide) (by decide) (by decide)
  have hb : c.isAt [Marker.blockOpen] = false :=
    Cursor.isAt_of_closer? hclose (by decide) (by decide) (by decide) (by decide)
  have ho : c.isAt [['<']] = false :=
    Cursor.isAt_of_closer? hclose (by decide) (by decide) (by decide) (by decide)
  cases z with
  | source => exact absurd rfl hz
  | group close' =>
      change groupPiece inner { cursor := c, run } = _
      simp only [groupPiece, piece, get_bind_eq, hq, hl, hb, ho, hclose, Option.isSome_some,
        if_true, Bool.false_eq_true, if_false]
      exact h
  | unnested =>
      change openPiece inner { cursor := c, run } = _
      simp only [openPiece, get_bind_eq, hclose, Option.isSome_some, if_true]
      exact h

end Rule

theorem Derives.isAt_of_element {g : Grammar} {c c' : Cursor} {e : Element}
    (h : Derives g c (.element e) c') : c.isAt [['<']] = true := by
  cases h with
  | emptyElement hat => exact hat
  | fullElement hat => exact hat

theorem Derives.closer?_of_group {g : Grammar} {c c' : Cursor} {ps : List Piece}
    (h : Derives g c (.group ps) c') : ∃ close, c.closer? = some close := by
  cases h with
  | group hclose => exact ⟨_, hclose⟩

/-- Every derivation is a run. -/
theorem Derives.runs {g : Grammar} {c c' : Cursor} {p : Phrase} (h : Derives g c p c') :
    p.Runs g c c' := by
  -- The rules of loops ask that the first pass makes progress, and the rules
  -- of elements and groups that their opening mark is passed.
  induction h with
  | verbatim hv => exact fun depth _ run => Rule.pass_of_verbatim hv run
  | inlay hz he ih =>
      exact fun depth hdepth run => Rule.pass_of_element hz he.isAt_of_element (ih depth hdepth) run
  | nest hz hgroup ih =>
      intro depth hdepth run
      rcases hgroup.closer?_of_group with ⟨close, hclose⟩
      exact Rule.pass_of_group hz hclose (ih depth hdepth run)
  | @noPieces z c hend =>
      intro depth limit _ hlimit run
      cases limit with
      | zero => omega
      | succ limit => exact ⟨[], many_eq_ok_iff.mpr (Or.inl ⟨hend, rfl, rfl⟩)⟩
  | @pieces z c c₁ c' ps qs hend _ _ ihpass ihrest =>
      intro depth limit hdepth hlimit run
      cases limit with
      | zero => omega
      | succ limit =>
          have hpass := ihpass depth hdepth run
          have hsize := Rule.pass_size_lt (d := { cursor := c, run }) hdepth hend hpass
          simp only at hsize
          rcases ihrest depth limit (by omega) (by omega) (run.extend ps) with ⟨us, hrest⟩
          refine ⟨() :: us, many_eq_ok_iff.mpr (Or.inr ⟨hend, (), _, us, hpass, ?_, rfl⟩)⟩
          rw [Run.extend_append]
          exact hrest
  | @group c c₁ close ps hclose _ heof ih =>
      intro depth hdepth run
      cases depth with
      | zero => omega
      | succ depth =>
          have hsize : c.advance.size < c.size :=
            Cursor.size_advance_lt (Cursor.eof_of_closer? (by rw [hclose]; rfl))
          rcases ih depth depth (by omega) (by omega) (run.append c.current) with ⟨us, hmany⟩
          refine Rule.group_eq_ok_iff.mpr ⟨close, us,
            { cursor := c₁, run := (run.append c.current).extend ps }, hclose, ?_, heof, ?_⟩
          · rw [Rule.depth_nested]
            exact hmany
          · rw [List.cons_append, Run.extend_cons, Run.extend_append]
            rfl
  | @openCode c c' ps hg _ hne ih =>
      intro depth hdepth
      rcases ih depth depth hdepth hdepth { loc := c.loc } with ⟨us, hmany⟩
      subst hg
      refine Rule.openCode_eq_ok_iff.mpr ⟨us, _, ?_, rfl, hne⟩
      rw [Rule.depth_nested]
      exact hmany
  | bracedCode hg hat _ ih =>
      intro depth hdepth
      subst hg
      exact Rule.bracedCode_eq_ok_iff.mpr ⟨hat, _, ih depth hdepth _, rfl⟩
  | bare hid heq =>
      intro depth _
      exact Rule.tagEntry_eq_ok_iff.mpr
        (Or.inl ⟨hid, Rule.property_eq_ok_iff.mpr ⟨hid, Or.inl ⟨heq, rfl, rfl⟩⟩⟩)
  | quoted hid heq hv =>
      intro depth _
      have hquote := (Rule.quotedString_eq_ok_iff.mp hv).1
      exact Rule.tagEntry_eq_ok_iff.mpr (Or.inl ⟨hid, Rule.property_eq_ok_iff.mpr
        ⟨hid, Or.inr (Or.inl ⟨heq, hquote, _, hv, rfl⟩)⟩⟩)
  | @computed c c' code hid heq hquote hbrace _ ih =>
      intro depth hdepth
      have hsize : c.pastName.pastSign.size ≤ c.size := by
        have h1 := c.pastName.advance.size_skipBlank_le
        have h2 := c.pastName.size_advance_le
        have h3 := (c.split Pattern.identifier).2.size_skipBlank_le
        have h4 := c.size_split_le Pattern.identifier
        simp only [Cursor.pastSign, Cursor.pastName] at *
        omega
      exact Rule.tagEntry_eq_ok_iff.mpr (Or.inl ⟨hid, Rule.property_eq_ok_iff.mpr
        ⟨hid, Or.inr (Or.inr ⟨heq, hquote, hbrace, _, ih depth (by omega), rfl⟩)⟩⟩)
  | @mixin c c' code hid hat _ ih =>
      intro depth hdepth
      have hsize : (g.behindMark c).size ≤ c.size := g.size_behindMark_le c
      exact Rule.tagEntry_eq_ok_iff.mpr (Or.inr ⟨hid, hat, _, ih depth (by omega), rfl⟩)
  | @noEntries c hend =>
      intro depth limit _ hlimit
      cases limit with
      | zero => omega
      | succ limit => exact many_eq_ok_iff.mpr (Or.inl ⟨hend, rfl, rfl⟩)
  | @entries c c₁ c' a as hend _ _ ihentry ihrest =>
      intro depth limit hdepth hlimit
      cases limit with
      | zero => omega
      | succ limit =>
          have hentry : Rule.spacedEntry g (Rule.nested g depth) c = .ok a c₁.skipBlank :=
            Rule.spacedEntry_eq_ok_iff.mpr ⟨c₁, ihentry depth hdepth, rfl⟩
          have hsize : c₁.skipBlank.size < c.size :=
            (Rule.spacedEntry_shrinks (Rule.nested_bounded g depth) hdepth).of_ok
              (Nat.le_refl _) hentry
          exact many_eq_ok_iff.mpr
            (Or.inr ⟨hend, a, _, as, hentry, ihrest depth limit (by omega) (by omega), rfl⟩)
  | childElement he ih =>
      intro depth hdepth
      exact Rule.child_eq_ok_iff.mpr (Or.inl ⟨he.isAt_of_element, _, ih depth hdepth, rfl⟩)
  | @insertion c c' code hat _ ih =>
      intro depth hdepth
      have hsize : (g.behindMark c).size ≤ c.size := g.size_behindMark_le c
      have hopen : c.isAt [['<']] = false := by
        rw [Cursor.isAt_eq_contains hat]
        cases g <;> decide
      exact Rule.child_eq_ok_iff.mpr
        (Or.inr (Or.inl ⟨hopen, hat, _, ih depth (by omega), rfl⟩))
  | @comment c c' x hcom =>
      intro depth _
      have hat := (Rule.comment_eq_ok_iff.mp hcom).1
      have hopen : c.isAt [['<']] = false := by rw [Cursor.isAt_eq_contains hat]; decide
      have hmark : c.isAt [g.insertionMark] = false := by
        rw [Cursor.isAt_eq_contains hat]
        cases g <;> decide
      exact Rule.child_eq_ok_iff.mpr (Or.inr (Or.inr (Or.inl ⟨hopen, hmark, hat, hcom⟩)))
  | text hopen hmark hcom =>
      intro depth _
      exact Rule.child_eq_ok_iff.mpr (Or.inr (Or.inr (Or.inr ⟨hopen, hmark, hcom, rfl, rfl⟩)))
  | @noChildren c hend =>
      intro depth limit _ hlimit
      cases limit with
      | zero => omega
      | succ limit => exact many_eq_ok_iff.mpr (Or.inl ⟨hend, rfl, rfl⟩)
  | @children c c₁ c' x xs hend _ _ ihchild ihrest =>
      intro depth limit hdepth hlimit
      cases limit with
      | zero => omega
      | succ limit =>
          have hchild := ihchild depth hdepth
          have hsize : c₁.size < c.size :=
            (Rule.child_shrinks (Rule.nested_bounded g depth) hdepth).of_ok
              ⟨Nat.le_refl _, Bool.or_eq_false_iff.mp hend⟩ hchild
          exact many_eq_ok_iff.mpr
            (Or.inr ⟨hend, x, _, xs, hchild, ihrest depth limit (by omega) (by omega), rfl⟩)
  | @emptyElement c c₁ as hat hne _ hclose ih =>
      intro depth hdepth
      cases depth with
      | zero => omega
      | succ depth =>
          have hsize := c.size_tagEntries_lt hat
          rcases Cursor.isAt_iff.mp hclose with ⟨heof, hcur⟩
          refine Rule.element_eq_ok_iff.mpr ⟨hat, hne, as, c₁, ?_, heof,
            Or.inl ⟨List.mem_singleton.mp hcur, rfl, rfl⟩⟩
          rw [Rule.depth_nested]
          exact ih depth depth (by omega) (by omega)
  | @fullElement c c₁ c₂ as xs hat hne hentries hclose _ hend htag hlast ihas ihxs =>
      intro depth hdepth
      cases depth with
      | zero => omega
      | succ depth =>
          have hsize := c.size_tagEntries_lt hat
          rcases Cursor.isAt_iff.mp hclose with ⟨heof, hcur⟩
          have hrun := ihas depth depth (by omega) (by omega)
          -- The content is read behind the tag, so what its loop is allowed is
          -- enough if it was enough for the loop over the entries.
          have hsize₁ : c₁.size ≤ c.advance.pastName.size :=
            (Rule.parts_end (by omega) fun j hj =>
              (Rule.spacedEntry_shrinks (Rule.nested_bounded g depth) (by omega)).strengthen
                fun _ h => h.1).of_ok (Nat.le_refl _) hrun
          have hsize₂ := c₁.size_advance_le
          refine Rule.element_eq_ok_iff.mpr ⟨hat, hne, as, c₁, ?_, heof,
            Or.inr ⟨?_, xs, c₂, ?_, Rule.endTag_eq_ok_iff.mpr
              ⟨Cursor.eof_of_isAt hend, htag, hlast, rfl⟩, rfl⟩⟩
          · rw [Rule.depth_nested]
            exact hrun
          · rw [List.mem_singleton.mp hcur]
            decide
          · rw [Rule.depth_nested]
            exact ihxs depth depth (by omega) (by omega)

/-! ### Whole sources -/

theorem settle_eq_ok_iff {σ α : Type} {r : EStateM.Result Stop σ α}
    {h : ∀ s, r ≠ .error .exhausted s} {a : α} {s : σ} : settle r h = .ok a s ↔ r = .ok a s := by
  match r, h with
  | .ok b s', h => simp only [settle, EStateM.Result.ok.injEq]
  | .error (.failure f) s', h => simp only [settle, reduceCtorEq]
  | .error .exhausted s', h => exact absurd rfl (h s')

/-- A whole source is read exactly if it is host code from its start to its
    end, and the tree holds the code. -/
theorem topLevel_eq_ok_iff {g : Grammar} {c c' : Cursor} {r : Root} :
    Parser.topLevel g c = .ok r c' ↔
      ∃ ps, Derives g c (.pieces .source ps) c' ∧
        r = { segments := (Run.extend { loc := c.loc } ps).flush.segments } := by
  rw [Parser.topLevel, Parser.run, settle_eq_ok_iff, Rule.topLevel_eq_ok_iff, Rule.depth_nested]
  constructor
  · rintro ⟨us, run, hmany, rfl⟩
    rcases Rule.passes_derive (Rule.nested_derived g _) .source hmany with ⟨ps, hps, hrun⟩
    simp only at hrun
    exact ⟨ps, hps, by rw [hrun]⟩
  · rintro ⟨ps, hps, rfl⟩
    rcases hps.runs (c.size + 1) (c.size + 1) (Nat.lt_succ_self _) (Nat.lt_succ_self _)
      { loc := c.loc } with ⟨us, hmany⟩
    exact ⟨us, _, hmany, rfl⟩

theorem parse_eq_ok_iff {g : Grammar} {fragments : List (List Char)} {r : Root} :
    parse g fragments = .ok r ↔
      ∃ ps c', Derives g (Cursor.ofTexts fragments) (.pieces .source ps) c' ∧
        r = { segments := (Run.extend { loc := {} } ps).flush.segments } := by
  rw [parse]
  constructor
  · intro h
    cases hread : Parser.topLevel g (Cursor.ofTexts fragments) with
    | ok r' c' =>
        rw [hread, Except.ok.injEq] at h
        rcases topLevel_eq_ok_iff.mp hread with ⟨ps, hps, hr⟩
        exact ⟨ps, c', hps, h ▸ hr⟩
    | error f c' =>
        rw [hread] at h
        cases h
  · rintro ⟨ps, c', hps, rfl⟩
    rw [topLevel_eq_ok_iff.mpr ⟨ps, hps, rfl⟩]
    rfl

end Inlay
