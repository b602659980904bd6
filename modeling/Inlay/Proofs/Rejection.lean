import Inlay.Proofs.Refusal
import Inlay.Proofs.Rendering
import Inlay.Proofs.Tasks
import Inlay.Proofs.Termination

/-!
# Adequacy of Failure

Runs that fail and tasks that fail are two descriptions of the same thing, and
this module goes from one to the other. It is the counterpart of
`Inlay.Proofs.Adequacy`, with which it has the plan in common: from a run to a
chain of tasks the argument is an induction on the depth of nesting, and from
a chain of tasks to a run it follows the chain, with limits that are not
reached because there is less to read at every step.

With both, a parse fails exactly if there is a chain of tasks from the start
of the source to a failure, and the diagnostic is the one of that failure.

## Main definitions

* `Rule.Nested.Rejecting`: Nested rules whose failures are failures of tasks.
* `Task.Refused`: A task that fails when the rule for it is run.

## Theorems

* `Rule.nested_rejecting`: Every failure of a nested rule is one of its task.
* `Enters.refused`, `Raises.refused`: Every failure of a task is one of its
  rule.
* `parse_eq_error_iff`: A parse fails exactly if the task to read the source
  does.
* `DraftParser.group_eq_ok_iff`, `DraftParser.group_eq_error_iff`,
  `Parser.openCode_eq_ok_iff`, `Parser.openCode_eq_error_iff`: The same for
  groups and for code that ends by itself.
-/

namespace Inlay

/-- A brace opens a group, whatever follows it. -/
theorem Cursor.closer?_brace {c : Cursor} (h : c.isAt [['{'], Marker.spread] = true) :
    c.closer? = some ['}'] := by
  have hmem := (isAt_iff.mp h).2
  simp only [List.mem_cons, List.not_mem_nil, or_false] at hmem
  unfold closer?
  rcases hmem with hmem | hmem
  · rw [hmem]
    rfl
  · rw [hmem]
    rfl

/-- The value of a property is read behind its name and its sign. -/
theorem Cursor.size_value_le (c : Cursor) : c.pastName.pastSign.size ≤ c.size := by
  have h1 := c.pastName.advance.size_skipBlank_le
  have h2 := c.pastName.size_advance_le
  have h3 := (c.split Pattern.identifier).2.size_skipBlank_le
  have h4 := c.size_split_le Pattern.identifier
  simp only [pastSign, pastName] at *
  omega

/-! ### Code that collects nothing -/

/-- A pass over code leaves less unread wherever the code goes on. -/
theorem Derives.size_lt {g : Grammar} {z : Zone} {ps : List Piece} {c c' : Cursor}
    (h : Derives g c (.piece z ps) c') (hend : z.ends c = false) : c'.size < c.size :=
  Rule.pass_size_lt (d := { cursor := c, run := { loc := c.loc } }) (Nat.lt_succ_self c.size) hend
    (h.runs (c.size + 1) (Nat.lt_succ_self c.size) { loc := c.loc })

/-- Code of which nothing is left was over where it began. -/
theorem Derives.ends_of_nothing {g : Grammar} {z : Zone} {ps : List Piece} {c c' : Cursor}
    {loc : Location} (h : Derives g c (.pieces z ps) c')
    (hnil : (Run.extend { loc } ps).flush.segments = []) : z.ends c = true := by
  -- The source renders the code, and nothing is all that no code renders as.
  have hsame : c'.size = c.size := by
    rcases h.rendered with ⟨t, ht, hrest⟩
    have hrun : Run.Renders g { loc } [] := ⟨[], CodeRenders.nil, rfl⟩
    have hcode := (hrun.extend ht).flush
    rw [hnil, List.nil_append] at hcode
    cases hcode
    rw [Cursor.size, Cursor.size, hrest, List.nil_append]
  cases h with
  | noPieces hend => exact hend
  | pieces hend hpass hrest =>
      have hlt := hpass.size_lt hend
      have hle := hrest.size_le
      omega

namespace Rule

open Read

variable {c : Cursor} {f : Failure} {g : Grammar} {inner : Nested}

/-- A piece of code fails as the string, the comment or the element that
    begins here, or as what the zone makes of anything else. -/
theorem piece_refuses_iff {otherwise : Drafting Unit} {d : Draft} :
    Refuses (piece inner otherwise) d f ↔
      d.cursor.isAt quotes = true ∧ Refuses quotedString d.cursor f ∨
        d.cursor.isAt [Marker.blockOpen] = true ∧ Refuses blockComment d.cursor f ∨
        d.cursor.isAt [['<']] = true ∧ Refuses inner.element d.cursor f ∨
        d.cursor.isAt quotes = false ∧ d.cursor.isAt [Marker.lineComment] = false ∧
          d.cursor.isAt [Marker.blockOpen] = false ∧ d.cursor.isAt [['<']] = false ∧
          Refuses otherwise d f := by
  rw [piece, get_bind_refuses_iff]
  simp only [ite_refuses_iff, Drafting.write_refuses_iff, Drafting.inlay_refuses_iff,
    lineComment_refuses_iff, Bool.not_eq_true]
  constructor
  · rintro (h | ⟨hquote, ⟨hline, hnot, _⟩ | ⟨hline, h | ⟨hblock, h | ⟨hopen, h⟩⟩⟩⟩)
    · exact Or.inl h
    · rw [hline] at hnot
      cases hnot
    · exact Or.inr (Or.inl h)
    · exact Or.inr (Or.inr (Or.inl h))
    · exact Or.inr (Or.inr (Or.inr ⟨hquote, hline, hblock, hopen, h⟩))
  -- A fragment is one thing only, so what is tried before it does not apply.
  · rintro (h | ⟨hblock, h⟩ | ⟨hopen, h⟩ | ⟨hquote, hline, hblock, hopen, h⟩)
    · exact Or.inl h
    · exact Or.inr ⟨(Cursor.isAt_eq_contains hblock _).trans (by decide),
        Or.inr ⟨(Cursor.isAt_eq_contains hblock _).trans (by decide), Or.inl ⟨hblock, h⟩⟩⟩
    · exact Or.inr ⟨(Cursor.isAt_eq_contains hopen _).trans (by decide),
        Or.inr ⟨(Cursor.isAt_eq_contains hopen _).trans (by decide),
          Or.inr ⟨(Cursor.isAt_eq_contains hopen _).trans (by decide), Or.inl ⟨hopen, h⟩⟩⟩⟩
    · exact Or.inr ⟨hquote, Or.inr ⟨hline, Or.inr ⟨hblock, Or.inr ⟨hopen, h⟩⟩⟩⟩

/-- A pass over code fails as the string, the comment, the element or the
    group that begins here, as far as the zone has them. -/
theorem pass_refuses_iff {z : Zone} {d : Draft} :
    Refuses (z.pass inner) d f ↔
      d.cursor.isAt quotes = true ∧ Refuses quotedString d.cursor f ∨
        z ≠ .unnested ∧ d.cursor.isAt [Marker.blockOpen] = true ∧ Refuses blockComment d.cursor f ∨
        z ≠ .unnested ∧ d.cursor.isAt [['<']] = true ∧ Refuses inner.element d.cursor f ∨
        z ≠ .source ∧ d.cursor.closer?.isSome = true ∧ Refuses inner.group d f := by
  -- An opening delimiter is no string, no comment and no element.
  have hother : ∀ {texts : List (List Char)}, d.cursor.closer?.isSome = true →
      texts.contains ['('] = false → texts.contains ['['] = false →
      texts.contains ['{'] = false → texts.contains Marker.spread = false →
      d.cursor.isAt texts = false := by
    intro texts hclose hp hb hc hs
    rcases Option.isSome_iff_exists.mp hclose with ⟨close, hclose⟩
    exact Cursor.isAt_of_closer? hclose hp hb hc hs
  cases z with
  | source =>
      have hpass : Zone.source.pass inner = piece inner (Drafting.write take) := rfl
      rw [hpass, piece_refuses_iff]
      simp only [Drafting.write_refuses_iff, not_take_refuses, and_false, or_false, ne_eq,
        reduceCtorEq, not_false_eq_true, not_true_eq_false, true_and, false_and]
  | group close =>
      have hpass : (Zone.group close).pass inner = groupPiece inner := rfl
      rw [hpass, groupPiece, piece_refuses_iff, get_bind_refuses_iff]
      simp only [ite_refuses_iff, Drafting.write_refuses_iff, not_take_refuses, and_false, or_false,
        ne_eq, reduceCtorEq, not_false_eq_true, true_and]
      constructor
      · rintro (h | h | h | ⟨_, _, _, _, h⟩)
        · exact Or.inl h
        · exact Or.inr (Or.inl h)
        · exact Or.inr (Or.inr (Or.inl h))
        · exact Or.inr (Or.inr (Or.inr h))
      · rintro (h | h | h | ⟨hclose, h⟩)
        · exact Or.inl h
        · exact Or.inr (Or.inl h)
        · exact Or.inr (Or.inr (Or.inl h))
        · refine Or.inr (Or.inr (Or.inr ⟨?_, ?_, ?_, ?_, hclose, h⟩)) <;>
            exact hother hclose (by decide) (by decide) (by decide) (by decide)
  | unnested =>
      have hpass : Zone.unnested.pass inner = openPiece inner := rfl
      rw [hpass, openPiece, get_bind_refuses_iff]
      simp only [ite_refuses_iff, Drafting.write_refuses_iff, not_split_refuses, and_false,
        or_false, ne_eq, reduceCtorEq, not_false_eq_true, not_true_eq_false, true_and, false_and,
        false_or]
      constructor
      · rintro (h | ⟨_, h⟩)
        · exact Or.inr h
        · exact Or.inl h
      · rintro (⟨hquote, h⟩ | h)
        · refine Or.inr ⟨fun hclose => ?_, hquote, h⟩
          rw [hother hclose (by decide) (by decide) (by decide) (by decide)] at hquote
          cases hquote
        · exact Or.inl h
/-! ### From runs to tasks -/

/-- What nests in a rule fails as its task does, where it is entered. -/
structure Nested.Rejecting (g : Grammar) (inner : Nested) : Prop
    extends Nested.Derived g inner where
  refusedElement : ∀ {c f}, c.isAt [['<']] = true → Refuses inner.element c f →
    Fails g ⟨.element, c⟩ f
  refusedGroup : ∀ {d : Draft} {f}, d.cursor.closer?.isSome = true → Refuses inner.group d f →
    Fails g ⟨.group, d.cursor⟩ f

theorem pass_fails (hinner : Nested.Rejecting g inner) {z : Zone} {d : Draft}
    (h : Refuses (z.pass inner) d f) : Fails g ⟨.piece z, d.cursor⟩ f := by
  rcases pass_refuses_iff.mp h with ⟨hat, h⟩ | ⟨hz, hat, h⟩ | ⟨hz, hat, h⟩ | ⟨hz, hclose, h⟩
  · rcases quotedString_refuses_iff.mp h with ⟨hnot, _⟩ | ⟨_, heof, rfl⟩
    · rw [hat] at hnot
      cases hnot
    · exact (Raises.string hat heof).fails
  · rcases blockComment_refuses_iff.mp h with ⟨hnot, _⟩ | ⟨_, heof, rfl⟩
    · rw [hat] at hnot
      cases hnot
    · exact (Raises.block hz hat heof).fails
  · exact (Enters.inlay hz hat).fails (hinner.refusedElement hat h)
  · exact (Enters.nest hz hclose).fails (hinner.refusedGroup hclose h)

/-- A loop over code fails in one of its passes. -/
theorem passes_fail (hinner : Nested.Rejecting g inner) {z : Zone} {limit : Nat} {d : Draft}
    (h : Refuses (many (fun d => z.ends d.cursor) (z.pass inner) limit) d f) :
    Fails g ⟨.pieces z, d.cursor⟩ f := by
  induction limit generalizing d with
  | zero => exact absurd h not_many_zero_refuses
  | succ limit ih =>
      rcases many_refuses_iff.mp h with ⟨hend, h | ⟨_, d₁, hpass, h⟩⟩
      · exact (Enters.piece hend).fails (pass_fails hinner h)
      · rcases pass_derives hinner.toDerived z hpass with ⟨ps, hps, _⟩
        exact (Enters.pieces hend hps).fails (ih h)

theorem group_fails (hinner : Nested.Rejecting g inner) {d : Draft}
    (hopen : d.cursor.closer?.isSome = true) (h : Refuses (group inner) d f) :
    Fails g ⟨.group, d.cursor⟩ f := by
  rcases group_refuses_iff.mp h with ⟨hnone, _⟩ | ⟨close, hclose, h | ⟨_, d₁, hmany, heof, rfl⟩⟩
  · rw [hnone] at hopen
    cases hopen
  · exact (Enters.group hclose).fails (passes_fail (z := .group close) hinner h)
  · rcases passes_derive hinner.toDerived (.group close) hmany with ⟨ps, hps, _⟩
    exact (Raises.group hclose hps heof).fails

theorem code_fails (hinner : Nested.Rejecting g inner) (hat : g = .brace →
      c.isAt [['{'], Marker.spread] = true) (h : Refuses (code g inner) c f) :
    Fails g ⟨.code, c⟩ f := by
  cases g with
  | sigil =>
      rcases openCode_refuses_iff.mp h with h | ⟨_, run, c', hmany, hnil, rfl⟩
      · exact (Enters.openCode rfl).fails (passes_fail (z := .unnested) hinner h)
      · rcases passes_derive hinner.toDerived .unnested hmany with ⟨ps, hps, hrun⟩
        simp only at hrun
        rw [hrun] at hnil
        exact (Raises.code rfl (hps.ends_of_nothing hnil)).fails
  | brace =>
      rcases bracedCode_refuses_iff.mp h with ⟨hnot, _⟩ | ⟨hat', h⟩
      · rw [hat rfl] at hnot
        cases hnot
      · refine (Enters.bracedCode rfl hat').fails (hinner.refusedGroup ?_ h)
        rw [Cursor.closer?_brace hat']
        rfl

theorem tagEntry_fails (hinner : Nested.Rejecting g inner) (h : Refuses (tagEntry g inner) c f) :
    Fails g ⟨.entry, c⟩ f := by
  rcases tagEntry_refuses_iff.mp h with ⟨hid, h⟩ | ⟨hid, hat, h⟩ | ⟨hid, hat, rfl⟩
  · rcases (property_refuses_iff hid).mp h with ⟨heq, ⟨hquote, h⟩ | ⟨hquote, ⟨hg, hbrace, rfl⟩ |
      ⟨hbrace, h⟩⟩⟩
    · rcases quotedString_refuses_iff.mp h with ⟨hnot, _⟩ | ⟨_, heof, rfl⟩
      · rw [hquote] at hnot
        cases hnot
      · exact (Raises.quoted ⟨hid, heq⟩ hquote heof).fails
    · exact (Raises.value hg ⟨hid, heq⟩ hquote hbrace).fails
    · refine (Enters.computed ⟨hid, heq⟩ hquote hbrace).fails (code_fails hinner (fun hg => ?_) h)
      rw [Cursor.isAt_eq_contains (hbrace hg)]
      decide
  · refine (Enters.mixin hid hat).fails (code_fails hinner (fun hg => ?_) h)
    subst hg
    exact (Cursor.isAt_eq_contains hat _).trans (by decide)
  · exact (Raises.entry hid hat).fails

theorem entries_fail (hinner : Nested.Rejecting g inner) {limit : Nat}
    (h : Refuses (many Cursor.tagEnds (spacedEntry g inner) limit) c f) :
    Fails g ⟨.entries, c⟩ f := by
  induction limit generalizing c with
  | zero => exact absurd h not_many_zero_refuses
  | succ limit ih =>
      rcases many_refuses_iff.mp h with ⟨hend, h | ⟨a, _, hentry, h⟩⟩
      · exact (Enters.entry hend).fails (tagEntry_fails hinner (spacedEntry_refuses_iff.mp h))
      · rcases spacedEntry_eq_ok_iff.mp hentry with ⟨c₁, ha, rfl⟩
        exact (Enters.entries hend (tagEntry_derives hinner.toDerived ha)).fails (ih h)

theorem child_fails (hinner : Nested.Rejecting g inner) (h : Refuses (child g inner) c f) :
    Fails g ⟨.child, c⟩ f := by
  rcases child_refuses_iff.mp h with ⟨hat, h⟩ | ⟨_, hat, h⟩ | ⟨_, _, hat, h⟩
  · exact (Enters.childElement hat).fails (hinner.refusedElement hat h)
  · refine (Enters.insertion hat).fails (code_fails hinner (fun hg => ?_) h)
    subst hg
    exact (Cursor.isAt_eq_contains hat _).trans (by decide)
  · rcases comment_refuses_iff.mp h with ⟨hnot, _⟩ | ⟨_, heof, rfl⟩
    · rw [hat] at hnot
      cases hnot
    · exact (Raises.comment hat heof).fails

theorem children_fail (hinner : Nested.Rejecting g inner) {limit : Nat}
    (h : Refuses (many Cursor.contentEnds (child g inner) limit) c f) :
    Fails g ⟨.children, c⟩ f := by
  induction limit generalizing c with
  | zero => exact absurd h not_many_zero_refuses
  | succ limit ih =>
      rcases many_refuses_iff.mp h with ⟨hend, h | ⟨x, c₁, hchild, h⟩⟩
      · exact (Enters.child hend).fails (child_fails hinner h)
      · exact (Enters.children hend (child_derives hinner.toDerived hchild)).fails (ih h)

theorem element_fails (hinner : Nested.Rejecting g inner) (hat : c.isAt [['<']] = true)
    (h : Refuses (element g inner) c f) : Fails g ⟨.element, c⟩ f := by
  rcases (element_refuses_iff hat).mp h with ⟨hname, rfl⟩ | ⟨hne, h | ⟨as, c₁, has, h⟩⟩
  · exact (Raises.name hat hname).fails
  · exact (Enters.tag hat hne).fails (entries_fail hinner h)
  have htag : TagRead g c c₁ := ⟨hat, hne, as, entries_derive hinner.toDerived has⟩
  rcases h with ⟨heof, rfl⟩ | ⟨heof, hcur, h⟩
  · exact (Raises.tag htag heof).fails
  -- The tag was left at one of its two closing marks, and not at the other one.
  have hclose : c₁.isAt [['>']] = true := by
    have hstop := many_ends has
    rw [Cursor.tagEnds, heof, Bool.false_or] at hstop
    have hmem := (Cursor.isAt_iff.mp hstop).2
    simp only [List.mem_cons, List.not_mem_nil, or_false] at hmem
    refine Cursor.isAt_iff.mpr ⟨heof, ?_⟩
    rw [hmem.resolve_right hcur]
    exact List.mem_singleton_self _
  rcases h with h | ⟨xs, c₂, hxs, h⟩
  · exact (Enters.content htag hclose).fails (children_fail hinner h)
  have hcontent : ContentRead g c c₂ :=
    ⟨c₁, xs, htag, hclose, children_derive hinner.toDerived hxs⟩
  rcases endTag_refuses_iff.mp h with ⟨heof, rfl⟩ | ⟨heof, ⟨hname, rfl⟩ | ⟨hname, hlast, rfl⟩⟩
  · exact (Raises.content hcontent heof).fails
  · exact (Raises.endName hcontent heof hname).fails
  · exact (Raises.endTag hcontent heof hname hlast).fails

/-- Every failure of a nested rule is one of its task. -/
theorem nested_rejecting (g : Grammar) (n : Nat) : Nested.Rejecting g (nested g n) := by
  induction n with
  | zero =>
      refine ⟨nested_derived g 0, fun _ h => ?_, fun _ h => ?_⟩
      · exact absurd h not_exhausted_refuses
      · exact absurd h not_exhausted_refuses
  | succ n ih =>
      exact ⟨nested_derived g (n + 1), fun hat h => element_fails ih hat h,
        fun hopen h => group_fails ih hopen h⟩

end Rule

/-! ### From tasks to runs -/

/-- A task fails by running the rule for it, in every run that is allowed a
    nesting deeper than there are unread characters. -/
def Task.Refused (g : Grammar) (f : Failure) : Task → Prop
  | ⟨.piece z, c⟩ => ∀ depth, c.size < depth → ∀ run,
    Refuses (z.pass (Rule.nested g depth)) { cursor := c, run } f
  | ⟨.pieces z, c⟩ => ∀ depth limit, c.size < depth → c.size < limit → ∀ run,
    Refuses (many (fun d => z.ends d.cursor) (z.pass (Rule.nested g depth)) limit)
      { cursor := c, run } f
  | ⟨.group, c⟩ => ∀ depth, c.size < depth → ∀ run,
    Refuses (Rule.nested g depth).group { cursor := c, run } f
  | ⟨.code, c⟩ => ∀ depth, c.size < depth → Refuses (Rule.code g (Rule.nested g depth)) c f
  | ⟨.entry, c⟩ => ∀ depth, c.size < depth → Refuses (Rule.tagEntry g (Rule.nested g depth)) c f
  | ⟨.entries, c⟩ => ∀ depth limit, c.size < depth → c.size < limit →
    Refuses (many Cursor.tagEnds (Rule.spacedEntry g (Rule.nested g depth)) limit) c f
  | ⟨.child, c⟩ => ∀ depth, c.size < depth → Refuses (Rule.child g (Rule.nested g depth)) c f
  | ⟨.children, c⟩ => ∀ depth limit, c.size < depth → c.size < limit →
    Refuses (many Cursor.contentEnds (Rule.child g (Rule.nested g depth)) limit) c f
  | ⟨.element, c⟩ => ∀ depth, c.size < depth → Refuses (Rule.nested g depth).element c f

section

variable {g : Grammar} {t t' : Task} {f : Failure}

/-- The tag of an element is read by the run of the element, in front of its
    content. -/
theorem TagRead.runs {c c₁ : Cursor} (h : TagRead g c c₁) {depth : Nat} (hdepth : c.size ≤ depth) :
    ∃ as, many Cursor.tagEnds (Rule.spacedEntry g (Rule.nested g depth)) depth c.advance.pastName =
      .ok as c₁ ∧ c₁.advance.size < depth := by
  rcases h with ⟨hat, _, as, has⟩
  have hsize := c.size_tagEntries_lt hat
  have hrun := has.runs depth depth (by omega) (by omega)
  have hsize₁ : c₁.size ≤ c.advance.pastName.size :=
    (Rule.parts_end (by omega) fun j hj =>
      (Rule.spacedEntry_shrinks (Rule.nested_bounded g depth) (by omega)).strengthen
        fun _ h => h.1).of_ok (Nat.le_refl _) hrun
  have hsize₂ := c₁.size_advance_le
  exact ⟨as, hrun, by omega⟩

/-- An element of which the tag has been read fails behind it as its content
    or its end does. -/
theorem TagRead.refused {c c₁ : Cursor} (h : TagRead g c c₁)
    (hbehind : ∀ depth, c₁.advance.size < depth →
      c₁.eof = true ∧ f = ⟨.unterminatedTag, c.loc⟩ ∨
        c₁.isAt [['>']] = true ∧
          (Refuses (many Cursor.contentEnds (Rule.child g (Rule.nested g depth)) depth)
              c₁.advance f ∨
            ∃ xs c₂, many Cursor.contentEnds (Rule.child g (Rule.nested g depth)) depth c₁.advance =
                .ok xs c₂ ∧
              Refuses (Rule.endTag c.advance.name c.loc) c₂ f)) :
    Task.Refused g f ⟨.element, c⟩ := by
  intro depth hdepth
  cases depth with
  | zero => omega
  | succ depth =>
      rcases h.runs (Nat.le_of_lt_succ hdepth) with ⟨as, hrun, hsize⟩
      refine (Rule.element_refuses_iff h.1).mpr (Or.inr ⟨h.2.1, Or.inr ⟨as, c₁, ?_, ?_⟩⟩)
      · rw [Rule.depth_nested]
        exact hrun
      · rw [Rule.depth_nested]
        rcases hbehind depth hsize with heof | ⟨hclose, h⟩
        · exact Or.inl heof
        · rcases Cursor.isAt_iff.mp hclose with ⟨heof, hcur⟩
          refine Or.inr ⟨heof, ?_, h⟩
          rw [List.mem_singleton.mp hcur]
          decide

/-- An element of which the content has been read fails as its end does. -/
theorem ContentRead.refused {c c₂ : Cursor} (h : ContentRead g c c₂)
    (hend : Refuses (Rule.endTag c.advance.name c.loc) c₂ f) : Task.Refused g f ⟨.element, c⟩ := by
  rcases h with ⟨c₁, xs, htag, hclose, hxs⟩
  refine htag.refused fun depth hdepth => Or.inr ⟨hclose, Or.inr ⟨xs, c₂, ?_, hend⟩⟩
  exact hxs.runs depth depth hdepth hdepth

/-- A task fails in its run as the tasks that it enters do in theirs. -/
theorem Enters.refused (h : Enters g t t') (hf : t'.Refused g f) : t.Refused g f := by
  cases h with
  | inlay hz hat =>
      intro depth hdepth run
      exact Rule.pass_refuses_iff.mpr (Or.inr (Or.inr (Or.inl ⟨hz, hat, hf depth hdepth⟩)))
  | nest hz hclose =>
      intro depth hdepth run
      exact Rule.pass_refuses_iff.mpr (Or.inr (Or.inr (Or.inr ⟨hz, hclose, hf depth hdepth run⟩)))
  | piece hend =>
      intro depth limit hdepth hlimit run
      cases limit with
      | zero => omega
      | succ limit => exact many_refuses_iff.mpr ⟨hend, Or.inl (hf depth hdepth run)⟩
  | @pieces z c c₁ ps hend hpass =>
      intro depth limit hdepth hlimit run
      have hsize := hpass.size_lt hend
      cases limit with
      | zero => omega
      | succ limit =>
          exact many_refuses_iff.mpr ⟨hend, Or.inr ⟨(), _, hpass.runs depth hdepth run,
            hf depth limit (by omega) (by omega) (run.extend ps)⟩⟩
  | @group c close hclose =>
      intro depth hdepth run
      have hsize : c.advance.size < c.size :=
        Cursor.size_advance_lt (Cursor.eof_of_closer? (by rw [hclose]; rfl))
      cases depth with
      | zero => omega
      | succ depth =>
          refine Rule.group_refuses_iff.mpr (Or.inr ⟨close, hclose, Or.inl ?_⟩)
          rw [Rule.depth_nested]
          exact hf depth depth (by omega) (by omega) _
  | openCode hg =>
      intro depth hdepth
      subst hg
      refine Rule.openCode_refuses_iff.mpr (Or.inl ?_)
      rw [Rule.depth_nested]
      exact hf depth depth hdepth hdepth _
  | bracedCode hg hat =>
      intro depth hdepth
      subst hg
      exact Rule.bracedCode_refuses_iff.mpr (Or.inr ⟨hat, hf depth hdepth _⟩)
  | @computed c hvalue hquote hbrace =>
      intro depth hdepth
      have hsize := c.size_value_le
      refine Rule.tagEntry_refuses_iff.mpr (Or.inl ⟨hvalue.1, ?_⟩)
      exact (Rule.property_refuses_iff hvalue.1).mpr
        ⟨hvalue.2, Or.inr ⟨hquote, Or.inr ⟨hbrace, hf depth (by omega)⟩⟩⟩
  | @mixin c hid hat =>
      intro depth hdepth
      have hsize := g.size_behindMark_le c
      exact Rule.tagEntry_refuses_iff.mpr (Or.inr (Or.inl ⟨hid, hat, hf depth (by omega)⟩))
  | entry hend =>
      intro depth limit hdepth hlimit
      cases limit with
      | zero => omega
      | succ limit =>
          exact many_refuses_iff.mpr
            ⟨hend, Or.inl (Rule.spacedEntry_refuses_iff.mpr (hf depth hdepth))⟩
  | @entries c c₁ a hend hentry =>
      intro depth limit hdepth hlimit
      have hrun : Rule.spacedEntry g (Rule.nested g depth) c = .ok a c₁.skipBlank :=
        Rule.spacedEntry_eq_ok_iff.mpr ⟨c₁, hentry.runs depth hdepth, rfl⟩
      have hsize : c₁.skipBlank.size < c.size :=
        (Rule.spacedEntry_shrinks (Rule.nested_bounded g depth) hdepth).of_ok (Nat.le_refl _) hrun
      cases limit with
      | zero => omega
      | succ limit =>
          exact many_refuses_iff.mpr
            ⟨hend, Or.inr ⟨a, _, hrun, hf depth limit (by omega) (by omega)⟩⟩
  | childElement hat =>
      intro depth hdepth
      exact Rule.child_refuses_iff.mpr (Or.inl ⟨hat, hf depth hdepth⟩)
  | @insertion c hat =>
      intro depth hdepth
      have hsize := g.size_behindMark_le c
      have hopen : c.isAt [['<']] = false := by
        rw [Cursor.isAt_eq_contains hat]
        cases g <;> decide
      exact Rule.child_refuses_iff.mpr (Or.inr (Or.inl ⟨hopen, hat, hf depth (by omega)⟩))
  | child hend =>
      intro depth limit hdepth hlimit
      cases limit with
      | zero => omega
      | succ limit => exact many_refuses_iff.mpr ⟨hend, Or.inl (hf depth hdepth)⟩
  | @children c c₁ x hend hchild =>
      intro depth limit hdepth hlimit
      have hrun := hchild.runs depth hdepth
      have hsize : c₁.size < c.size :=
        (Rule.child_shrinks (Rule.nested_bounded g depth) hdepth).of_ok
          ⟨Nat.le_refl _, Bool.or_eq_false_iff.mp hend⟩ hrun
      cases limit with
      | zero => omega
      | succ limit =>
          exact many_refuses_iff.mpr
            ⟨hend, Or.inr ⟨x, _, hrun, hf depth limit (by omega) (by omega)⟩⟩
  | @tag c hat hne =>
      intro depth hdepth
      have hsize := c.size_tagEntries_lt hat
      cases depth with
      | zero => omega
      | succ depth =>
          refine (Rule.element_refuses_iff hat).mpr (Or.inr ⟨hne, Or.inl ?_⟩)
          rw [Rule.depth_nested]
          exact hf depth depth (by omega) (by omega)
  | content htag hclose =>
      refine htag.refused fun depth hdepth => Or.inr ⟨hclose, Or.inl ?_⟩
      exact hf depth depth hdepth hdepth

/-- A task that fails by itself does so in its run. -/
theorem Raises.refused (h : Raises g t f) : t.Refused g f := by
  cases h with
  | string hat heof =>
      intro depth _ run
      exact Rule.pass_refuses_iff.mpr
        (Or.inl ⟨hat, Rule.quotedString_refuses_iff.mpr (Or.inr ⟨hat, heof, rfl⟩)⟩)
  | block hz hat heof =>
      intro depth _ run
      exact Rule.pass_refuses_iff.mpr
        (Or.inr (Or.inl ⟨hz, hat, Rule.blockComment_refuses_iff.mpr (Or.inr ⟨hat, heof, rfl⟩)⟩))
  | @group c c₁ close ps hclose hps heof =>
      intro depth hdepth run
      have hsize : c.advance.size < c.size :=
        Cursor.size_advance_lt (Cursor.eof_of_closer? (by rw [hclose]; rfl))
      cases depth with
      | zero => omega
      | succ depth =>
          rcases hps.runs depth depth (by omega) (by omega) (run.append c.current) with ⟨us, hmany⟩
          refine Rule.group_refuses_iff.mpr (Or.inr ⟨close, hclose, Or.inr ⟨us,
            { cursor := c₁, run := (run.append c.current).extend ps }, ?_, heof, rfl⟩⟩)
          rw [Rule.depth_nested]
          exact hmany
  | @code c hg hend =>
      intro depth hdepth
      subst hg
      rcases (Derives.noPieces hend).runs depth depth hdepth hdepth { loc := c.loc } with
        ⟨us, hmany⟩
      refine Rule.openCode_refuses_iff.mpr (Or.inr ⟨us, { loc := c.loc }, c, ?_, rfl, rfl⟩)
      rw [Rule.depth_nested]
      exact hmany
  | quoted hvalue hquote heof =>
      intro depth _
      refine Rule.tagEntry_refuses_iff.mpr (Or.inl ⟨hvalue.1, ?_⟩)
      exact (Rule.property_refuses_iff hvalue.1).mpr ⟨hvalue.2, Or.inl
        ⟨hquote, Rule.quotedString_refuses_iff.mpr (Or.inr ⟨hquote, heof, rfl⟩)⟩⟩
  | value hg hvalue hquote hbrace =>
      intro depth _
      refine Rule.tagEntry_refuses_iff.mpr (Or.inl ⟨hvalue.1, ?_⟩)
      exact (Rule.property_refuses_iff hvalue.1).mpr
        ⟨hvalue.2, Or.inr ⟨hquote, Or.inl ⟨hg, hbrace, rfl⟩⟩⟩
  | entry hid hat =>
      intro depth _
      exact Rule.tagEntry_refuses_iff.mpr (Or.inr (Or.inr ⟨hid, hat, rfl⟩))
  | @comment c hat heof =>
      intro depth _
      have hopen : c.isAt [['<']] = false := (Cursor.isAt_eq_contains hat _).trans (by decide)
      have hmark : c.isAt [g.insertionMark] = false := by
        rw [Cursor.isAt_eq_contains hat]
        cases g <;> decide
      exact Rule.child_refuses_iff.mpr (Or.inr (Or.inr
        ⟨hopen, hmark, hat, Rule.comment_refuses_iff.mpr (Or.inr ⟨hat, heof, rfl⟩)⟩))
  | name hat hname =>
      intro depth hdepth
      cases depth with
      | zero => omega
      | succ depth => exact (Rule.element_refuses_iff hat).mpr (Or.inl ⟨hname, rfl⟩)
  | tag htag heof => exact htag.refused fun _ _ => Or.inl ⟨heof, rfl⟩
  | content hcontent heof =>
      exact hcontent.refused (Rule.endTag_refuses_iff.mpr (Or.inl ⟨heof, rfl⟩))
  | endName hcontent heof hname =>
      exact hcontent.refused (Rule.endTag_refuses_iff.mpr (Or.inr ⟨heof, Or.inl ⟨hname, rfl⟩⟩))
  | endTag hcontent heof hname hlast =>
      exact hcontent.refused
        (Rule.endTag_refuses_iff.mpr (Or.inr ⟨heof, Or.inr ⟨hname, hlast, rfl⟩⟩))

/-- Every failure of a task is one of its rule. -/
theorem Fails.refused (h : Fails g t f) : t.Refused g f := by
  rcases h with ⟨t', hreach, hraise⟩
  induction hreach using Relation.ReflTransGen.head_induction_on with
  | refl => exact hraise.refused
  | head henter _ ih => exact henter.refused ih

end

/-! ### Whole sources -/

/-- Reading a whole source fails exactly if the task to read it as code does. -/
theorem topLevel_eq_error_iff {g : Grammar} {c : Cursor} {f : Failure} :
    (∃ c', Parser.topLevel g c = .error f c') ↔ Fails g ⟨.pieces .source, c⟩ f := by
  have hrun : (∃ c', Parser.topLevel g c = .error f c') ↔
      Refuses (many (·.cursor.eof) (Rule.piece (Rule.nested g (c.size + 1))
        (Drafting.write Read.take)) (c.size + 1)) { cursor := c, run := { loc := c.loc } } f := by
    rw [Parser.topLevel, Parser.run]
    simp only [settle_eq_error_iff]
    rw [← Refuses, Rule.topLevel_refuses_iff, Rule.depth_nested]
  rw [hrun]
  constructor
  · exact Rule.passes_fail (z := .source) (Rule.nested_rejecting g _)
  · intro h
    exact h.refused (c.size + 1) (c.size + 1) (Nat.lt_succ_self _) (Nat.lt_succ_self _) _

/-- A parse fails exactly if the task to read the source does. -/
theorem parse_eq_error_iff {g : Grammar} {fragments : List (List Char)} {d : Diagnostic} :
    parse g fragments = .error d ↔
      ∃ f, Fails g ⟨.pieces .source, Cursor.ofTexts fragments⟩ f ∧
        d = f.diagnostic fragments.flatten := by
  rw [parse]
  constructor
  · intro h
    cases hread : Parser.topLevel g (Cursor.ofTexts fragments) with
    | ok r c' =>
        rw [hread] at h
        cases h
    | error f c' =>
        rw [hread, Except.error.injEq] at h
        exact ⟨f, topLevel_eq_error_iff.mp ⟨c', hread⟩, h.symm⟩
  · rintro ⟨f, hf, rfl⟩
    rcases topLevel_eq_error_iff.mpr hf with ⟨c', hread⟩
    rw [hread]

/-! ### Groups and code -/

section

variable {g : Grammar} {f : Failure}

/-- A group is collected exactly if it has a derivation. -/
theorem DraftParser.group_eq_ok_iff {d d' : Draft} {u : Unit} :
    DraftParser.group g d = .ok u d' ↔
      ∃ ps, Derives g d.cursor (.group ps) d'.cursor ∧ d'.run = d.run.extend ps := by
  rw [DraftParser.group, settle_eq_ok_iff]
  constructor
  · exact Rule.group_derives (Rule.nested_derived g _)
  · rintro ⟨ps, hps, hrun⟩
    have hsize : d.cursor.size < d.cursor.size + 2 := by omega
    rcases d' with ⟨c', run'⟩
    cases hrun
    exact hps.runs _ hsize d.run

/-- A group that is opened fails exactly if the task to read it does. -/
theorem DraftParser.group_eq_error_iff {d : Draft} (hopen : d.cursor.closer?.isSome = true) :
    (∃ d', DraftParser.group g d = .error f d') ↔ Fails g ⟨.group, d.cursor⟩ f := by
  simp only [DraftParser.group, settle_eq_error_iff]
  constructor
  · exact Rule.group_fails (Rule.nested_rejecting g _) hopen
  · intro h
    have hsize : d.cursor.size < d.cursor.size + 2 := by omega
    exact h.refused _ hsize d.run

/-- Code that ends by itself is read exactly if it has a derivation. -/
theorem Parser.openCode_eq_ok_iff {c c' : Cursor} {ss : Code} :
    Parser.openCode .sigil c = .ok ss c' ↔ Derives .sigil c (.code ss) c' := by
  rw [Parser.openCode, Parser.run, settle_eq_ok_iff]
  constructor
  · exact Rule.code_derives (g := .sigil) (Rule.nested_derived .sigil _)
  · intro h
    exact h.runs _ (Nat.lt_succ_self c.size)

/-- Code that ends by itself fails exactly if the task to read it does. -/
theorem Parser.openCode_eq_error_iff {c : Cursor} :
    (∃ c', Parser.openCode .sigil c = .error f c') ↔ Fails .sigil ⟨.code, c⟩ f := by
  simp only [Parser.openCode, Parser.run, settle_eq_error_iff]
  constructor
  · exact Rule.code_fails (g := .sigil) (Rule.nested_rejecting .sigil _) (by simp)
  · intro h
    exact h.refused _ (Nat.lt_succ_self c.size)

end

end Inlay
