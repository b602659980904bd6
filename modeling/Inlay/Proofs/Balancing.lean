import Inlay.Proofs.Framing
import Inlay.Proofs.Rejection

/-!
# Balancing with a Stack

A group of delimiters is read by recursion. The rule for a group knows only
the delimiter that closes it, and an opening delimiter inside is handed to the
same rule again, so the delimiters that are still open are kept nowhere but in
the calls that have not returned. Where nothing but delimiters and plain text
occurs, all of this is the work of a machine with a stack: what opens is
pushed, what closes the top is popped, and everything else is passed, also a
closing delimiter that belongs to another one further down.

The rule and the machine take the same texts. If the texts run out, the rule
fails in the call that was entered last, which is the top of the stack.

The argument goes by what a delimiter encloses (`Encloses`). There are three
ways for that to go: its closing delimiter is met, and the machine is back
where it was with one delimiter less; the texts run out, with this delimiter
on top; or they run out inside a group that is nested in it.

## Main definitions

* `closing?`: The delimiter that closes one that opens.
* `Balance`: The machine, with what it has taken and what is open.
* `Balance.step`, `Balance.run`: Taking one text, and all it takes.
* `Cursor.Between`: Where a cursor stands in a list of texts.
* `Encloses`: What a delimiter encloses, read and run side by side.

## Theorems

* `Balance.run_taken`: The machine takes what stands in front of what it
  leaves.
* `Balance.Opened.run`: What is on the stack was opened by a text it took.
* `Encloses.behind`: What may stand in front of the rest of what is enclosed.
* `Encloses.group`: A group is closed, or fails at the top of the stack.
* `encloses`: What is enclosed reads as the machine runs.
* `group_balances`: A group is read exactly as the machine takes it.
-/

namespace Inlay

/-! ### The machine -/

/-- The delimiters that open, each with the one that closes it. -/
def delimiters : List (List Char × List Char) :=
  [(['('], [')']), (['['], [']']), (['{'], ['}']), (Marker.spread, ['}'])]

/-- The delimiter that closes a text, if that is one that opens. -/
def closing? (t : List Char) : Option (List Char) :=
  delimiters.lookup t

/-- The location behind some texts that stand at the start. -/
def Location.behindTexts (texts : List (List Char)) : Location :=
  texts.foldl (fun loc t => if t = ['\n'] then loc.nextLine else loc.shifted t.length) {}

/-- A delimiter that has been opened: what closes it, and the texts in front of
    it. -/
structure Pending where
  close : List Char
  before : List (List Char)

/-- A machine that balances delimiters. -/
structure Balance where
  /-- What is open, the innermost delimiter first. -/
  stack : List Pending := []
  /-- The texts that have been taken. -/
  taken : List (List Char) := []

namespace Balance

/-- Takes one text. What opens is pushed, what closes the top is popped, and
    anything else changes nothing. -/
def step (m : Balance) (t : List Char) : Balance where
  stack :=
    match closing? t, m.stack with
    | some close, ps => ⟨close, m.taken⟩ :: ps
    | none, [] => []
    | none, p :: ps => if t = p.close then ps else p :: ps
  taken := m.taken ++ [t]

/-- Takes texts until nothing is open, and hands over what it leaves. -/
def run (m : Balance) : List (List Char) → Balance × List (List Char)
  | [] => (m, [])
  | t :: ts => if m.stack.isEmpty then (m, t :: ts) else (m.step t).run ts

/-- The machine takes what stands in front of what it leaves. -/
theorem run_taken (m : Balance) (ts : List (List Char)) :
    (m.run ts).1.taken ++ (m.run ts).2 = m.taken ++ ts := by
  induction ts generalizing m with
  | nil => rfl
  | cons t ts ih =>
      rw [run]
      split
      · rfl
      · rw [ih, step, List.append_assoc, List.singleton_append]

/-- What is open has been opened by a text that was taken. -/
def Opened (m : Balance) : Prop :=
  ∀ p ∈ m.stack, ∃ t left, closing? t = some p.close ∧ m.taken = p.before ++ t :: left

variable {m : Balance}

theorem Opened.step (h : m.Opened) (t : List Char) : (m.step t).Opened := by
  -- What stays on the stack has one more text behind it.
  have hstay : ∀ p ∈ m.stack, ∃ o left, closing? o = some p.close ∧
      m.taken ++ [t] = p.before ++ o :: left := by
    intro p hp
    rcases h p hp with ⟨o, left, ho, htaken⟩
    exact ⟨o, left ++ [t], ho, by rw [htaken, List.append_assoc, List.cons_append]⟩
  intro p hp
  cases hclose : closing? t with
  | some close =>
      simp only [Balance.step, hclose, List.mem_cons] at hp
      rcases hp with rfl | hp
      · exact ⟨t, [], hclose, rfl⟩
      · exact hstay p hp
  | none =>
      refine hstay p ?_
      cases hstack : m.stack with
      | nil => simp only [Balance.step, hclose, hstack, List.not_mem_nil] at hp
      | cons q qs =>
          simp only [Balance.step, hclose, hstack] at hp
          split at hp
          · exact List.mem_cons_of_mem q hp
          · exact hp

theorem Opened.run (h : m.Opened) (ts : List (List Char)) : (m.run ts).1.Opened := by
  induction ts generalizing m with
  | nil => exact h
  | cons t ts ih =>
      rw [Balance.run]
      split
      · exact h
      · exact ih (h.step t)

variable {p : Pending} {ps : List Pending} {before : List (List Char)} {t : List Char}

theorem run_cons (p : Pending) (ps : List Pending) (before : List (List Char)) (t : List Char)
    (ts : List (List Char)) :
    run ⟨p :: ps, before⟩ (t :: ts) = run (step ⟨p :: ps, before⟩ t) ts := by
  rw [run, if_neg (by simp only [List.isEmpty_cons, Bool.false_eq_true, not_false_eq_true])]

theorem run_closed (before ts : List (List Char)) : run ⟨[], before⟩ ts = (⟨[], before⟩, ts) := by
  cases ts <;> rfl

theorem step_push {close : List Char} (h : closing? t = some close) :
    step ⟨ps, before⟩ t = ⟨⟨close, before⟩ :: ps, before ++ [t]⟩ := by
  rw [step, h]

theorem step_pop (hnone : closing? t = none) (h : t = p.close) :
    step ⟨p :: ps, before⟩ t = ⟨ps, before ++ [t]⟩ := by
  simp only [step, hnone, if_pos h]

theorem step_pass (hnone : closing? t = none) (h : t ≠ p.close) :
    step ⟨p :: ps, before⟩ t = ⟨p :: ps, before ++ [t]⟩ := by
  simp only [step, hnone, if_neg h]

end Balance

/-! ### Cursors between texts -/

/-- What closes a delimiter does not open one, and is some text. -/
theorem closing?_closing {t close : List Char} (h : closing? t = some close) :
    closing? close = none ∧ close ≠ [] := by
  have hmem : close ∈ [[')'], [']'], ['}']] := by
    unfold closing? delimiters at h
    simp only [List.lookup_cons] at h
    grind
  have hall : ∀ close ∈ [[')'], [']'], ['}']], closing? close = none ∧ close ≠ [] := by decide
  exact hall close hmem

theorem Cursor.closer?_eq_closing? (c : Cursor) : c.closer? = closing? c.current := by
  unfold closer? closing? delimiters
  simp only [List.lookup_cons]
  grind

/-- The cursor stands between some texts at the start and the texts that
    follow them. -/
structure Cursor.Between (c : Cursor) (before after : List (List Char)) : Prop where
  unread : c.unread = after.filterMap Fragment.ofText?
  loc : c.loc = Location.behindTexts before

namespace Cursor.Between

variable {c : Cursor} {before after : List (List Char)} {t : List Char}

theorem eof_nil (h : c.Between before []) : c.eof = true := by
  rw [eof, h.unread]
  rfl

theorem eof_cons (h : c.Between before (t :: after)) (ht : t ≠ []) : c.eof = false := by
  cases t with
  | nil => exact absurd rfl ht
  | cons x xs => exact (of_unread_cons h.unread).1

theorem current_cons (h : c.Between before (t :: after)) (ht : t ≠ []) : c.current = t := by
  cases t with
  | nil => exact absurd rfl ht
  | cons x xs => exact (of_unread_cons h.unread).2.1

/-- There is nothing to read in an empty text. -/
theorem pass_empty (h : c.Between before ([] :: after)) : c.Between (before ++ [[]]) after := by
  refine ⟨h.unread, ?_⟩
  rw [h.loc, Location.behindTexts, Location.behindTexts, List.foldl_append, List.foldl_cons,
    List.foldl_nil, if_neg (by decide)]
  exact (Location.shifted_zero _).symm

theorem advance (h : c.Between before (t :: after)) (ht : t ≠ []) :
    c.advance.Between (before ++ [t]) after := by
  rcases c with ⟨unread, index, loc⟩
  cases t with
  | nil => exact absurd rfl ht
  | cons x xs =>
      rcases h with ⟨hunread, hloc⟩
      cases hunread
      cases hloc
      refine ⟨rfl, ?_⟩
      rw [Location.behindTexts, List.foldl_append]
      rfl

end Cursor.Between

/-! ### Reading and running side by side -/

/-- What the delimiter `p` encloses, read from `c` on. Some texts have been
    taken `before`, some come `after`, and the delimiters `ps` are open around
    it. -/
inductive Encloses (g : Grammar) (p : Pending) (ps : List Pending) (c : Cursor)
    (before after : List (List Char)) : Prop where
  /-- The closing delimiter is met, and one delimiter less is open. -/
  | closes {qs : List Piece} {c₁ : Cursor} (enclosed left : List (List Char)) :
    Derives g c (.pieces (.group p.close) qs) c₁ → after = enclosed ++ p.close :: left →
      c₁.Between (before ++ enclosed) (p.close :: left) →
      (∀ r : Run, r.extend qs = r.append enclosed.flatten) →
      Balance.run ⟨p :: ps, before⟩ after =
        Balance.run ⟨ps, before ++ enclosed ++ [p.close]⟩ left →
      Encloses g p ps c before after
  /-- The texts run out. -/
  | starves {qs : List Piece} {c₁ : Cursor} :
    Derives g c (.pieces (.group p.close) qs) c₁ → c₁.eof = true →
      (Balance.run ⟨p :: ps, before⟩ after).1.stack.head? = some p →
      Encloses g p ps c before after
  /-- The texts run out inside a nested group. -/
  | fails {q : Pending} :
    Fails g ⟨.pieces (.group p.close), c⟩
        ⟨.unterminatedGroup, Location.behindTexts q.before⟩ →
      (Balance.run ⟨p :: ps, before⟩ after).1.stack.head? = some q →
      Encloses g p ps c before after

section

variable {g : Grammar} {p : Pending} {ps : List Pending} {c c₁ : Cursor}
  {before after : List (List Char)}

/-- What stands in front of the rest of what is enclosed, and leaves the same
    delimiters open. -/
theorem Encloses.behind (front : List (List Char)) (qs : List Piece)
    (h : Encloses g p ps c₁ (before ++ front) after)
    (hread : ∀ {qs' c'}, Derives g c₁ (.pieces (.group p.close) qs') c' →
      Derives g c (.pieces (.group p.close) (qs ++ qs')) c')
    (hfail : ∀ {f}, Fails g ⟨.pieces (.group p.close), c₁⟩ f →
      Fails g ⟨.pieces (.group p.close), c⟩ f)
    (htext : ∀ r : Run, r.extend qs = r.append front.flatten)
    (hrun : Balance.run ⟨p :: ps, before⟩ (front ++ after) =
      Balance.run ⟨p :: ps, before ++ front⟩ after) :
    Encloses g p ps c before (front ++ after) := by
  cases h with
  | @closes qs' _ enclosed left hrest hafter hc hmore hclose =>
      refine .closes (front ++ enclosed) left (hread hrest) ?_ ?_ ?_ ?_
      · rw [hafter, List.append_assoc]
      · rw [← List.append_assoc]
        exact hc
      · intro r
        rw [Run.extend_append, htext, hmore, Run.append, Run.append, Run.append,
          List.flatten_append, List.append_assoc]
      · rw [hrun, hclose, List.append_assoc before]
  | starves hrest heof htop => exact .starves (hread hrest) heof (hrun ▸ htop)
  | fails hdeep htop => exact .fails (hfail hdeep) (hrun ▸ htop)

/-- A piece in front of the rest of what is enclosed. -/
theorem Encloses.behind_piece (front : List (List Char)) {qs : List Piece}
    (h : Encloses g p ps c₁ (before ++ front) after)
    (hend : (Zone.group p.close).ends c = false)
    (hpiece : Derives g c (.piece (.group p.close) qs) c₁)
    (htext : ∀ r : Run, r.extend qs = r.append front.flatten)
    (hrun : Balance.run ⟨p :: ps, before⟩ (front ++ after) =
      Balance.run ⟨p :: ps, before ++ front⟩ after) :
    Encloses g p ps c before (front ++ after) :=
  h.behind front qs (.pieces hend hpiece) (Enters.pieces hend hpiece).fails htext hrun

/-- A text that is taken over as it is. -/
theorem Encloses.behind_plain {t : List Char} (h : Encloses g p ps c.advance (before ++ [t]) after)
    (hcur : c.current = t) (hend : (Zone.group p.close).ends c = false)
    (hplain : (Zone.group p.close).plain c = true)
    (hstep : Balance.step ⟨p :: ps, before⟩ t = ⟨p :: ps, before ++ [t]⟩) :
    Encloses g p ps c before (t :: after) := by
  refine h.behind_piece [t] hend (.verbatim (.plain (by simp) hplain)) ?_ ?_
  · intro r
    rw [hcur, List.flatten_singleton]
    rfl
  · rw [List.singleton_append, Balance.run_cons, hstep]

/-- A group is what its opening delimiter encloses, and the two delimiters. If
    it is closed, the machine is back where it was before it; if not, the group
    fails at the top of the stack. -/
theorem Encloses.group {t close : List Char} (hc : c.Between before (t :: after)) (ht : t ≠ [])
    (hclose : closing? t = some close)
    (h : Encloses g ⟨close, before⟩ ps c.advance (before ++ [t]) after) :
    (∃ qs c' group left, Derives g c (.group qs) c' ∧ t :: after = group ++ left ∧
        left.length < after.length ∧ c'.Between (before ++ group) left ∧
        (∀ r : Run, r.extend qs = r.append group.flatten) ∧
        Balance.run (Balance.step ⟨ps, before⟩ t) after = Balance.run ⟨ps, before ++ group⟩ left) ∨
      ∃ q, Fails g ⟨.group, c⟩ ⟨.unterminatedGroup, Location.behindTexts q.before⟩ ∧
        (Balance.run (Balance.step ⟨ps, before⟩ t) after).1.stack.head? = some q := by
  have hcloser : c.closer? = some close := by
    rw [Cursor.closer?_eq_closing?, hc.current_cons ht, hclose]
  rw [Balance.step_push hclose]
  cases h with
  | @closes qs c₁ enclosed left hread hafter hc₁ htext hrun =>
      have hclosed : close ≠ [] := (closing?_closing hclose).2
      have hgroup := Derives.group hcloser hread (hc₁.eof_cons hclosed)
      have htaken : before ++ [t] ++ enclosed ++ [close] = before ++ t :: (enclosed ++ [close]) := by
        simp only [List.append_assoc, List.cons_append, List.nil_append]
      refine Or.inl ⟨_, _, t :: (enclosed ++ [close]), left, hgroup, ?_, ?_, ?_, ?_, ?_⟩
      · rw [hafter, List.cons_append, List.append_assoc, List.singleton_append]
      · rw [hafter, List.length_append, List.length_cons]
        omega
      · exact htaken ▸ hc₁.advance hclosed
      · intro r
        rw [hc.current_cons ht, hc₁.current_cons hclosed]
        simp only [Run.extend_append, Run.extend_cons, Run.extend_nil, htext, Run.add, Run.append,
          List.flatten_cons, List.flatten_append, List.flatten_nil, List.append_nil,
          List.append_assoc]
      · exact htaken ▸ hrun
  | starves hread heof htop =>
      refine Or.inr ⟨_, ?_, htop⟩
      rw [← hc.loc]
      exact (Raises.group hcloser hread heof).fails
  | fails hdeep htop => exact Or.inr ⟨_, (Enters.group hcloser).fails hdeep, htop⟩

/-- The texts that mean something of their own between delimiters, apart from
    delimiters: marks of elements, comments and strings. -/
def recognised : List (List Char) :=
  [['<'], Marker.lineComment, Marker.blockOpen] ++ quotes

/-- Any other text is plain. -/
theorem Cursor.plain_of_current {t : List Char} (hcur : c.current = t) (ht : t ∉ recognised)
    (hnone : closing? t = none) (close : List Char) : (Zone.group close).plain c = true := by
  have hat : ∀ texts, texts ⊆ recognised → c.isAt texts = false := by
    intro texts hsub
    rw [← Bool.not_eq_true, isAt_iff, hcur]
    exact fun h => ht (hsub h.2)
  rw [Zone.plain, hat quotes (by decide), hat [Marker.lineComment] (by decide),
    hat [Marker.blockOpen] (by decide), hat [['<']] (by decide), closer?_eq_closing?, hcur, hnone]
  rfl

/-- What is enclosed reads as the machine runs. The induction is on the number
    of texts that are left, since a nested group hands over in the middle of
    them. -/
theorem encloses (g : Grammar) {p : Pending} (ps : List Pending) {c : Cursor}
    {before after : List (List Char)} (hp : closing? p.close = none ∧ p.close ≠ [])
    (hafter : ∀ t ∈ after, t ∉ recognised) (hc : c.Between before after) :
    Encloses g p ps c before after := by
  induction hn : after.length using Nat.strongRecOn generalizing p ps c before after with
  | ind n ih =>
    cases after with
    | nil =>
        have hend : (Zone.group p.close).ends c = true := by
          rw [Zone.ends, hc.eof_nil, Bool.true_or]
        exact .starves (.noPieces hend) hc.eof_nil rfl
    | cons t rest =>
        have hlen : rest.length < n := hn ▸ Nat.lt_succ_self rest.length
        have hrest : ∀ t ∈ rest, t ∉ recognised := fun t ht => hafter t (List.mem_cons_of_mem _ ht)
        by_cases hempty : t = []
        · subst hempty
          refine (ih _ hlen ps hp hrest hc.pass_empty rfl).behind [[]] [] id id ?_ ?_
          · intro r
            rw [Run.extend_nil, Run.append, List.flatten_singleton, List.append_nil]
          · rw [List.singleton_append, Balance.run_cons, Balance.step_pass rfl (Ne.symm hp.2)]
        have hends : (Zone.group p.close).ends c = decide (t = p.close) := by
          rw [Zone.ends, Cursor.isAt, hc.eof_cons hempty, hc.current_cons hempty]
          simp only [Bool.not_false, Bool.true_and, Bool.false_or, List.contains_cons,
            List.contains_nil, Bool.or_false]
          rw [Bool.eq_iff_iff, beq_iff_eq, decide_eq_true_eq]
        by_cases ht : t = p.close
        · -- The closing delimiter stands right here.
          subst ht
          refine .closes [] rest (.noPieces ?_) rfl ?_ ?_ ?_
          · rw [hends, decide_eq_true rfl]
          · rw [List.append_nil]
            exact hc
          · intro r
            rw [Run.extend_nil, Run.append, List.flatten_nil, List.append_nil]
          · rw [Balance.run_cons, Balance.step_pop hp.1 rfl, List.append_nil]
        have hend : (Zone.group p.close).ends c = false := by
          rw [hends, decide_eq_false ht]
        have hnext := hc.advance hempty
        cases hclose : closing? t with
        | none =>
            refine (ih _ hlen ps hp hrest hnext rfl).behind_plain (hc.current_cons hempty) hend ?_
              (Balance.step_pass hclose ht)
            exact Cursor.plain_of_current (hc.current_cons hempty) (hafter t List.mem_cons_self)
              hclose _
        | some close =>
            -- A nested group is one piece, behind which the stack is the same again.
            have hinner := ih _ hlen (p := ⟨close, before⟩) (p :: ps) (closing?_closing hclose) hrest
              hnext rfl
            have hnest : Enters g ⟨.piece (.group p.close), c⟩ ⟨.group, c⟩ := by
              refine .nest (by simp) ?_
              rw [Cursor.closer?_eq_closing?, hc.current_cons hempty, hclose]
              rfl
            rcases Encloses.group hc hempty hclose hinner with
              ⟨qs, c', group, left, hgroup, hsplit, hleft, hc', htext, hrun⟩ | ⟨q, hfail, htop⟩
            · have hmore : ∀ t ∈ left, t ∉ recognised := fun t ht =>
                hafter t (hsplit ▸ List.mem_append_right _ ht)
              rw [hsplit]
              refine (ih _ (Nat.lt_trans hleft hlen) ps hp hmore hc' rfl).behind_piece group hend
                (.nest (by simp) hgroup) htext ?_
              rw [← hsplit, Balance.run_cons, hrun]
            · refine .fails ((Enters.piece hend).fails (hnest.fails hfail)) ?_
              rw [Balance.run_cons]
              exact htop

end

/-! ### Groups -/

/-- A group is read exactly as the machine takes it. If the machine comes to a
    state where nothing is open, the group is the texts that it has taken, they
    are added to the text of the run, and reading goes on behind them. If not,
    the group is not terminated, which is told of the delimiter on top of the
    stack, the one that was opened last of those that are still open. -/
theorem group_balances (g : Grammar) (run : Run) (t : List Char) (ts : List (List Char))
    (ht : t ∈ [['('], ['['], ['{'], Marker.spread]) (hts : ∀ t ∈ ts, t ∉ recognised) :
    match (Balance.step {} t).run ts with
    | (⟨[], taken⟩, left) => ∃ c',
        DraftParser.group g { cursor := Cursor.ofTexts (t :: ts), run } =
          .ok () { cursor := c', run := { run with text := run.text ++ taken.flatten } } ∧
        t :: ts = taken ++ left ∧ c'.Between taken left
    | (⟨p :: _, _⟩, _) => ∃ d',
        DraftParser.group g { cursor := Cursor.ofTexts (t :: ts), run } =
          .error ⟨.unterminatedGroup, Location.behindTexts p.before⟩ d' ∧
        ∃ o left, closing? o = some p.close ∧ t :: ts = p.before ++ o :: left := by
  have hopens : ∀ t ∈ [['('], ['['], ['{'], Marker.spread], (closing? t).isSome = true := by decide
  rcases Option.isSome_iff_exists.mp (hopens t ht) with ⟨close, hclose⟩
  have hne : t ≠ [] := by
    rintro rfl
    cases hclose
  have hclosed := closing?_closing hclose
  generalize hc : Cursor.ofTexts (t :: ts) = c
  have hstart : c.Between [] (t :: ts) := hc ▸ ⟨rfl, rfl⟩
  have hopen : c.closer?.isSome = true := by
    rw [Cursor.closer?_eq_closing?, hstart.current_cons hne]
    exact hopens t ht
  have htaken := Balance.run_taken (Balance.step {} t) ts
  have hopened := (Balance.Opened.step (m := {}) nofun t).run ts
  have hinner := encloses g (p := ⟨close, []⟩) [] hclosed hts (hstart.advance hne)
  rcases Encloses.group hstart hne hclose hinner with
    ⟨qs, c', group, left, hgroup, _, _, hc', htext, hrun⟩ | ⟨q, hfail, htop⟩
  · rw [hrun, Balance.run_closed] at htaken ⊢
    exact ⟨c', DraftParser.group_eq_ok_iff.mpr ⟨qs, hgroup, (htext run).symm⟩, htaken.symm, hc'⟩
  · rcases hm : (Balance.step {} t).run ts with ⟨⟨stack, taken⟩, left⟩
    rw [hm] at htaken hopened htop
    cases stack with
    | nil => cases htop
    | cons p ps =>
        cases htop
        rcases (DraftParser.group_eq_error_iff (d := { cursor := c, run }) hopen).mpr hfail with
          ⟨d', hd'⟩
        rcases hopened q List.mem_cons_self with ⟨o, behind, ho, hbefore⟩
        refine ⟨d', hd', o, behind ++ left, ho, ?_⟩
        calc t :: ts = taken ++ left := htaken.symm
          _ = q.before ++ o :: behind ++ left := congrArg (· ++ left) hbefore
          _ = q.before ++ o :: (behind ++ left) := List.append_assoc _ _ _

/-- A group in which a closing delimiter of another kind is passed, behind some
    text, and one of which an inner delimiter is never closed. -/
theorem group_balances_foreign :
    (∃ c', DraftParser.group .sigil
          { cursor := Cursor.ofTexts [['('], ['['], [')'], [']'], [')'], ['a']],
            run := { text := ['f'], loc := {} } } =
        .ok () { cursor := c', run := { text := ['f', '(', '[', ')', ']', ')'], loc := {} } } ∧
      [['('], ['['], [')'], [']'], [')'], ['a']] =
        [['('], ['['], [')'], [']'], [')']] ++ [['a']] ∧
      c'.Between [['('], ['['], [')'], [']'], [')']] [['a']]) ∧
    ∃ d', DraftParser.group .sigil
          { cursor := Cursor.ofTexts [['('], ['\n'], ['{'], [')'], [']']], run := { loc := {} } } =
        .error ⟨.unterminatedGroup, { line := 1, col := 0, pos := 2 }⟩ d' ∧
      ∃ o left, closing? o = some ['}'] ∧
        [['('], ['\n'], ['{'], [')'], [']']] = [['('], ['\n']] ++ o :: left :=
  ⟨group_balances .sigil { text := ['f'], loc := {} } ['(']
      [['['], [')'], [']'], [')'], ['a']] (by decide) (by decide),
    group_balances .sigil { loc := {} } ['('] [['\n'], ['{'], [')'], [']']] (by decide) (by decide)⟩

end Inlay
