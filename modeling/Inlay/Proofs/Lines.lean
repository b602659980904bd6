import Inlay.Proofs.Diagnosis
import Inlay.Proofs.Tracking

/-!
# Whole Lines

Parsing composes over whole lines. Where a source ends with a line break and
parses by itself, whatever follows it is parsed as if it stood alone: its tree
is put behind the tree of the lines in front, moved by these lines, and where
it fails it fails with the same message and snippet, at a place moved in the
same way. Nothing of the lines in front is remembered, except that text at the
seam is one text.

Three things come together. No fragment goes across the seam, since a line
break is a fragment of its own. Nothing that is read from the lines in front
looks past the seam: elements, strings and comments are closed in front of it,
and a comment that ends with its line ends there. And what follows stands at
the end of a larger source, behind more lines.

## Main definitions

* `joinCode`, `Root.join`: Code behind code, where text goes on with text.

## Theorems

* `Derives.laps_lines`: Whole lines are read in front of anything else.
* `Run.extend_join`: A run that goes on is joined from two runs.
* `parseSource_append`: Parsing composes over whole lines.
-/

namespace Inlay

/-! ### Joining trees -/

/-- Code behind code. A text at the end of the first goes on with a text at
    the start of the second, and stays where it is. -/
def joinCode (ss ss' : Code) : Code :=
  match ss.getLast?, ss' with
  | some (.text t loc), .text t' _ :: rest => ss.dropLast ++ .text (t ++ t') loc :: rest
  | _, _ => ss ++ ss'

/-- A tree behind a tree. -/
def Root.join (r r' : Root) : Root :=
  { segments := joinCode r.segments r'.segments }

section

variable (ss : Code) (t : List Char) (loc : Location)

theorem joinCode_nil : joinCode ss [] = ss := by
  rw [joinCode]
  · exact List.append_nil ss
  · exact fun _ _ _ _ _ _ h => nomatch h

theorem joinCode_element (e : Element) (rest : Code) :
    joinCode ss (.element e :: rest) = ss ++ .element e :: rest := by
  rw [joinCode]
  exact fun _ _ _ _ _ _ h => nomatch h

theorem joinCode_text (t' : List Char) (loc' : Location) (rest : Code) :
    joinCode (ss ++ [.text t loc]) (.text t' loc' :: rest) = ss ++ .text (t ++ t') loc :: rest := by
  simp only [joinCode, List.getLast?_concat, List.dropLast_concat]

/-- Only the first segment of the second code decides. -/
theorem joinCode_append {ss' : Code} (hne : ss' ≠ []) (rest : Code) :
    joinCode (ss ++ [.text t loc]) (ss' ++ rest) =
      joinCode (ss ++ [.text t loc]) ss' ++ rest := by
  cases ss' with
  | nil => exact absurd rfl hne
  | cons s ss' =>
      cases s with
      | text t' loc' =>
          rw [List.cons_append, joinCode_text, joinCode_text, List.append_assoc, List.cons_append]
      | element e =>
          rw [List.cons_append, joinCode_element, joinCode_element, List.append_assoc _ _ rest,
            List.cons_append]

end

namespace Run

/-- A run `r` that goes on from `r₀` as `s` goes on from nothing. Up to the
    first element the text of `r₀` is still pending. -/
def Continues (r₀ r s : Run) : Prop :=
  s.segments = [] ∧ r = { r₀ with text := r₀.text ++ s.text } ∨
    s.segments ≠ [] ∧ r = { s with segments := joinCode r₀.closed s.segments }

variable {r₀ r s : Run}

theorem Continues.flush (h : r₀.Continues r s) (hne : r₀.text ≠ []) :
    r.flush.segments = joinCode r₀.closed s.flush.segments := by
  rcases h with ⟨hnone, rfl⟩ | ⟨hsome, rfl⟩
  · have htext : r₀.text ++ s.text ≠ [] := List.append_ne_nil_of_left_ne_nil hne _
    rw [flush_of_text htext, closed, closed]
    by_cases hs : s.text = []
    · rw [flush_of_none hs, hnone, joinCode_nil, hs, List.append_nil]
    · rw [flush_of_text hs, closed, hnone, List.nil_append, joinCode_text]
  · by_cases hs : s.text = []
    · rw [flush_of_none (r := s) hs]
      exact flush_of_none hs
    · rw [flush_of_text (r := s) hs]
      have hr : ({ s with segments := joinCode r₀.closed s.segments } : Run).flush.segments =
          joinCode r₀.closed s.segments ++ [.text s.text s.loc] := flush_of_text hs
      rw [hr, closed, closed, joinCode_append _ _ _ hsome]

theorem Continues.add (h : r₀.Continues r s) (hne : r₀.text ≠ []) (p : Piece) :
    r₀.Continues (r.add p) (s.add p) := by
  cases p with
  | text t =>
      rcases h with ⟨hnone, rfl⟩ | ⟨hsome, rfl⟩
      · refine Or.inl ⟨hnone, ?_⟩
        simp only [Run.add, Run.append, List.append_assoc]
      · exact Or.inr ⟨hsome, rfl⟩
  | inlay e resume =>
      refine Or.inr ⟨List.concat_ne_nil _ _, ?_⟩
      have hsegments : (r.add (.inlay e resume)).segments =
          joinCode r₀.closed (s.add (.inlay e resume)).segments := by
        change r.flush.segments ++ [.element e] =
          joinCode r₀.closed (s.flush.segments ++ [.element e])
        rw [h.flush hne]
        cases hs : s.flush.segments with
        | nil => rw [joinCode_nil, List.nil_append, joinCode_element]
        | cons s' ss' => rw [closed, joinCode_append _ _ _ (List.cons_ne_nil s' ss')]
      have htext : (r.add (.inlay e resume)).text = (s.add (.inlay e resume)).text :=
        r.text_flush.trans s.text_flush.symm
      rw [← hsegments, ← htext]
      rfl

/-- A run with pending text that is given pieces holds what it held, joined
    with what the pieces are by themselves. -/
theorem extend_join (hne : r.text ≠ []) (loc : Location) (ps : List Piece) :
    (r.extend ps).flush.segments =
      joinCode r.flush.segments (Run.extend { loc } ps).flush.segments := by
  have hstart : r.Continues r { loc } := by
    refine Or.inl ⟨rfl, ?_⟩
    rw [List.append_nil]
  -- Both runs are given the same pieces, one after the other.
  have hcont : ∀ r' s' : Run, r.Continues r' s' → r.Continues (r'.extend ps) (s'.extend ps) := by
    induction ps with
    | nil => exact fun _ _ h => h
    | cons p ps ih => exact fun r' s' h => ih _ _ (h.add hne p)
  rw [flush_of_text hne]
  exact (hcont _ _ hstart).flush hne

end Run

/-! ### Whole lines in front -/

/-- An element ends with a bracket. -/
theorem Element.Renders.last {g : Grammar} {e : Element} {t : List Char}
    (h : Element.Renders g e t) : t.getLast? = some '>' := by
  cases h with
  | empty _ _ => rw [List.getLast?_append]; rfl
  | full _ _ _ => rw [List.getLast?_append]; rfl

theorem CodeRenders.last {g : Grammar} {ss : Code} {e : Element} {t : List Char}
    (h : CodeRenders g (ss ++ [.element e]) t) : t.getLast? = some '>' := by
  induction ss generalizing t with
  | nil =>
      cases h with
      | cons he hnil =>
          cases he with
          | element he =>
              cases hnil
              rw [List.append_nil]
              exact he.last
  | cons s ss ih =>
      cases h with
      | cons _ hss =>
          rw [List.getLast?_append, ih hss]
          rfl

/-- Where a source ends with a line break, text is pending at its end. -/
theorem Run.text_of_line {g : Grammar} {s : List Char} {loc : Location} {ps : List Piece}
    (h : PiecesRender g ps s) (hline : s.getLast? = some '\n') :
    (Run.extend { loc } ps).text ≠ [] := by
  intro hnone
  have hstart : Run.Renders g { loc } [] := ⟨[], CodeRenders.nil, rfl⟩
  rcases hstart.extend h with ⟨t, ht, hs⟩
  rw [hnone, List.append_nil, List.nil_append] at hs
  subst hs
  rcases (Run.rests_start loc []).extend ps with hnil | ⟨ss, e, hlast⟩
  · rw [hnil] at ht
    cases ht
    cases hline
  · rw [hlast] at ht
    rw [ht.last] at hline
    exact absurd hline (by decide)

/-- A loop that takes fragments up to a mark stops if the mark is there. -/
theorem Cursor.eof_takeUntil {stops : List (List Char)} {c : Cursor} {f : Fragment}
    (hf : f ∈ c.unread) (hstop : stops.contains f.text = true) :
    (c.takeUntil stops).2.eof = false := by
  rcases c with ⟨unread, index, loc⟩
  unfold takeUntil
  simp only at hf ⊢
  induction unread generalizing index loc with
  | nil => cases hf
  | cons f' fs ih =>
      rw [takeUntilFrom]
      by_cases hf' : stops.contains f'.text = true
      · rw [if_pos hf']
        rfl
      · rw [if_neg hf']
        rcases List.mem_cons.mp hf with rfl | hf
        · exact absurd hstop hf'
        · exact ih _ _ hf

/-- The unread text is made of whole lines. -/
def Cursor.WholeLines (c : Cursor) : Prop :=
  ∀ x, c.rest.getLast? = some x → x = '\n'

theorem Cursor.WholeLines.of_suffix {c c' : Cursor} (h : c.WholeLines)
    (hsuffix : c'.rest <:+ c.rest) : c'.WholeLines := by
  rcases hsuffix with ⟨t, hrest⟩
  intro x hx
  refine h x ?_
  rw [← hrest, List.getLast?_append, hx]
  rfl

/-- The break that ends the last line is a fragment of its own. -/
theorem Cursor.Lexed.mem_line {c : Cursor} (hc : c.Lexed) (h : c.WholeLines)
    (heof : c.eof = false) : ⟨'\n', []⟩ ∈ c.unread := by
  rcases List.eq_nil_or_concat c.rest with hnil | ⟨u, x, hrest⟩
  · rw [← c.current_append_rest_advance] at hnil
    exact absurd (List.append_eq_nil_iff.mp hnil).1 (Cursor.current_ne_nil heof)
  · rw [List.concat_eq_append] at hrest
    have hx : x = '\n' := h x (by rw [hrest, List.getLast?_concat])
    have hhard : Hard ['\n'] := by
      intro y hy
      cases hy
      decide
    rw [hc, hrest, hx, tokenize_append_of_hard hhard]
    refine List.mem_append_right _ ?_
    decide +kernel

/-- Whole lines are read in front of anything else. -/
theorem Derives.laps_lines {g : Grammar} {us : List Fragment} {lines chars : Int}
    {c c' d : Cursor} {ps : List Piece} (h : Derives g c (.pieces .source ps) c') (hc : c.Lexed)
    (hlines : c.WholeLines) (hd : c.Within us lines chars d) :
    ∃ qs d', Laps g .source d qs d' ∧ Says lines chars ps qs ∧ c'.Within us lines chars d' := by
  generalize hp : Phrase.pieces .source ps = p at h
  induction h generalizing ps d with
  | noPieces _ =>
      cases hp
      exact ⟨[], d, Laps.nil, Says.nil, hd⟩
  | @pieces z c c₁ c' ps qs hend hpass _ _ ih =>
      cases hp
      have hmark : Zone.source.Marked := trivial
      have htracks : c.Tracks us lines chars d := hd.opened (Or.inr hend)
      have hc₁ := ((Enters.pieces hend hpass).lexed ⟨fun _ => hc, hc.cut⟩).1 (by decide)
      -- A pass reads a literal, an element or a fragment, and each of them is
      -- read in front of anything else.
      have hone : ∃ qs d₁, Laps g .source d qs d₁ ∧ Says lines chars ps qs ∧
          c₁.Within us lines chars d₁ := by
        cases hpass with
        | verbatim ht =>
            refine ht.tracked g hmark hend htracks fun _ => Or.inr ?_
            exact Cursor.eof_takeUntil (hc.mem_line hlines hend) (by decide)
        | inlay hz he =>
            rcases he.tracked us lines chars d htracks with ⟨d₁, hread, hwithin⟩
            refine ⟨_, d₁, Laps.one ?_ (Derives.inlay hz hread), ?_, hwithin⟩
            · rw [htracks.ends hmark, hend]
            · rw [hwithin.loc]
              exact Says.inlay _ _
        | nest hz _ => exact absurd rfl hz
      rcases hone with ⟨ps', d₁, hlaps, hsays, hd₁⟩
      rcases ih hc₁ (hlines.of_suffix hpass.suffix) hd₁ rfl with ⟨qs', d', hlaps', hsays', hwithin⟩
      exact ⟨_, d', hlaps.append hlaps', hsays.append hsays', hwithin⟩
  | _ => cases hp

/-! ### The seam -/

/-- The place behind whole lines is the start of a source that is moved. -/
theorem Location.behind_lines {a : List Char} (h : a.getLast? = some '\n') :
    Location.behind a = Location.moved (a.count '\n') a.length {} := by
  rcases List.getLast?_eq_some_iff.mp h with ⟨u, rfl⟩
  rw [behind, lineStart_line, moved, List.length_append, List.length_singleton]
  simp only [Int.zero_add, Location.mk.injEq, true_and, and_true]
  omega

/-- Behind whole lines that parse, a cursor stands at what follows as at a
    source of its own, behind more lines. -/
theorem laps_seam {g : Grammar} {a : List Char} {c' : Cursor} {ps : List Piece}
    (h : Derives g (Task.source a).cursor (.pieces .source ps) c')
    (hline : a.getLast? = some '\n') (b : List Char) :
    ∃ qs d, Laps g .source (Task.source (a ++ b)).cursor qs d ∧ Says 0 0 ps qs ∧
      (Task.source b).cursor.Tracks [] (a.count '\n') a.length d := by
  have hunread : ∀ s, (Task.source s).cursor.unread = tokenize s := Cursor.unread_ofTexts
  have hrest : (Task.source a).cursor.rest = a := Cursor.rest_of_unread (hunread a)
  have hlines : (Task.source a).cursor.WholeLines := by
    intro x hx
    rw [hrest, hline] at hx
    exact (Option.some.inj hx).symm
  have hseam : tokenize (a ++ b) = tokenize a ++ tokenize b := by
    rcases List.getLast?_eq_some_iff.mp hline with ⟨u, rfl⟩
    rw [List.append_assoc]
    exact tokenize_append_closing (by decide) u b
  have hstart : (Task.source a).cursor.Within (tokenize b) 0 0 (Task.source (a ++ b)).cursor := by
    refine ⟨?_, (Location.moved_zero _).symm⟩
    rw [hunread, hunread, hseam]
    exact Recut.append _ _
  rcases h.laps_lines (Cursor.lexed_of_unread (hunread a)) hlines hstart with
    ⟨qs, d, hlaps, hsays, hleft, hloc⟩
  -- All of the lines has been read, and what is left is what follows them.
  have heof : c'.unread = [] := List.isEmpty_iff.mp h.pieces_end
  have hd : d.unread = tokenize b := by
    rw [heof] at hleft
    exact hleft.of_nil
  have hbehind : c'.loc = Location.behind a := by
    rcases (h.placed (Cursor.placed_start a)).1.place with ⟨before, hs, hplace⟩
    rw [Cursor.rest_of_eof h.pieces_end, List.append_nil] at hs
    rw [hs, hplace]
  refine ⟨qs, d, hlaps, hsays, ⟨?_, ?_⟩, Cursor.open_nil _⟩
  · rw [hd, hunread]
    exact Recut.refl _
  · rw [hloc, Location.moved_zero, hbehind, Location.behind_lines hline]
    rfl

/-- A failure is told with the same snippet when its source stands at the end
    of a larger one. -/
theorem Failure.diagnostic_moved {f : Failure} {b : List Char} {pos : Nat} (hpos : pos ≤ b.length)
    (hloc : f.loc.pos = pos) (lines : Int) (a : List Char) :
    (f.moved lines a.length).diagnostic (a ++ b) = (f.diagnostic b).moved lines a.length := by
  have hmoved : (f.moved lines a.length).loc.pos = ((a.length + pos : Nat) : Int) := by
    change f.loc.pos + a.length = _
    rw [hloc, Int.natCast_add, Int.add_comm]
  have hlen : a.length + pos ≤ (a ++ b).length := by
    rw [List.length_append]
    omega
  have hsnippet : snippet (a ++ b) (f.moved lines a.length).loc.pos = snippet b f.loc.pos := by
    rw [hmoved, hloc, snippet_eq hlen, snippet_eq hpos, ← List.drop_drop, List.drop_left]
  rw [Failure.diagnostic, Diagnostic.ofSource, hsnippet]
  rfl

/-- Parsing composes over whole lines. A source that ends with a line break
    and parses has text at its end. Whatever follows it parses as it does by
    itself: its tree is moved by the lines in front and joined with theirs, or
    its diagnostic is moved by them. -/
theorem parseSource_append (g : Grammar) (a b : List Char) (r : Root)
    (hline : a.getLast? = some '\n') (ha : parseSource g a = .ok r) :
    (∃ ss t loc, r.segments = ss ++ [.text t loc]) ∧
      parseSource g (a ++ b) =
        match parseSource g b with
        | .ok r' => .ok (r.join (r'.moved (a.count '\n') a.length))
        | .error d => .error (d.moved (a.count '\n') a.length) := by
  rcases parse_eq_ok_iff.mp ha with ⟨ps, c', hps, rfl⟩
  rcases laps_seam hps hline b with ⟨qs, d, hlaps, hsays, hd⟩
  have hrun : Run.extend { loc := {} } qs = Run.extend { loc := {} } ps := by
    have hsame := hsays { loc := {} }
    rwa [Run.moved_zero, Run.moved_zero] at hsame
  have htext : (Run.extend { loc := {} } ps).text ≠ [] := by
    rcases hps.rendered with ⟨t, ht, hrest⟩
    rw [Cursor.rest_of_eof hps.pieces_end, List.append_nil,
      Cursor.rest_of_unread (Cursor.unread_ofTexts a)] at hrest
    rw [← hrest] at ht
    exact Run.text_of_line ht hline
  refine ⟨⟨_, _, _, Run.flush_of_text htext⟩, ?_⟩
  cases hb : parseSource g b with
  | ok r' =>
      rcases parse_eq_ok_iff.mp hb with ⟨ps', c'', hps', rfl⟩
      rcases hps'.tracked [] _ _ trivial d hd (Cursor.open_nil _) with ⟨qs', d', hread, hsays', _⟩
      refine parse_eq_ok_iff.mpr ⟨qs ++ qs', d', hlaps.pieces hread, ?_⟩
      rw [Run.extend_append, hrun, Run.extend_join htext, hsays'.flush]
      rfl
  | error e =>
      rcases parse_eq_error_iff.mp hb with ⟨f, hf, rfl⟩
      rcases hf.fits with ⟨_, before, after, rfl, hloc, _⟩
      have hmoved := hf.tracked (u := ⟨.pieces .source, d⟩) ⟨rfl, trivial, hd⟩
      rcases hmoved with ⟨u, hreach, hraise⟩
      refine parse_eq_error_iff.mpr ⟨_, ⟨u, hlaps.reaches.trans hreach, hraise⟩, ?_⟩
      have hpos : before.length ≤ (before ++ after).length := by
        rw [List.length_append]
        omega
      rw [← List.flatMap_def, ← List.flatMap_def, tokenize_text, tokenize_text]
      exact (Failure.diagnostic_moved hpos (by rw [hloc]; rfl) _ a).symm

/-- A line that ends with a comment, in front of text with an element and in
    front of a bracket that opens nothing. -/
theorem parseSource_append_comment :
    ['x', '/', '/', '\n'].getLast? = some '\n' ∧
      parseSource .sigil ['x', '/', '/', '\n'] =
        .ok ⟨[.text ['x', '/', '/', '\n'] ⟨0, 0, 0⟩]⟩ ∧
      parseSource .sigil (['x', '/', '/', '\n'] ++ ['y', '<', 'p', '/', '>']) =
        .ok ⟨[.text ['x', '/', '/', '\n', 'y'] ⟨0, 0, 0⟩, .element (.mk ['p'] [] [] ⟨1, 1, 5⟩)]⟩ ∧
      parseSource .sigil (['x', '/', '/', '\n'] ++ ['y', '<']) =
        .error ⟨Cause.badName.message, ⟨1, 1, 5⟩, "<"⟩ := by
  have ha : parseSource .sigil ['x', '/', '/', '\n'] =
      .ok ⟨[.text ['x', '/', '/', '\n'] ⟨0, 0, 0⟩]⟩ := by decide +kernel
  have hb : parseSource .sigil ['y', '<', 'p', '/', '>'] =
      .ok ⟨[.text ['y'] ⟨0, 0, 0⟩, .element (.mk ['p'] [] [] ⟨0, 1, 1⟩)]⟩ := by decide +kernel
  have hb' : parseSource .sigil ['y', '<'] =
      .error ⟨Cause.badName.message, ⟨0, 1, 1⟩, "<"⟩ := by decide +kernel
  have hjoin := (parseSource_append .sigil _ ['y', '<', 'p', '/', '>'] _ rfl ha).2
  have hfail := (parseSource_append .sigil _ ['y', '<'] _ rfl ha).2
  rw [hb] at hjoin
  rw [hb'] at hfail
  exact ⟨rfl, ha, hjoin, hfail⟩

end Inlay
