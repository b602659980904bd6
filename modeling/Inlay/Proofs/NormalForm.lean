import Inlay.Proofs.Placement
import Inlay.Proofs.Rejection
import Mathlib.Data.List.Chain

/-!
# Normal Form

What everybody who walks a tree may rely on. A tree that was read from a
source is normal: texts that follow each other have been joined, nothing is
there that is empty, every name is a name in full, and every literal value is
quoted or the word `true`.

Each of these is the work of several rules together. That texts are joined is
an invariant of the run that collects them, in which an element is always the
last that is finished, since whatever text is finished is finished by an
element behind it. That code begins and ends with text follows from what the
passes over it collect: outside any nesting every pass collects a text first
and a text last, and between braces the two marks are such texts. Cutting the
marks off is what leaves an empty text behind, and only there. That no two
texts are next to each other in content is a matter of where each of them
stops.

A tree is judged by its nodes, and so is everything that is read
(`Phrase.walk`), so the whole result is one induction over the grammar.

## Main definitions

* `Separated`: No two entries of a kind are next to each other.
* `Pattern.Dotted`: A name in full, by its parts.
* `IsLiteral`: A literal value.
* `Code.Normal`, `Node.Normal`, `Root.Normal`: Normal trees.
* `Run.Tidy`: What a run preserves.
* `Phrase.walk`: The nodes of everything that is read.

## Theorems

* `Pattern.IsName.dotted`: What is read as a name is one in full.
* `Run.Tidy.extend`: Whatever is added to a tidy run, it stays tidy.
* `Derives.bounded`: Code outside any nesting begins and ends with text.
* `Derives.separated`: Neighbours in content are told apart where they meet.
* `Derives.normal`: Every node that is read is normal.
* `parse_normal`: Every tree that is read is normal.
-/

namespace Inlay

/-! ### Normal trees -/

/-- No two entries of a kind are next to each other. -/
def Separated {α : Type} (kind : α → Bool) (xs : List α) : Prop :=
  xs.IsChain fun x y => ¬(kind x = true ∧ kind y = true)

/-- A name in full: a letter and characters of names, and then any number of
    parts, each behind a dot and none of them empty. -/
def Pattern.Dotted (s : List Char) : Prop :=
  ∃ x first parts, s = x :: first ++ List.flatMap ('.' :: ·) parts ∧ isNameStart x = true ∧
    (∀ y ∈ first, isNameChar y = true) ∧
    ∀ part ∈ parts, part ≠ [] ∧ ∀ y ∈ part, isNameChar y = true

/-- A literal value: the word that stands for no value, or a text between two
    quotes of one kind. -/
def IsLiteral (value : List Char) : Prop :=
  value = ['t', 'r', 'u', 'e'] ∨ ∃ q ∈ ['"', '\''], ∃ body, value = q :: body ++ [q]

/-- Whether a segment is host text. -/
def Segment.isText : Segment → Bool
  | text _ _ => true
  | element _ => false

/-- Whether a segment is host text without a character. -/
def Segment.isEmpty : Segment → Bool
  | text t _ => t.isEmpty
  | element _ => false

/-- Whether an entry of content is text. -/
def Child.isText : Child → Bool
  | text _ => true
  | element _ | insertion _ _ | comment _ => false

/-- Whether an entry of content is an insertion. -/
def Child.isInsertion : Child → Bool
  | insertion _ _ => true
  | element _ | comment _ | text _ => false

/-- Normal code begins and ends with text, and holds no text next to another.
    Only its first and its last text may be empty, and only in the grammar that
    cuts braces off them. -/
structure Code.Normal (g : Grammar) (ss : Code) : Prop where
  begins : ss.head?.any Segment.isText = true
  ends : ss.getLast?.any Segment.isText = true
  apart : Separated Segment.isText ss
  inner : ∀ s ∈ ss.tail.dropLast, s.isEmpty = false
  full : g = .sigil → ∀ s ∈ ss, s.isEmpty = false

/-- What a normal node holds itself. What it holds further down is for the
    nodes below it. -/
def Node.Normal (g : Grammar) : Node → Prop
  | .element e => Pattern.Dotted e.tag ∧ Separated Child.isText e.content ∧
    (g = .sigil → Separated Child.isInsertion e.content)
  | .text t => t ≠ []
  | .fixed name value => Pattern.Dotted name ∧ IsLiteral value
  | .computed name _ _ => Pattern.Dotted name
  | .code ss => Code.Normal g ss
  | .root _ | .segment _ _ | .comment _ | .insertion _ _ | .mixin _ _ => True

/-- A normal tree holds no text next to another and none that is empty, and all
    its nodes are normal. -/
structure Root.Normal (g : Grammar) (r : Root) : Prop where
  apart : Separated Segment.isText r.segments
  full : ∀ s ∈ r.segments, s.isEmpty = false
  nodes : ∀ n ∈ r.walk, n.Normal g

/-! ### Names and values -/

namespace Pattern

/-- The rest of a name is made of its parts. -/
theorem parts_of_nameTail {s : List Char} (h : nameTail s = s.length) :
    ∃ first parts, s = first ++ List.flatMap ('.' :: ·) parts ∧
      (∀ y ∈ first, isNameChar y = true) ∧
      ∀ part ∈ parts, part ≠ [] ∧ ∀ y ∈ part, isNameChar y = true := by
  induction s with
  | nil =>
      exact ⟨[], [], rfl, fun _ hy => absurd hy List.not_mem_nil,
        fun _ hpart => absurd hpart List.not_mem_nil⟩
  | cons x xs ih =>
      unfold nameTail at h
      by_cases hx : (isNameChar x || (x == '.' && xs.head?.any isNameChar)) = true
      · rw [if_pos hx, List.length_cons] at h
        rcases ih (by omega) with ⟨first, parts, rfl, hfirst, hparts⟩
        by_cases hchar : isNameChar x = true
        · exact ⟨x :: first, parts, rfl, List.forall_mem_cons.mpr ⟨hchar, hfirst⟩, hparts⟩
        · -- A dot is followed by a character of a name, so the part is not empty.
          simp only [hchar, Bool.false_or, Bool.and_eq_true, beq_iff_eq] at hx
          rcases hx with ⟨rfl, hnext⟩
          have hne : first ≠ [] := by
            rintro rfl
            cases parts with
            | nil => cases hnext
            | cons part parts => exact absurd hnext (by simp [isNameChar])
          exact ⟨[], first :: parts, rfl, fun _ hy => absurd hy List.not_mem_nil,
            List.forall_mem_cons.mpr ⟨⟨hne, hfirst⟩, hparts⟩⟩
      · rw [if_neg hx, List.length_cons] at h
        omega

/-- What is read as a name is one in full. -/
theorem IsName.dotted {s : List Char} (h : IsName s) : Dotted s := by
  rcases h.head with ⟨x, xs, rfl, hx⟩
  rw [IsName, identifier, if_pos hx, Option.some.injEq, List.length_cons] at h
  have htail : nameTail xs = xs.length := by omega
  rcases parts_of_nameTail htail with ⟨first, parts, rfl, hfirst, hparts⟩
  exact ⟨x, first, parts, rfl, hx, hfirst, hparts⟩

end Pattern

theorem Cursor.dotted_name {c : Cursor} (h : (c.matched? Pattern.identifier).isSome = true) :
    Pattern.Dotted c.name :=
  (Cursor.isName_name (Cursor.name_ne_nil_iff.mpr h)).dotted

/-- A string that has been read ends with the quote that it begins with. -/
theorem Rule.isLiteral_quotedString {c c' : Cursor} {t : List Char}
    (h : quotedString c = .ok t c') : IsLiteral t := by
  rcases quotedString_eq_ok_iff.mp h with ⟨hat, heof, rfl, _⟩
  have hquote : ∃ q ∈ ['"', '\''], c.current = [q] := by
    have hmem := (Cursor.isAt_iff.mp hat).2
    simp only [quotes, List.mem_cons, List.not_mem_nil, or_false] at hmem
    rcases hmem with hcur | hcur
    · exact ⟨'"', by simp, hcur⟩
    · exact ⟨'\'', by simp, hcur⟩
  rcases hquote with ⟨q, hq, hcur⟩
  rw [Cursor.current_takeQuoted heof, Cursor.takeQuoted,
    (Cursor.takeQuotedFrom_eq_scan _ _ _ _ _).1, hcur]
  exact Or.inr ⟨q, hq, _, rfl⟩

/-! ### Runs -/

/-- What may follow the last entry may be added. -/
theorem Separated.concat {α : Type} {kind : α → Bool} {xs : List α} {y : α}
    (h : Separated kind xs) (hlast : ∀ x ∈ xs.getLast?, ¬(kind x = true ∧ kind y = true)) :
    Separated kind (xs ++ [y]) := by
  refine List.IsChain.append h (List.isChain_singleton y) fun x hx z hz => ?_
  simp only [List.head?_cons, Option.mem_def, Option.some.injEq] at hz
  subst hz
  exact hlast x hx

theorem Root.Normal.concat {g : Grammar} {ss : Code} {s : Segment} (h : (Root.mk ss).Normal g)
    (hlast : ∀ x ∈ ss.getLast?, ¬(x.isText = true ∧ s.isText = true)) (hfull : s.isEmpty = false)
    (hnodes : ∀ n ∈ s.walk, n.Normal g) : (Root.mk (ss ++ [s])).Normal g := by
  refine ⟨h.apart.concat hlast, ?_, ?_⟩
  · exact List.forall_mem_append.mpr ⟨h.full, List.forall_mem_singleton.mpr hfull⟩
  · unfold Root.walk
    rw [walkCode_append]
    simp only [walkCode, List.append_nil]
    exact List.forall_mem_append.mpr ⟨h.nodes, hnodes⟩

/-- The nodes that a piece of code holds. -/
def Piece.walk : Piece → List Node
  | text _ => []
  | inlay e _ => e.walk

/-- A run of which all that is finished is normal, with an element at its end. -/
structure Run.Tidy (g : Grammar) (r : Run) : Prop where
  normal : (Root.mk r.segments).Normal g
  rests : r.Rests

namespace Run

variable {g : Grammar} {r : Run}

theorem tidy_start (loc : Location) (t : List Char) : Tidy g { loc, text := t } := by
  refine ⟨⟨List.isChain_nil, ?_, ?_⟩, rests_start loc t⟩
  · exact fun s hs => absurd hs List.not_mem_nil
  · exact fun n hn => absurd hn List.not_mem_nil

/-- Text may stand behind what is finished. -/
theorem Rests.not_texts (h : r.Rests) (s : Segment) :
    ∀ x ∈ r.segments.getLast?, ¬(x.isText = true ∧ s.isText = true) := by
  intro x hx hboth
  rcases h with hnil | ⟨ss, e, hlast⟩
  · simp [hnil] at hx
  · simp only [hlast, List.getLast?_concat, Option.mem_def, Option.some.injEq] at hx
    rw [← hx] at hboth
    exact absurd hboth.1 Bool.false_ne_true

/-- Text goes behind what is finished, since that ends with an element. -/
theorem Tidy.flush (h : r.Tidy g) : (Root.mk r.flush.segments).Normal g := by
  by_cases htext : r.text = []
  · rw [flush_of_none htext]
    exact h.normal
  · rw [flush_of_text htext, closed]
    exact h.normal.concat (h.rests.not_texts _) (List.isEmpty_eq_false_iff.mpr htext)
      (List.forall_mem_singleton.mpr trivial)

theorem Tidy.add (h : r.Tidy g) {p : Piece} (hp : ∀ n ∈ p.walk, n.Normal g) :
    (r.add p).Tidy g := by
  cases p with
  | text t => exact ⟨h.normal, h.rests⟩
  | inlay e resume =>
      refine ⟨h.flush.concat (fun x _ hboth => ?_) rfl hp, h.rests.add _⟩
      exact absurd hboth.2 Bool.false_ne_true

/-- Whatever is added to a tidy run, it stays tidy. -/
theorem Tidy.extend (h : r.Tidy g) {ps : List Piece}
    (hps : ∀ n ∈ ps.flatMap Piece.walk, n.Normal g) : (r.extend ps).Tidy g := by
  induction ps generalizing r with
  | nil => exact h
  | cons p ps ih =>
      rw [List.flatMap_cons] at hps
      rcases List.forall_mem_append.mp hps with ⟨hp, hps⟩
      exact ih (h.add hp) hps

/-- The pending text goes behind what is finished, also when it is empty. -/
theorem Tidy.closed (h : r.Tidy g) : Separated Segment.isText r.closed :=
  h.normal.apart.concat (h.rests.not_texts _)

end Run

/-! ### Code -/

/-- Pieces of which the first and the last are texts that are not empty. -/
def TextBounded (ps : List Piece) : Prop :=
  (∃ t, t ≠ [] ∧ ps.head? = some (.text t)) ∧ ∃ t, t ≠ [] ∧ ps.getLast? = some (.text t)

section

variable {g : Grammar} {c c' : Cursor}

/-- Every pass over code outside any nesting collects a text first and a text
    last. -/
theorem Derives.piece_bounded {ps : List Piece} (h : Derives g c (.piece .unnested ps) c')
    (hend : Zone.unnested.ends c = false) : TextBounded ps := by
  have hless := h.size_lt hend
  cases h with
  | @verbatim _ _ _ t hv =>
      -- The pass left less unread, so the text it took over is not empty.
      have hne : t ≠ [] := Cursor.ne_nil_of_size_lt hv.rest hless
      exact ⟨⟨t, hne, rfl⟩, t, hne, rfl⟩
  | inlay hz => exact absurd rfl hz
  | nest _ hgroup =>
      rcases hgroup.group_inv with ⟨close, qs, c₁, hclose, _, hat, rfl, _⟩
      have hopen : c.current ≠ [] :=
        Cursor.current_ne_nil (Cursor.eof_of_closer? (by rw [hclose]; rfl))
      have hlast : close ≠ [] := by
        rw [← List.mem_singleton.mp (Cursor.isAt_iff.mp hat).2]
        exact Cursor.current_ne_nil (Cursor.eof_of_isAt hat)
      exact ⟨⟨_, hopen, rfl⟩, _, hlast, List.getLast?_concat⟩

/-- Code outside any nesting begins and ends with text. -/
theorem Derives.bounded {ps : List Piece} (h : Derives g c (.pieces .unnested ps) c') :
    ps = [] ∨ TextBounded ps := by
  generalize hp : Phrase.pieces .unnested ps = p at h
  induction h generalizing ps with
  | noPieces =>
      cases hp
      exact Or.inl rfl
  | @pieces z c c₁ c' ps qs hend hpass _ _ ih =>
      cases hp
      rcases hpass.piece_bounded hend with ⟨⟨t, ht, hhead⟩, u, hu, hlast⟩
      refine Or.inr ⟨⟨t, ht, ?_⟩, ?_⟩
      · rw [List.head?_append, hhead]
        rfl
      · rcases ih rfl with rfl | ⟨_, v, hv, hlast'⟩
        · exact ⟨u, hu, by rw [List.append_nil, hlast]⟩
        · exact ⟨v, hv, by rw [List.getLast?_append, hlast']; rfl⟩
  | _ => cases hp

end

namespace Code

variable {g : Grammar}

/-- Code that is collected from pieces between two texts is normal. -/
theorem normal_open {loc : Location} {ps : List Piece} (hps : TextBounded ps)
    (hnodes : ∀ n ∈ ps.flatMap Piece.walk, n.Normal g) :
    Normal g (Run.extend { loc } ps).flush.segments := by
  rcases hps with ⟨⟨t, ht, hhead⟩, u, hu, hlast⟩
  have hneat := ((Run.tidy_start (g := g) loc []).extend hnodes).flush
  -- The last text is pending when the run is over, and so the run is closed by it.
  have htext : (Run.extend { loc } ps).text ≠ [] := by
    rcases List.getLast?_eq_some_iff.mp hlast with ⟨qs, rfl⟩
    rw [Run.extend_append]
    exact List.append_ne_nil_of_right_ne_nil _ hu
  have hheaded : (Run.extend { loc } ps).Headed t loc := by
    rcases List.head?_eq_some_iff.mp hhead with ⟨qs, rfl⟩
    exact (Run.headed_start t loc).extend ht qs
  refine ⟨?_, ?_, hneat.apart, ?_, fun _ => hneat.full⟩
  · rcases hheaded with ⟨v, rest, hclosed⟩
    rw [Run.flush_of_text htext, hclosed]
    rfl
  · rw [Run.flush_of_text htext, Run.closed, List.getLast?_concat]
    rfl
  · exact fun s hs => hneat.full s (List.mem_of_mem_tail (List.dropLast_subset _ hs))

/-- Code of which the first text is replaced goes on as before. -/
theorem normal_replaced {r : Run} {t u : List Char} {loc loc' : Location} {rest : Code}
    (h : r.Tidy g) (hclosed : r.closed = .text t loc :: rest) :
    Normal .brace (.text u loc' :: rest) := by
  have hapart := h.closed
  rw [hclosed] at hapart
  refine ⟨rfl, ?_, List.isChain_cons.mpr (List.isChain_cons.mp hapart), ?_, fun hg => by cases hg⟩
  · have hlast := congrArg List.getLast? hclosed
    rw [Run.closed, List.getLast?_concat] at hlast
    cases rest with
    | nil => rfl
    | cons s rest =>
        rw [List.getLast?_cons_cons] at hlast ⊢
        rw [← hlast]
        rfl
  · -- Without its first and its last segment the code is finished segments.
    have hinner := congrArg (fun ss => ss.dropLast.tail) hclosed
    simp only [Run.closed, List.dropLast_concat, List.tail_dropLast, List.tail_cons] at hinner
    intro s hs
    rw [List.tail_cons, ← hinner] at hs
    exact h.normal.full s (List.mem_of_mem_tail hs)

theorem walk_replaced {r : Run} {t u : List Char} {loc loc' : Location} {rest : Code}
    (h : r.Tidy g) (hclosed : r.closed = .text t loc :: rest) :
    ∀ n ∈ walkCode (.text u loc' :: rest), n.Normal g := by
  have hwalk := congrArg walkCode hclosed
  rw [Run.closed, walkCode_append] at hwalk
  refine List.forall_mem_cons.mpr ⟨trivial, fun n hn => ?_⟩
  have hmem : n ∈ walkCode r.segments ++ [.segment r.text r.loc] := by
    rw [show [Node.segment r.text r.loc] = walkCode [.text r.text r.loc] from rfl, hwalk]
    exact List.mem_cons_of_mem _ hn
  rcases List.mem_append.mp hmem with hn | hn
  · exact h.normal.nodes n hn
  · rw [List.mem_singleton.mp hn]
    trivial

end Code

/-! ### Content -/

section

variable {g : Grammar} {c c₁ c' : Cursor}

/-- A text is read up to the next mark, from a place where there is none. -/
theorem Derives.text_inv {t : List Char} (h : Derives g c (.child (.text t)) c')
    (hend : c.contentEnds = false) :
    c.eof = false ∧ c.isAt g.textStops = false ∧ t = (c.takeUntil g.textStops).1 ∧
      c' = (c.takeUntil g.textStops).2 := by
  rcases Bool.or_eq_false_iff.mp hend with ⟨heof, hclose⟩
  cases h with
  | comment hcomment =>
      rcases Rule.rest_comment hcomment with ⟨body, hx, _⟩
      cases hx
  | text hopen hmark hcomment =>
      refine ⟨heof, ?_, rfl, rfl⟩
      simp only [Cursor.isAt, heof, Bool.not_false, Bool.true_and, List.contains_cons,
        List.contains_nil, Bool.or_false] at hopen hmark hcomment hclose
      simp only [Cursor.isAt, Grammar.textStops, List.contains_cons, List.contains_nil, hopen,
        hmark, hcomment, hclose, Bool.or_false, Bool.and_false]

/-- Text that is read is not empty. -/
theorem Derives.text_ne {t : List Char} (h : Derives g c (.child (.text t)) c')
    (hend : c.contentEnds = false) : t ≠ [] := by
  rcases h.text_inv hend with ⟨heof, hstop, rfl, _⟩
  exact Cursor.ne_nil_of_size_lt (c.rest_takeUntil _) (Cursor.size_takeUntil_lt heof hstop)

/-- A text ends where no other text begins. -/
theorem Derives.not_texts {x y : Child} (hend : c.contentEnds = false)
    (hx : Derives g c (.child x) c₁) (hend₁ : c₁.contentEnds = false)
    (hy : Derives g c₁ (.child y) c') : ¬(x.isText = true ∧ y.isText = true) := by
  rintro ⟨htx, hty⟩
  cases x with
  | text t =>
      cases y with
      | text u =>
          -- The first text went on to a mark, and the second begins at none.
          rcases hx.text_inv hend with ⟨_, _, _, rfl⟩
          rcases hy.text_inv hend₁ with ⟨heof, hstop, _, _⟩
          rw [Cursor.isAt_takeUntil _ _ heof] at hstop
          cases hstop
      | _ => cases hty
  | _ => cases htx

/-- An insertion is read as its code, from its mark. -/
theorem Derives.insertion_inv {ss : Code} {loc : Location}
    (h : Derives g c (.child (.insertion ss loc)) c') :
    c.isAt [g.insertionMark] = true ∧ Derives g (g.behindMark c) (.code ss) c' := by
  cases h with
  | insertion hat hcode => exact ⟨hat, hcode⟩
  | comment hcomment =>
      rcases Rule.rest_comment hcomment with ⟨body, hx, _⟩
      cases hx

/-- Code behind a sign ends where no sign stands. -/
theorem Derives.code_end {ss : Code} (h : Derives .sigil c (.code ss) c') :
    c'.isAt [['@']] = false := by
  cases h with
  | bracedCode hg => cases hg
  | openCode _ hps _ =>
      refine Bool.eq_false_iff.mpr fun hat => ?_
      rcases Cursor.isAt_iff.mp hat with ⟨heof, hcur⟩
      -- Code ends at the end or at a character that ends code, and a sign is
      -- neither.
      have hends := hps.pieces_end
      rw [Zone.ends, heof, Bool.false_or, Cursor.matched?, List.mem_singleton.mp hcur] at hends
      exact absurd hends (by decide)

/-- An insertion behind a sign ends where no other insertion begins. -/
theorem Derives.not_insertions {x y : Child} (hx : Derives .sigil c (.child x) c₁)
    (hy : Derives .sigil c₁ (.child y) c') : ¬(x.isInsertion = true ∧ y.isInsertion = true) := by
  rintro ⟨hix, hiy⟩
  cases x with
  | insertion ss loc =>
      cases y with
      | insertion ss' loc' =>
          have hat := hy.insertion_inv.1
          rw [Grammar.insertionMark, hx.insertion_inv.2.code_end] at hat
          cases hat
      | _ => cases hiy
  | _ => cases hix

/-- Entries of content are told apart where they meet. -/
theorem Derives.separated {kind : Child → Bool} {xs : List Child}
    (hkind : ∀ {c c₁ c' x y}, c.contentEnds = false → Derives g c (.child x) c₁ →
      c₁.contentEnds = false → Derives g c₁ (.child y) c' → ¬(kind x = true ∧ kind y = true))
    (h : Derives g c (.children xs) c') : Separated kind xs := by
  generalize hp : Phrase.children xs = p at h
  induction h generalizing xs with
  | noChildren =>
      cases hp
      exact List.isChain_nil
  | children hend hx hxs _ ih =>
      cases hp
      refine List.isChain_cons.mpr ⟨fun y hy => ?_, ih rfl⟩
      -- What follows the entry was read where the entry ends.
      cases hxs with
      | noChildren => cases hy
      | children hend₁ hy' _ =>
          cases hy
          exact hkind hend hx hend₁ hy'
  | _ => cases hp

end

/-! ### Everything that is read -/

/-- The nodes of everything that is read. -/
def Phrase.walk : Phrase → List Node
  | piece _ ps | pieces _ ps | group ps => ps.flatMap Piece.walk
  | code ss => .code ss :: walkCode ss
  | entry a => a.walk
  | entries as => walkAttributes as
  | child x => x.walk
  | children xs => walkContent xs
  | element e => e.walk

/-- An entry of content is read only where content has not ended. -/
def Phrase.Due (c : Cursor) : Phrase → Prop
  | child _ => c.contentEnds = false
  | _ => True

/-- Every node that is read is normal. -/
theorem Derives.normal {g : Grammar} {c c' : Cursor} {p : Phrase} (h : Derives g c p c')
    (hc : p.Due c) : ∀ n ∈ p.walk, n.Normal g := by
  have hnone : ∀ n ∈ ([] : List Node), n.Normal g := fun n hn => absurd hn List.not_mem_nil
  induction h with
  | verbatim _ => exact hnone
  | inlay _ _ ih => exact List.forall_mem_append.mpr ⟨ih trivial, hnone⟩
  | nest _ _ ih => exact ih trivial
  | noPieces _ => exact hnone
  | pieces _ _ _ ih ih' =>
      simp only [Phrase.walk, List.flatMap_append]
      exact List.forall_mem_append.mpr ⟨ih trivial, ih' trivial⟩
  | group _ _ _ ih =>
      simp only [Phrase.walk, List.cons_append, List.flatMap_cons, List.flatMap_append]
      exact List.forall_mem_append.mpr ⟨hnone, List.forall_mem_append.mpr ⟨ih trivial, hnone⟩⟩
  | @openCode c c' ps _ hps hne ih =>
      -- Code that is not empty was collected in some pass, so it has two ends.
      have hbounded := hps.bounded.resolve_left fun hnil => hne (by rw [hnil]; rfl)
      refine List.forall_mem_cons.mpr ⟨Code.normal_open hbounded (ih trivial), ?_⟩
      exact ((Run.tidy_start c.loc []).extend (ih trivial)).flush.nodes
  | @bracedCode c c' ps hg hat hgroup ih =>
      subst hg
      have hnodes := ih trivial
      rcases hgroup.group_inv with ⟨close, qs, c₁, hclose, _, _, rfl, rfl⟩
      simp only [Phrase.walk, List.cons_append, List.flatMap_cons, List.flatMap_append] at hnodes
      have htidy := (Run.tidy_start c.loc c.current).extend
        (List.forall_mem_append.mp (List.forall_mem_append.mp hnodes).2).1
      have hmark := Cursor.current_ne_nil (Cursor.eof_of_isAt hat)
      -- The run of the group begins with the mark, which is what is cut off.
      rw [Derives.closer?_of_brace hat hclose]
      rcases Rule.unbraced_group hmark c.loc qs '}' with ⟨u, rest, hclosed, hcode⟩
      rw [hcode]
      exact List.forall_mem_cons.mpr
        ⟨Code.normal_replaced htidy hclosed, Code.walk_replaced htidy hclosed⟩
  | bare hid _ =>
      exact List.forall_mem_singleton.mpr ⟨Cursor.dotted_name hid, Or.inl rfl⟩
  | quoted hid _ hv =>
      exact List.forall_mem_singleton.mpr
        ⟨Cursor.dotted_name hid, Rule.isLiteral_quotedString hv⟩
  | computed hid _ _ _ _ ih => exact List.forall_mem_cons.mpr ⟨Cursor.dotted_name hid, ih trivial⟩
  | mixin _ _ _ ih => exact List.forall_mem_cons.mpr ⟨trivial, ih trivial⟩
  | noEntries _ => exact hnone
  | entries _ _ _ ih ih' => exact List.forall_mem_append.mpr ⟨ih trivial, ih' trivial⟩
  | childElement _ ih => exact ih trivial
  | insertion _ _ ih => exact List.forall_mem_cons.mpr ⟨trivial, ih trivial⟩
  | comment hcomment =>
      rcases Rule.rest_comment hcomment with ⟨body, rfl, _⟩
      exact List.forall_mem_singleton.mpr trivial
  | text hopen hmark hcomment =>
      exact List.forall_mem_singleton.mpr ((Derives.text hopen hmark hcomment).text_ne hc)
  | noChildren _ => exact hnone
  | children hend _ _ ih ih' => exact List.forall_mem_append.mpr ⟨ih hend, ih' trivial⟩
  | emptyElement _ hne _ _ ih =>
      refine List.forall_mem_cons.mpr ⟨⟨(Cursor.isName_name hne).dotted, ?_, ?_⟩, ?_⟩
      · exact List.isChain_nil
      · exact fun _ => List.isChain_nil
      · exact List.forall_mem_append.mpr ⟨ih trivial, hnone⟩
  | fullElement _ hne _ _ hxs _ _ _ ih ih' =>
      refine List.forall_mem_cons.mpr ⟨⟨(Cursor.isName_name hne).dotted, ?_, ?_⟩, ?_⟩
      · exact hxs.separated Derives.not_texts
      · rintro rfl
        exact hxs.separated fun _ hx _ hy => Derives.not_insertions hx hy
      · exact List.forall_mem_append.mpr ⟨ih trivial, ih' trivial⟩

/-- Every tree that is read is normal, whatever the source was cut into. -/
theorem parse_normal (g : Grammar) (fragments : List (List Char)) (r : Root)
    (h : parse g fragments = .ok r) : r.Normal g := by
  rcases parse_eq_ok_iff.mp h with ⟨ps, c', hps, rfl⟩
  exact ((Run.tidy_start {} []).extend (hps.normal trivial)).flush

/-- Braces around an element and nothing else: the texts in front of it and
    behind it are empty. -/
theorem parse_normal_braces :
    ∃ r : Root,
      r.segments = [.element (.mk ['p']
        [.computed ['q'] [.text [] ⟨0, 6, 6⟩, .element (.mk ['i'] [] [] ⟨0, 6, 6⟩),
          .text [] ⟨0, 10, 10⟩] ⟨0, 3, 3⟩] [.text ['a']] ⟨0, 0, 0⟩)] ∧
      parse .brace
        [['<'], ['p', ' ', 'q'], ['='], ['{'], ['<'], ['i'], ['/', '>'], ['}'], ['>'], ['a'],
          ['<', '/'], ['p'], ['>']] = .ok r ∧
      r.Normal .brace := by
  have hread : parse .brace
      [['<'], ['p', ' ', 'q'], ['='], ['{'], ['<'], ['i'], ['/', '>'], ['}'], ['>'], ['a'],
        ['<', '/'], ['p'], ['>']] =
      .ok ⟨[.element (.mk ['p']
        [.computed ['q'] [.text [] ⟨0, 6, 6⟩, .element (.mk ['i'] [] [] ⟨0, 6, 6⟩),
          .text [] ⟨0, 10, 10⟩] ⟨0, 3, 3⟩] [.text ['a']] ⟨0, 0, 0⟩)]⟩ := by decide +kernel
  exact ⟨_, rfl, hread, parse_normal .brace _ _ hread⟩

end Inlay
