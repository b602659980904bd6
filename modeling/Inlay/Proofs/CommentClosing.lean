import Inlay.Proofs.LexicalContract
import Inlay.Proofs.StringLiterals
import Mathlib.Data.List.DropRight

/-!
# Where Comments Close

A comment in code should close at the first `*/` behind its opening mark, and
a comment in markup at the first `-->`. The rules for both take fragments up
to one that is the closing mark. A source is cut into fragments without regard
to where its comments are, though, so a marker that begins in a comment may
reach into the characters of its closing mark, and then the mark is no
fragment and does not close the comment.

Only the mark that opens a comment can do this to the one that closes it. In
code a slash in front of `*/` takes the star to form `/*`, if it has not been
taken itself, by another slash or by a `<` in front of it. So slashes pair
off, and `*/` is hidden behind an odd number of them. In markup `<!--` takes
one or both of the dashes of `-->`, which is hidden behind `<!` and `<!-`.
All else that could take a character of a closing mark leaves it alone: a star
is a fragment of its own unless a slash is next to it, and a run ends in front
of `-->`, however many dashes it ends with.

A comment closes at the first closing mark that is not hidden, and without one
it is not terminated. For either kind of comment an invariant of the places
between two fragments carries the proof (`Guards`).

## Main definitions

* `FirstMark`: The first place of a mark that is not hidden.
* `freeSlashes`, `HidesBlockClose`: What hides `*/`.
* `HidesCommentClose`: What hides `-->`.
* `Guards`: An invariant of the places between fragments that tells where a
  mark is one.
* `ClosesFirst`: A comment closes at its first closing mark, as far as that is
  not hidden.

## Theorems

* `Guards.scan`: Fragments are taken up to the first mark.
* `guards_block`, `guards_comment`: The invariants of the two marks.
* `closesFirst`: Taking fragments up to a mark closes a comment there.
* `blockComment_closes`, `comment_closes`: The comments of a source.
* `blockComment_passes_close`, `comment_passes_close`: Comments that do not
  close at their closing mark.
-/

namespace Inlay

/-! ### The first mark -/

/-- The first place of a text at which a mark stands that is not hidden by what
    is in front of it. -/
structure FirstMark (mark : List Char) (hides : List Char → Prop) (s body after : List Char) :
    Prop where
  split : s = body ++ mark ++ after
  shown : ¬ hides body
  first : ∀ body' after', s = body' ++ mark ++ after' → ¬ hides body' → body.length ≤ body'.length

section

variable {mark s body body' after after' : List Char} {hides : List Char → Prop}

/-- There is only one such place. -/
theorem FirstMark.unique (h : FirstMark mark hides s body after)
    (h' : FirstMark mark hides s body' after') : body = body' ∧ after = after' := by
  have hlen : body.length = body'.length :=
    Nat.le_antisymm (h.first _ _ h'.split h'.shown) (h'.first _ _ h.split h.shown)
  have heq : body ++ (mark ++ after) = body' ++ (mark ++ after') := by
    rw [← List.append_assoc, ← List.append_assoc, ← h.split, ← h'.split]
  rcases List.append_inj heq hlen with ⟨hbody, htail⟩
  exact ⟨hbody, List.append_cancel_left htail⟩

/-- The first mark of all, unless it is hidden, is the first that is not. -/
theorem FirstMark.of_shown (h : FirstMark mark (fun _ => False) s body after)
    (hshown : ¬ hides body) : FirstMark mark hides s body after :=
  ⟨h.split, hshown, fun _ _ hsplit _ => h.first _ _ hsplit not_false⟩

end

/-! ### What hides a closing mark -/

/-- How many slashes a text ends in, without the one that belongs to `</`. -/
def freeSlashes (body : List Char) : Nat :=
  let slashes := (body.rtakeWhile (· == '/')).length
  if (body.rdropWhile (· == '/')).getLast? = some '<' then slashes - 1 else slashes

/-- Behind an odd number of slashes, `*/` gives its star to the last of them. -/
def HidesBlockClose (body : List Char) : Prop :=
  Odd (freeSlashes body)

/-- Behind the beginning of `<!--`, `-->` gives a dash or two to it. -/
def HidesCommentClose (body : List Char) : Prop :=
  ['<', '!'] <:+ body ∨ ['<', '!', '-'] <:+ body

instance : DecidablePred HidesBlockClose := fun body =>
  inferInstanceAs (Decidable (Odd (freeSlashes body)))

instance : DecidablePred HidesCommentClose := fun body =>
  inferInstanceAs (Decidable (['<', '!'] <:+ body ∨ ['<', '!', '-'] <:+ body))

theorem freeSlashes_concat {x : Char} (hx : x ≠ '/') (u : List Char) :
    freeSlashes (u ++ [x]) = 0 := by
  have hne : ¬ (x == '/') = true := by rwa [beq_iff_eq]
  unfold freeSlashes
  rw [List.rtakeWhile_concat_neg (· == '/') u x hne]
  by_cases hlast : ((u ++ [x]).rdropWhile (· == '/')).getLast? = some '<'
  · rw [if_pos hlast]
    rfl
  · rw [if_neg hlast]
    rfl

theorem freeSlashes_slash (u : List Char) :
    freeSlashes (u ++ ['/']) = if u.getLast? = some '<' then 0 else freeSlashes u + 1 := by
  unfold freeSlashes
  rw [List.rtakeWhile_concat_pos _ _ _ rfl, List.rdropWhile_concat_pos _ _ _ rfl,
    List.length_append, List.length_singleton]
  cases u using List.reverseRecOn with
  | nil => rfl
  | append_singleton u y =>
      rw [List.getLast?_concat]
      by_cases hy : y = '/'
      · -- The slashes go on in front, so the last character is no `<`.
        subst hy
        rw [List.rtakeWhile_concat_pos _ _ _ rfl, List.rdropWhile_concat_pos _ _ _ rfl,
          if_neg (by decide : ¬ some '/' = some '<'), List.length_append, List.length_singleton]
        by_cases hlast : (u.rdropWhile (· == '/')).getLast? = some '<'
        · rw [if_pos hlast, if_pos hlast]
          omega
        · rw [if_neg hlast, if_neg hlast]
      · have hne : ¬ (y == '/') = true := by rwa [beq_iff_eq]
        rw [List.rtakeWhile_concat_neg (· == '/') u y hne,
          List.rdropWhile_concat_neg (· == '/') u y hne, List.getLast?_concat]
        by_cases hlast : some y = some '<'
        · rw [if_pos hlast, if_pos hlast, List.length_nil]
        · rw [if_neg hlast, if_neg hlast, if_neg hlast]

/-- The slash of `</` does not count. -/
theorem freeSlashes_endOpen (u : List Char) : freeSlashes (u ++ Marker.endOpen) = 0 := by
  have hsnoc : u ++ Marker.endOpen = u ++ ['<'] ++ ['/'] := by
    rw [List.append_assoc]
    rfl
  rw [hsnoc, freeSlashes_slash, List.getLast?_concat, if_pos rfl]

/-- Both slashes of `//` count. -/
theorem freeSlashes_lineComment {u : List Char} (h : u.getLast? ≠ some '<') :
    freeSlashes (u ++ Marker.lineComment) = freeSlashes u + 1 + 1 := by
  have hsnoc : u ++ Marker.lineComment = u ++ ['/'] ++ ['/'] := by
    rw [List.append_assoc]
    rfl
  rw [hsnoc, freeSlashes_slash, List.getLast?_concat, if_neg (by decide : ¬ some '/' = some '<'),
    freeSlashes_slash, if_neg h]

/-! ### Places between fragments -/

/-- The first fragment of a text, and what stands behind it. -/
structure Heads (s : List Char) (f : Fragment) (k : List Char) : Prop where
  cut : tokenize s = f :: tokenize k
  split : s = f.text ++ k

theorem heads_cons (x : Char) (rest : List Char) :
    Heads (x :: rest) ⟨x, rest.take (tailLength x rest)⟩ (rest.drop (tailLength x rest)) := by
  refine ⟨tokenize_cons x rest, ?_⟩
  rw [Fragment.text, List.cons_append, List.take_append_drop]

/-- A first fragment is a marker, or a structural character where no marker
    begins, or the run that begins there. -/
theorem Heads.cases {s k : List Char} {f : Fragment} (h : Heads s f k) :
    f.text ∈ Marker.all ∨
      (∃ x, f.text = [x] ∧ isStructural x = true ∧ Marker.leading? (x :: k) = none) ∨
      f.text = s.take (runLength s) := by
  have hne : s ≠ [] := by
    intro hs
    have hnil := h.split
    rw [hs] at hnil
    exact f.text_ne_nil (List.append_eq_nil_iff.mp hnil.symm).1
  rcases tokenize_cases hne with ⟨m, k', hm, _, g, hg, htok⟩ | ⟨x, k', hx, hs, hlead, htok⟩ |
    ⟨_, g, hg, htok⟩
  · rw [(List.cons.inj (h.cut.symm.trans htok)).1, hg]
    exact Or.inl hm
  · have hf : f = ⟨x, []⟩ := (List.cons.inj (h.cut.symm.trans htok)).1
    have hk : k = k' := by
      have hsplit := h.split
      rw [hf, hs] at hsplit
      exact (List.cons.inj hsplit).2.symm
    rw [hs, ← hk] at hlead
    exact Or.inr (Or.inl ⟨x, by rw [hf]; rfl, hx, hlead⟩)
  · rw [(List.cons.inj (h.cut.symm.trans htok)).1, hg]
    exact Or.inr (Or.inr rfl)

/-- An invariant of the places between fragments, given the text in front and
    the text behind, that tells where a mark is a fragment. It is not hidden
    where it is one, and it is hidden where it begins inside another one. -/
structure Guards (mark : List Char) (hides : List Char → Prop)
    (inv : List Char → List Char → Prop) : Prop where
  marker : mark ∈ Marker.all
  shown : ∀ {before k}, inv before (mark ++ k) → ¬ hides before
  pass : ∀ {before s f k}, inv before s → Heads s f k → f.text ≠ mark → inv (before ++ f.text) k
  inside : ∀ {before s f k t u after}, inv before s → Heads s f k → f.text ≠ mark →
    f.text = t ++ u → u ≠ [] → u ++ k = mark ++ after → hides (before ++ t)

section

variable {mark before s k body after : List Char} {hides : List Char → Prop}
  {inv : List Char → List Char → Prop} {f : Fragment}

/-- A mark that begins in a fragment is hidden, and any other one stands behind
    it. -/
theorem Guards.behind (h : Guards mark hides inv) (hinv : inv before s) (hhead : Heads s f k)
    (hmark : f.text ≠ mark) (hs : s = body ++ mark ++ after) :
    hides (before ++ body) ∨ ∃ body', body = f.text ++ body' ∧ k = body' ++ mark ++ after := by
  have heq : f.text ++ k = body ++ (mark ++ after) := by
    rw [← hhead.split, hs, List.append_assoc]
  rcases List.append_eq_append_iff.mp heq with ⟨body', hbody, hk⟩ | ⟨u, hf, hu⟩
  · exact Or.inr ⟨body', hbody, by rw [hk, List.append_assoc]⟩
  · by_cases hnil : u = []
    · subst hnil
      rw [List.append_nil] at hf
      refine Or.inr ⟨[], by rw [hf, List.append_nil], ?_⟩
      rw [List.nil_append] at hu
      rw [List.nil_append, hu]
    · exact Or.inl (h.inside hinv hhead hmark hf hnil hu.symm)

/-- The first mark behind a fragment is the first one together with it. -/
theorem Guards.firstMark (h : Guards mark hides inv) (hinv : inv before s) (hhead : Heads s f k)
    (hmark : f.text ≠ mark)
    (hfirst : FirstMark mark (fun body => hides (before ++ f.text ++ body)) k body after) :
    FirstMark mark (fun body => hides (before ++ body)) s (f.text ++ body) after := by
  refine ⟨?_, ?_, fun body' after' hs hshown => ?_⟩
  · rw [hhead.split, hfirst.split]
    simp only [List.append_assoc]
  · rw [← List.append_assoc]
    exact hfirst.shown
  · rcases h.behind hinv hhead hmark hs with hhidden | ⟨body'', rfl, hk⟩
    · exact absurd hhidden hshown
    · rw [← List.append_assoc] at hshown
      rw [List.length_append, List.length_append]
      exact Nat.add_le_add_left (hfirst.first body'' after' hk hshown) _

end

/-- Taking fragments up to a mark stops at the first one that is not hidden, and
    nowhere if all are hidden. -/
theorem Guards.scan {mark : List Char} {hides : List Char → Prop}
    {inv : List Char → List Char → Prop} (h : Guards mark hides inv) {before s : List Char}
    (hinv : inv before s) (text : List Char) :
    match Inlay.scan (fun _ f => [mark].contains f.text) text (tokenize s) with
    | (_, []) => ∀ body after, s = body ++ mark ++ after → hides (before ++ body)
    | (taken, _ :: left) => ∃ after,
        FirstMark mark (fun body => hides (before ++ body)) s (taken.flatMap Fragment.text) after ∧
          left = tokenize after := by
  induction hn : s.length using Nat.strongRecOn generalizing s before text with
  | _ n ih =>
  cases s with
  | nil =>
      rw [tokenize_nil]
      intro body after hs
      have hmark := (List.append_eq_nil_iff.mp (List.append_eq_nil_iff.mp hs.symm).1).2
      exact absurd hmark (Marker.ne_nil_of_mem h.marker)
  | cons x rest =>
      have hhead := heads_cons x rest
      generalize (⟨x, rest.take (tailLength x rest)⟩ : Fragment) = f at hhead
      generalize rest.drop (tailLength x rest) = k at hhead
      have hlen : k.length < n := by
        have hsplit := congrArg List.length hhead.split
        rw [List.length_append, hn] at hsplit
        have hpos := List.length_pos_iff.mpr f.text_ne_nil
        omega
      generalize x :: rest = s at hinv hhead
      rw [hhead.cut, Inlay.scan]
      by_cases hmark : f.text = mark
      · -- The mark is the first fragment.
        rw [if_pos (by rw [hmark]; simp)]
        have hsplit := hhead.split
        rw [hmark] at hsplit
        refine ⟨k, ⟨hsplit, ?_, fun _ _ _ _ => Nat.zero_le _⟩, rfl⟩
        rw [hsplit] at hinv
        rw [List.flatMap_nil, List.append_nil]
        exact h.shown hinv
      · rw [if_neg (by simpa using hmark)]
        have hnext := ih k.length hlen (h.pass hinv hhead hmark) (text ++ f.text) rfl
        cases hscan : Inlay.scan (fun _ f => [mark].contains f.text) (text ++ f.text) (tokenize k) with
        | mk taken left =>
            rw [hscan] at hnext
            cases left with
            | nil =>
                intro body after hs
                rcases h.behind hinv hhead hmark hs with hhidden | ⟨body', rfl, hk⟩
                · exact hhidden
                · rw [← List.append_assoc]
                  exact hnext body' after hk
            | cons l left =>
                rcases hnext with ⟨after, hfirst, hleft⟩
                exact ⟨after, h.firstMark hinv hhead hmark hfirst, hleft⟩

/-! ### The mark that closes a comment in code -/

/-- Between two fragments, a star or a slash that follows is not taken by a
    slash in front of it, nor is a slash by a `<`. -/
structure SlashesSettled (before s : List Char) : Prop where
  slashes : Odd (freeSlashes before) → s.head? ≠ some '/' ∧ s.head? ≠ some '*'
  angle : before.getLast? = some '<' → s.head? ≠ some '/'

/-- A character that does not begin a marker of two stands in front of no
    second one. -/
theorem Marker.head?_ne_of_leading? {x z : Char} {k : List Char} (hm : [x, z] ∈ Marker.all)
    (hlead : Marker.leading? (x :: k) = none) : k.head? ≠ some z := by
  intro hhead
  rcases List.head?_eq_some_iff.mp hhead with ⟨k', rfl⟩
  have hsome := Marker.leading?_append hm k'
  rw [List.cons_append, List.singleton_append, hlead] at hsome
  cases hsome

/-- A structural character that a fragment holds stands alone in it, unless the
    fragment is a marker. -/
theorem Heads.structural {s k : List Char} {f : Fragment} {x : Char} (h : Heads s f k)
    (hmem : x ∈ f.text) (hx : isStructural x = true) :
    f.text ∈ Marker.all ∨ f.text = [x] ∧ Marker.leading? (x :: k) = none := by
  rcases h.cases with hm | ⟨y, hy, _, hlead⟩ | hrun
  · exact Or.inl hm
  · rw [hy] at hmem
    rw [List.mem_singleton.mp hmem]
    exact Or.inr ⟨hy, hlead⟩
  · rw [hrun] at hmem
    rw [isStructural_of_mem_run x hmem] at hx
    cases hx

theorem SlashesSettled.pass {before s k : List Char} {f : Fragment} (hinv : SlashesSettled before s)
    (h : Heads s f k) (hmark : f.text ≠ Marker.blockClose) : SlashesSettled (before ++ f.text) k := by
  -- What counts is the last character of the fragment.
  obtain ⟨u, y, hf⟩ : ∃ u y, f.text = u ++ [y] := by
    rcases List.eq_nil_or_concat f.text with hnil | ⟨u, y, hf⟩
    · exact absurd hnil f.text_ne_nil
    · exact ⟨u, y, by rw [hf, List.concat_eq_append]⟩
  have hmem : y ∈ f.text := by rw [hf]; simp
  have hlast : (before ++ f.text).getLast? = some y := by
    rw [hf, ← List.append_assoc, List.getLast?_concat]
  by_cases hslash : y = '/'
  · subst hslash
    refine ⟨?_, fun hangle => by rw [hlast] at hangle; cases hangle⟩
    rcases h.structural hmem (by decide) with hm | ⟨halone, hlead⟩
    · -- Of the markers that end in a slash, only `//` could change the parity.
      have hmarks : ∀ m ∈ Marker.all, m.getLast? = some '/' →
          m = Marker.endOpen ∨ m = Marker.lineComment ∨ m = Marker.blockClose := by decide
      have htwo := hmarks _ hm (by rw [hf, List.getLast?_concat])
      intro hodd
      exfalso
      rcases htwo with htag | hline | hclose
      · rw [htag, freeSlashes_endOpen] at hodd
        exact absurd hodd (by decide)
      · have hhead : s.head? = some '/' := by
          rw [h.split, hline]
          rfl
        rw [hline, freeSlashes_lineComment fun hangle => hinv.angle hangle hhead,
          Nat.odd_add_one, Nat.odd_add_one, not_not] at hodd
        exact (hinv.slashes hodd).1 hhead
      · exact hmark hclose
    · -- A slash alone is followed by none of the two.
      exact fun _ => ⟨Marker.head?_ne_of_leading? (by decide) hlead,
        Marker.head?_ne_of_leading? (by decide) hlead⟩
  · have hcount : freeSlashes (before ++ f.text) = 0 := by
      rw [hf, ← List.append_assoc, freeSlashes_concat hslash]
    refine ⟨fun hodd => ?_, fun hangle => ?_⟩
    · rw [hcount] at hodd
      exact absurd hodd (by decide)
    · rw [hlast, Option.some.injEq] at hangle
      subst hangle
      rcases h.structural hmem (by decide) with hm | ⟨_, hlead⟩
      · have hmarks : ∀ m ∈ Marker.all, m.getLast? ≠ some '<' := by decide
        exact absurd (by rw [hf, List.getLast?_concat]) (hmarks _ hm)
      · exact Marker.head?_ne_of_leading? (by decide) hlead

/-- A closing mark that begins inside another fragment begins in an opening
    mark, behind its slash. -/
theorem SlashesSettled.inside {before s k t u after : List Char} {f : Fragment}
    (hinv : SlashesSettled before s) (h : Heads s f k) (hmark : f.text ≠ Marker.blockClose)
    (hf : f.text = t ++ u) (hu : u ≠ []) (hk : u ++ k = Marker.blockClose ++ after) :
    HidesBlockClose (before ++ t) := by
  obtain ⟨u', rfl⟩ : ∃ u', u = '*' :: u' := by
    cases u with
    | nil => exact absurd rfl hu
    | cons y u' => exact ⟨u', by rw [(List.cons.inj hk).1]⟩
  have htail : u' ++ k = '/' :: after := (List.cons.inj hk).2
  have hmem : '*' ∈ f.text := by rw [hf]; simp
  rcases h.structural hmem (by decide) with hm | ⟨halone, hlead⟩
  · have hmarks : ∀ m ∈ Marker.all, '*' ∈ m → m = Marker.blockOpen ∨ m = Marker.blockClose := by
      decide
    have hopen : f.text = ['/', '*'] := (hmarks _ hm hmem).resolve_right hmark
    have ht : t = ['/'] := by
      rw [hf] at hopen
      cases t with
      | nil => cases (List.cons.inj hopen).1
      | cons y t =>
          rcases List.cons.inj hopen with ⟨rfl, hrest⟩
          cases t with
          | nil => rfl
          | cons z t => simp at hrest
    have hhead : s.head? = some '/' := by
      rw [h.split, hopen]
      rfl
    rw [ht, HidesBlockClose, freeSlashes_slash, if_neg fun hangle => hinv.angle hangle hhead,
      Nat.odd_add_one]
    exact fun hodd => (hinv.slashes hodd).1 hhead
  · -- A star alone is not followed by a slash.
    exfalso
    have hu' : u' = [] := by
      rw [halone] at hf
      cases t with
      | nil => exact (List.cons.inj hf).2.symm
      | cons y t => simp at hf
    rw [hu', List.nil_append] at htail
    exact Marker.head?_ne_of_leading? (z := '/') (by decide) hlead (by rw [htail]; rfl)

theorem guards_block : Guards Marker.blockClose HidesBlockClose SlashesSettled where
  marker := by decide
  shown hinv hodd := (hinv.slashes hodd).2 rfl
  pass := SlashesSettled.pass
  inside := SlashesSettled.inside

/-! ### The mark that closes a comment in markup -/

/-- Between two fragments, no opening mark goes across. -/
def OpenersSettled (before s : List Char) : Prop :=
  ∀ t u, Marker.commentOpen = t ++ u → t ≠ [] → u ≠ [] → t <:+ before → ¬ u <+: s

theorem OpenersSettled.pass {before s k : List Char} {f : Fragment} (hinv : OpenersSettled before s)
    (h : Heads s f k) : OpenersSettled (before ++ f.text) k := by
  rintro t u hopen ht hu ⟨r, hr⟩ ⟨k', hk⟩
  -- The opening mark begins in front of the fragment or inside it.
  have hwhere : (∃ t', t' ≠ [] ∧ t' <:+ before ∧ t = t' ++ f.text) ∨ ∃ r', f.text = r' ++ t := by
    rcases List.append_eq_append_iff.mp hr with ⟨t', hbefore, htext⟩ | ⟨r', _, htext⟩
    · by_cases hnil : t' = []
      · exact Or.inr ⟨[], by rw [htext, hnil]; rfl⟩
      · exact Or.inl ⟨t', hnil, ⟨r, hbefore.symm⟩, htext⟩
    · exact Or.inr ⟨r', htext⟩
  rcases hwhere with ⟨t', hne, hsuffix, rfl⟩ | ⟨r', hf⟩
  · refine hinv t' (f.text ++ u) ?_ hne (by simp [hu]) hsuffix ⟨k', ?_⟩
    · rw [hopen, List.append_assoc]
    · rw [h.split, ← hk, List.append_assoc]
  · obtain ⟨t₂, rfl⟩ : ∃ t₂, t = '<' :: t₂ := by
      cases t with
      | nil => exact absurd rfl ht
      | cons y t₂ => exact ⟨t₂, by rw [(List.cons.inj hopen).1]⟩
    have htail : ['!', '-', '-'] = t₂ ++ u := (List.cons.inj hopen).2
    have hmem : '<' ∈ f.text := by rw [hf]; simp
    rcases h.structural hmem (by decide) with hm | ⟨halone, hlead⟩
    · have hmarks : ∀ m ∈ Marker.all, '<' ∈ m →
          m.head? = some '<' ∧ '<' ∉ m.tail ∧ (m.tail = ['!', '-', '-'] ∨ m.tail = ['/']) := by decide
      rcases hmarks _ hm hmem with ⟨_, hfree, hrest⟩
      -- It begins with the marker, and it would have to be a part of it.
      have hr' : r' = [] := by
        cases r' with
        | nil => rfl
        | cons y r' =>
            rw [hf] at hfree
            exact absurd (by simp) hfree
      rw [hf, hr', List.nil_append, List.tail_cons] at hrest
      rcases hrest with hrest | hrest
      · rw [hrest] at htail
        exact hu (List.self_eq_append_right.mp htail)
      · rw [hrest] at htail
        cases (List.cons.inj htail).1
    · -- A `<` alone does not begin the mark.
      have hnil : t₂ = [] := by
        rw [halone] at hf
        cases r' with
        | nil => exact (List.cons.inj hf).2.symm
        | cons y r' => simp at hf
      rw [hnil, List.nil_append] at htail
      have hsome := Marker.leading?_append (m := Marker.commentOpen) (by decide) k'
      have hmark : Marker.commentOpen ++ k' = '<' :: k := by
        rw [← hk, ← htail]
        rfl
      rw [hmark, hlead] at hsome
      cases hsome

/-- A closing mark that begins inside another fragment begins in an opening
    mark, since no run goes on where it begins. -/
theorem Heads.hidesCommentClose {before s k t u after : List Char} {f : Fragment} (h : Heads s f k)
    (hmark : f.text ≠ Marker.commentClose) (hf : f.text = t ++ u) (hu : u ≠ [])
    (hk : u ++ k = Marker.commentClose ++ after) : HidesCommentClose (before ++ t) := by
  obtain ⟨u', rfl⟩ : ∃ u', u = '-' :: u' := by
    cases u with
    | nil => exact absurd rfl hu
    | cons y u' => exact ⟨u', by rw [(List.cons.inj hk).1]⟩
  have hmem : '-' ∈ f.text := by rw [hf]; simp
  rcases h.cases with hm | ⟨x, hx, hstruct, _⟩ | hrun
  · have hmarks : ∀ m ∈ Marker.all, '-' ∈ m → m = Marker.commentOpen ∨ m = Marker.commentClose := by
      decide
    have hopen : t ++ '-' :: u' = ['<', '!', '-', '-'] :=
      hf.symm.trans ((hmarks _ hm hmem).resolve_right hmark)
    have ht : t = ['<', '!'] ∨ t = ['<', '!', '-'] := by
      rcases t with _ | ⟨a, _ | ⟨b, _ | ⟨c, _ | ⟨d, t⟩⟩⟩⟩ <;> simp_all
    rcases ht with rfl | rfl
    · exact Or.inl (List.suffix_append before _)
    · exact Or.inr (List.suffix_append before _)
  · rw [hx] at hmem
    rw [← List.mem_singleton.mp hmem] at hstruct
    exact absurd hstruct (by decide)
  · have hlt : t.length < runLength s := by
      have hlen := congrArg List.length (hf.symm.trans hrun)
      rw [List.length_append, List.length_cons, List.length_take] at hlen
      omega
    refine absurd ⟨after, ?_⟩ (not_prefix_of_lt_runLength hlt)
    rw [h.split, hf, List.append_assoc, List.drop_left, hk]

theorem guards_comment : Guards Marker.commentClose HidesCommentClose OpenersSettled where
  marker := by decide
  shown := by
    intro before k hinv hhides
    rcases hhides with hsuffix | hsuffix
    · exact hinv ['<', '!'] ['-', '-'] rfl (by decide) (by decide) hsuffix ⟨'>' :: k, rfl⟩
    · exact hinv ['<', '!', '-'] ['-'] rfl (by decide) (by decide) hsuffix ⟨'-' :: '>' :: k, rfl⟩
  pass := fun hinv h _ => hinv.pass h
  inside := fun _ h => h.hidesCommentClose

/-! ### Comments of a source -/

/-- Taking the fragments of a text up to its closing mark. -/
theorem Guards.takeUntil {mark rest : List Char} {hides : List Char → Prop}
    {inv : List Char → List Char → Prop} (h : Guards mark hides inv) (hinv : inv [] rest)
    {c : Cursor} (hc : c.unread = tokenize rest) :
    ((c.takeUntil [mark]).2.eof = true ∧ ∀ body after, rest = body ++ mark ++ after → hides body) ∨
      (c.takeUntil [mark]).2.eof = false ∧ ∃ after,
        FirstMark mark hides rest (c.takeUntil [mark]).1 after ∧
          (c.takeUntil [mark]).2.advance.unread = tokenize after := by
  have hscan := h.scan hinv []
  rcases Cursor.takeUntil_eq_scan [mark] c with ⟨htext, hunread, _⟩
  rw [hc] at htext hunread
  generalize Inlay.scan (fun _ f => [mark].contains f.text) [] (tokenize rest) = r at hscan htext hunread
  rcases r with ⟨taken, left⟩
  cases left with
  | nil => exact Or.inl ⟨by rw [Cursor.eof, hunread]; rfl, hscan⟩
  | cons l left =>
      rcases hscan with ⟨after, hfirst, hleft⟩
      rcases Cursor.of_unread_cons hunread with ⟨heof, _, hadv⟩
      rw [htext]
      exact Or.inr ⟨heof, after, hfirst, hadv.trans hleft⟩

/-- A source that begins with a marker is read from that marker on. -/
theorem Cursor.ofSource_marker {m : List Char} (hm : m ∈ Marker.all) (rest : List Char) :
    (ofSource (m ++ rest)).isAt [m] = true ∧ (ofSource (m ++ rest)).current = m ∧
      (ofSource (m ++ rest)).advance.unread = tokenize rest := by
  rcases tokenize_marker hm rest with ⟨f, hf, htok⟩
  rcases of_unread_cons ((unread_ofTexts (m ++ rest)).trans htok) with ⟨heof, hcur, hadv⟩
  refine ⟨isAt_iff.mpr ⟨heof, ?_⟩, hcur.trans hf, hadv⟩
  exact List.mem_singleton.mpr (hcur.trans hf)

/-- Taking fragments passes one that does not stop it. -/
theorem Cursor.takeUntil_of_current (mark : List Char) {c : Cursor} (heof : c.eof = false)
    (hcur : c.current ≠ mark) :
    c.takeUntil [mark] =
      (c.current ++ (c.advance.takeUntil [mark]).1, (c.advance.takeUntil [mark]).2) := by
  rcases c with ⟨unread, index, loc⟩
  cases unread with
  | nil => cases heof
  | cons f fs =>
      have hne : f.text ≠ mark := hcur
      have hstop : ¬ [mark].contains f.text = true := by simpa using hne
      rw [takeUntil, takeUntilFrom, if_neg hstop]
      rfl

/-- Where the text that is left is known, the location is. -/
theorem Cursor.Placed.loc_eq {s before after : List Char} {c : Cursor} (h : c.Placed s)
    (hunread : c.unread = tokenize after) (hs : s = before ++ after) :
    c.loc = Location.behind before := by
  rcases h.place with ⟨before', hs', hloc⟩
  rw [rest_of_unread hunread, hs] at hs'
  rw [hloc, List.append_cancel_right hs']

/-- A comment behind its opening mark closes at the first closing mark that is
    not hidden, and reading goes on right behind it. If all are hidden, it is
    not terminated, which is told of its beginning. So it closes at the first
    closing mark of all exactly if that is not hidden. -/
structure ClosesFirst {α : Type} (x : Parser α) (opening mark : List Char) (cause : Cause)
    (result : List Char → α) (hides : List Char → Prop) (rest : List Char) : Prop where
  closed : ∀ body after, FirstMark mark hides rest body after →
    ∃ c', x (Cursor.ofSource (opening ++ rest)) = .ok (result body) c' ∧
      c'.unread = tokenize after ∧ c'.loc = Location.behind (opening ++ body ++ mark)
  unclosed : (∀ body after, rest = body ++ mark ++ after → hides body) →
    ∃ c', x (Cursor.ofSource (opening ++ rest)) = .error ⟨cause, {}⟩ c'
  exact : ∀ body after, FirstMark mark (fun _ => False) rest body after →
    ((∃ c', x (Cursor.ofSource (opening ++ rest)) = .ok (result body) c') ↔ ¬ hides body)

/-- It is enough to know the outcome for each of the two cases. -/
theorem closesFirst {α : Type} {x : Parser α} {opening mark rest : List Char} {cause : Cause}
    {result : List Char → α} {hides : List Char → Prop} (hresult : Function.Injective result)
    (h : (∃ body after c', FirstMark mark hides rest body after ∧
        x (Cursor.ofSource (opening ++ rest)) = .ok (result body) c' ∧
        c'.unread = tokenize after ∧ c'.loc = Location.behind (opening ++ body ++ mark)) ∨
      (∀ body after, rest = body ++ mark ++ after → hides body) ∧
        ∃ c', x (Cursor.ofSource (opening ++ rest)) = .error ⟨cause, {}⟩ c') :
    ClosesFirst x opening mark cause result hides rest := by
  rcases h with ⟨body, after, c', hfirst, hread, hbehind⟩ | ⟨hall, c', hread⟩
  · refine ⟨fun body' after' hfirst' => ?_, fun hall => ?_, fun body' after' hfirst' => ?_⟩
    · rcases hfirst.unique hfirst' with ⟨rfl, rfl⟩
      exact ⟨c', hread, hbehind⟩
    · exact absurd (hall body after hfirst.split) hfirst.shown
    · constructor
      · rintro ⟨c'', hread'⟩
        rw [hread, EStateM.Result.ok.injEq] at hread'
        rw [← hresult hread'.1]
        exact hfirst.shown
      · intro hshown
        rcases hfirst.unique (hfirst'.of_shown hshown) with ⟨rfl, rfl⟩
        exact ⟨c', hread⟩
  · refine ⟨fun body' after' hfirst' => ?_, fun _ => ⟨c', hread⟩, fun body' after' hfirst' => ?_⟩
    · exact absurd (hall body' after' hfirst'.split) hfirst'.shown
    · constructor
      · rintro ⟨c'', hread'⟩
        rw [hread] at hread'
        cases hread'
      · intro hshown
        exact absurd (hall body' after' hfirst'.split) hshown

namespace Parser

variable {c c' : Cursor} {f : Failure}

theorem blockComment_eq_ok_iff {t : List Char} :
    Parser.blockComment c = .ok t c' ↔ Rule.blockComment c = .ok t c' := by
  rw [Parser.blockComment, Parser.run, settle_eq_ok_iff]

theorem blockComment_eq_error_iff :
    (∃ c', Parser.blockComment c = .error f c') ↔ Refuses Rule.blockComment c f := by
  simp only [Parser.blockComment, Parser.run, settle_eq_error_iff]
  rfl

theorem comment_eq_ok_iff {x : Child} :
    Parser.comment c = .ok x c' ↔ Rule.comment c = .ok x c' := by
  rw [Parser.comment, Parser.run, settle_eq_ok_iff]

theorem comment_eq_error_iff :
    (∃ c', Parser.comment c = .error f c') ↔ Refuses Rule.comment c f := by
  simp only [Parser.comment, Parser.run, settle_eq_error_iff]
  rfl

end Parser

/-- A comment in code closes at the first `*/` that is not hidden behind an odd
    number of slashes. -/
theorem blockComment_closes (rest : List Char) :
    ClosesFirst Parser.blockComment Marker.blockOpen Marker.blockClose .unterminatedBlock
      (fun body => Marker.blockOpen ++ body ++ Marker.blockClose) HidesBlockClose rest := by
  have hinv : SlashesSettled [] rest :=
    ⟨fun hodd => absurd hodd (by decide), fun hangle => by cases hangle⟩
  have hplaced : (Cursor.ofSource (Marker.blockOpen ++ rest)).Placed (Marker.blockOpen ++ rest) :=
    Cursor.placed_start _
  have hloc : (Cursor.ofSource (Marker.blockOpen ++ rest)).loc = {} := rfl
  rcases Cursor.ofSource_marker (m := Marker.blockOpen) (by decide) rest with ⟨hat, hcur, hadv⟩
  generalize hc : Cursor.ofSource (Marker.blockOpen ++ rest) = c at hat hcur hadv hplaced hloc
  have htake := Cursor.takeUntil_of_current Marker.blockClose (Cursor.eof_of_isAt hat)
    (by rw [hcur]; decide)
  refine closesFirst (fun a b hab => ?_) ?_
  · exact List.append_cancel_left (List.append_cancel_right hab)
  rw [hc]
  rcases guards_block.takeUntil hinv hadv with ⟨heof, hall⟩ | ⟨heof, after, hfirst, hbehind⟩
  · refine Or.inr ⟨hall, Parser.blockComment_eq_error_iff.mpr (Rule.blockComment_refuses_iff.mpr ?_)⟩
    exact Or.inr ⟨hat, by rw [htake]; exact heof, by rw [hloc]⟩
  · have hclose := Cursor.isAt_takeUntil _ _ heof
    have hlast : (c.advance.takeUntil [Marker.blockClose]).2.current = Marker.blockClose :=
      List.mem_singleton.mp (Cursor.isAt_iff.mp hclose).2
    have hread : Rule.blockComment c = .ok _ _ :=
      Rule.blockComment_eq_ok_iff.mpr ⟨hat, by rw [htake]; exact heof, rfl, rfl⟩
    rw [htake, hlast, hcur] at hread
    rcases Rule.blockComment_frame hread with ⟨fs, hpass, _⟩
    refine Or.inl ⟨_, after, _, hfirst, Parser.blockComment_eq_ok_iff.mpr hread, hbehind, ?_⟩
    refine (hplaced.passes hpass).loc_eq hbehind ?_
    rw [hfirst.split]
    simp only [List.append_assoc]

/-- Two slashes in front of a closing mark do not hide it. -/
theorem blockComment_closes_slashes :
    FirstMark Marker.blockClose HidesBlockClose [' ', '/', '/', '*', '/', 'b'] [' ', '/', '/'] ['b'] ∧
      ∃ c', Parser.blockComment
          (Cursor.ofSource (Marker.blockOpen ++ [' ', '/', '/', '*', '/', 'b'])) =
            .ok ['/', '*', ' ', '/', '/', '*', '/'] c' ∧
        c'.unread = tokenize ['b'] ∧ c'.loc = Location.behind ['/', '*', ' ', '/', '/', '*', '/'] := by
  have hfirst : FirstMark Marker.blockClose HidesBlockClose [' ', '/', '/', '*', '/', 'b']
      [' ', '/', '/'] ['b'] := by
    refine ⟨rfl, by decide +kernel, fun body' after' hs _ => ?_⟩
    rcases body' with _ | ⟨a, _ | ⟨b, _ | ⟨c, body'⟩⟩⟩ <;> simp_all [Marker.blockClose]
  exact ⟨hfirst, (blockComment_closes _).closed _ _ hfirst⟩

/-- A comment that is not terminated although its closing mark is there: a slash
    in front of the mark has taken its star. -/
theorem blockComment_passes_close :
    FirstMark Marker.blockClose (fun _ => False) [' ', '/', '*', '/'] [' ', '/'] [] ∧
      ∃ c', Parser.blockComment (Cursor.ofSource (Marker.blockOpen ++ [' ', '/', '*', '/'])) =
        .error ⟨.unterminatedBlock, {}⟩ c' := by
  refine ⟨⟨rfl, not_false, fun body' after' hs _ => ?_⟩, ?_⟩
  · rcases body' with _ | ⟨a, _ | ⟨b, body'⟩⟩ <;> simp_all [Marker.blockClose]
  · refine Parser.blockComment_eq_error_iff.mpr (Rule.blockComment_refuses_iff.mpr (Or.inr ?_))
    exact ⟨by decide +kernel, by decide +kernel, rfl⟩

/-- A comment in markup closes at the first `-->` that is not hidden behind the
    beginning of `<!--`. -/
theorem comment_closes (rest : List Char) :
    ClosesFirst Parser.comment Marker.commentOpen Marker.commentClose .unterminatedComment
      Child.comment HidesCommentClose rest := by
  have hinv : OpenersSettled [] rest := by
    intro t u _ ht _ hsuffix
    exact absurd (List.suffix_nil.mp hsuffix) ht
  have hplaced :
      (Cursor.ofSource (Marker.commentOpen ++ rest)).Placed (Marker.commentOpen ++ rest) :=
    Cursor.placed_start _
  have hloc : (Cursor.ofSource (Marker.commentOpen ++ rest)).loc = {} := rfl
  rcases Cursor.ofSource_marker (m := Marker.commentOpen) (by decide) rest with ⟨hat, _, hadv⟩
  generalize hc : Cursor.ofSource (Marker.commentOpen ++ rest) = c at hat hadv hplaced hloc
  refine closesFirst (fun a b hab => Child.comment.inj hab) ?_
  rw [hc]
  rcases guards_comment.takeUntil hinv hadv with ⟨heof, hall⟩ | ⟨heof, after, hfirst, hbehind⟩
  · refine Or.inr ⟨hall, Parser.comment_eq_error_iff.mpr (Rule.comment_refuses_iff.mpr ?_)⟩
    exact Or.inr ⟨hat, heof, by rw [hloc]⟩
  · have hread : Rule.comment c = .ok _ _ := Rule.comment_eq_ok_iff.mpr ⟨hat, heof, rfl, rfl⟩
    rcases Rule.comment_frame hread with ⟨fs, hpass, _⟩
    refine Or.inl ⟨_, after, _, hfirst, Parser.comment_eq_ok_iff.mpr hread, hbehind, ?_⟩
    refine (hplaced.passes hpass).loc_eq hbehind ?_
    rw [hfirst.split]
    simp only [List.append_assoc]

/-- Dashes in front of a closing mark do not hide it, nor does a `<`. -/
theorem comment_closes_dashes :
    FirstMark Marker.commentClose HidesCommentClose ['<', '-', '-', '-', '>', 'b'] ['<', '-'] ['b'] ∧
      ∃ c', Parser.comment (Cursor.ofSource (Marker.commentOpen ++ ['<', '-', '-', '-', '>', 'b'])) =
            .ok (.comment ['<', '-']) c' ∧
        c'.unread = tokenize ['b'] ∧
        c'.loc = Location.behind ['<', '!', '-', '-', '<', '-', '-', '-', '>'] := by
  have hfirst : FirstMark Marker.commentClose HidesCommentClose ['<', '-', '-', '-', '>', 'b']
      ['<', '-'] ['b'] := by
    refine ⟨rfl, by decide +kernel, fun body' after' hs _ => ?_⟩
    rcases body' with _ | ⟨a, _ | ⟨b, body'⟩⟩ <;> simp_all [Marker.commentClose]
  exact ⟨hfirst, (comment_closes _).closed _ _ hfirst⟩

/-- A comment that is not terminated although its closing mark is there: `<!` in
    front of the mark has taken its dashes. -/
theorem comment_passes_close :
    FirstMark Marker.commentClose (fun _ => False) ['<', '!', '-', '-', '>'] ['<', '!'] [] ∧
      ∃ c', Parser.comment (Cursor.ofSource (Marker.commentOpen ++ ['<', '!', '-', '-', '>'])) =
        .error ⟨.unterminatedComment, {}⟩ c' := by
  refine ⟨⟨rfl, not_false, fun body' after' hs _ => ?_⟩, ?_⟩
  · rcases body' with _ | ⟨a, _ | ⟨b, body'⟩⟩ <;> simp_all [Marker.commentClose]
  · refine Parser.comment_eq_error_iff.mpr (Rule.comment_refuses_iff.mpr (Or.inr ?_))
    exact ⟨by decide +kernel, by decide +kernel, rfl⟩

end Inlay
