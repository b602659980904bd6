import Inlay.Proofs.Collecting
import Inlay.Proofs.Patterns

/-!
# Where Fragments End

How the fragments of a text depend on what stands around it. A fragment looks
ahead by three characters at most, and only markers and the mark `-->` that
ends a run make it look ahead at all. So there are characters in front of
which every text is cut as if nothing followed (`Hard`), and characters behind
which it is (`closing`).

A fragment is a marker, a structural character, or a run. A run may be cut
anywhere: what is left of it is a run again, since no mark begins inside one.
Peeling a name or blank space off a fragment therefore leaves the fragments of
what is left. The one exception among all stretches that are peeled off is a
star in front of a slash, since the marker that the two form is cut open and
its slash stands alone from then on (`cut`).

## Main definitions

* `Hard`, `closing`: Characters that part the fragments around them.
* `Parts`: A seam at which no fragment goes across.
* `Cursor.Lexed`: The unread fragments are those of the unread text.

## Theorems

* `tokenize_cases`: What the first fragment of a text can be.
* `tokenize_append`: The fragments of two texts that part.
* `tokenize_append_of_hard`, `tokenize_append_closing`: Where texts part.
* `tokenize_drop_run`: Cutting a run.
* `Cursor.unread_split`, `Cursor.unread_skipBlank`: Peeling leaves the
  fragments of what is left.
-/

namespace Inlay

namespace Marker

variable {s k m : List Char}

/-- The marker that a text begins with is one of the markers. -/
theorem leading?_mem (h : leading? s = some m) : m ∈ all ∧ m <+: s := by
  unfold leading? at h
  have hpre := List.find?_some h
  exact ⟨List.mem_of_find?_eq_some h, List.isPrefixOf_iff_prefix.mp hpre⟩

theorem ne_nil_of_mem (hm : m ∈ all) : m ≠ [] := by
  have hall : ∀ m ∈ all, m ≠ [] := by decide
  exact hall m hm

/-- A text that begins with a marker begins with no other one. -/
theorem leading?_append (hm : m ∈ all) (k : List Char) : leading? (m ++ k) = some m := by
  have hunique : ∀ m ∈ all, ∀ m' ∈ all, m <+: m' → m = m' := by decide
  have hpre : m <+: m ++ k := List.prefix_append m k
  cases hlead : leading? (m ++ k) with
  | none =>
      have hnone := List.find?_eq_none.mp hlead m hm
      exact absurd (List.isPrefixOf_iff_prefix.mpr hpre) hnone
  | some m' =>
      rcases leading?_mem hlead with ⟨hm', hpre'⟩
      rcases Nat.le_total m.length m'.length with hle | hle
      · rw [hunique m hm m' hm' (List.prefix_of_prefix_length_le hpre hpre' hle)]
      · rw [hunique m' hm' m hm (List.prefix_of_prefix_length_le hpre' hpre hle)]

/-- No marker begins with a character that none of them begins with. -/
theorem leading?_eq_none {x : Char} (hx : ∀ m ∈ all, m.head? ≠ some x) (k : List Char) :
    leading? (x :: k) = none := by
  refine List.find?_eq_none.mpr ?_
  intro m hm hpre
  rcases List.isPrefixOf_iff_prefix.mp hpre with ⟨t, ht⟩
  cases m with
  | nil => exact ne_nil_of_mem hm rfl
  | cons y ys => exact hx _ hm (by rw [List.head?_cons, (List.cons.inj ht).1])

end Marker

/-! ### The first fragment -/

/-- A fragment is determined by its text. -/
theorem Fragment.eq_of_text {f : Fragment} {x : Char} {xs : List Char} (h : f.text = x :: xs) :
    f = ⟨x, xs⟩ := by
  rcases f with ⟨y, ys⟩
  cases h
  rfl

theorem tokenize_cons (x : Char) (rest : List Char) :
    tokenize (x :: rest) =
      ⟨x, rest.take (tailLength x rest)⟩ :: tokenize (rest.drop (tailLength x rest)) := by
  rw [tokenize]

theorem tokenize_nil : tokenize [] = [] := by
  rw [tokenize]

theorem runLength_le (s : List Char) : runLength s ≤ s.length := by
  induction s with
  | nil => exact Nat.le_refl 0
  | cons x s ih =>
      unfold runLength
      by_cases hx : (isStructural x || Marker.commentClose.isPrefixOf (x :: s)) = true
      · rw [if_pos hx]
        omega
      · rw [if_neg hx, List.length_cons]
        omega

theorem runLength_cons {x : Char} {s : List Char} (h : 0 < runLength (x :: s)) :
    runLength (x :: s) = runLength s + 1 := by
  rw [runLength] at h ⊢
  by_cases hx : (isStructural x || Marker.commentClose.isPrefixOf (x :: s)) = true
  · rw [if_pos hx] at h
    cases h
  · rw [if_neg hx]

/-- The characters of a run are not structural. -/
theorem isStructural_of_mem_run {s : List Char} :
    ∀ x ∈ s.take (runLength s), isStructural x = false := by
  induction s with
  | nil => exact fun x hx => absurd hx List.not_mem_nil
  | cons y s ih =>
      intro x hx
      unfold runLength at hx
      by_cases hy : (isStructural y || Marker.commentClose.isPrefixOf (y :: s)) = true
      · rw [if_pos hy] at hx
        exact absurd hx List.not_mem_nil
      · rw [if_neg hy, List.take_succ_cons] at hx
        rcases List.mem_cons.mp hx with rfl | hx
        · exact (Bool.or_eq_false_iff.mp (Bool.eq_false_iff.mpr hy)).1
        · exact ih x hx

/-- Behind some characters of a run stands the rest of the run. -/
theorem runLength_drop {s : List Char} {n : Nat} (h : n ≤ runLength s) :
    runLength (s.drop n) = runLength s - n := by
  induction s generalizing n with
  | nil =>
      rw [List.drop_nil, runLength, Nat.zero_sub]
  | cons x s ih =>
      cases n with
      | zero => rw [List.drop_zero, Nat.sub_zero]
      | succ n =>
          have hrun := runLength_cons (Nat.lt_of_lt_of_le (Nat.succ_pos n) h)
          rw [List.drop_succ_cons, ih (by omega), hrun]
          omega

/-- Where a run begins, no marker does. -/
theorem leading?_of_run {s : List Char} (h : 0 < runLength s) : Marker.leading? s = none := by
  cases s with
  | nil => cases h
  | cons x s =>
      unfold runLength at h
      by_cases hx : (isStructural x || Marker.commentClose.isPrefixOf (x :: s)) = true
      · rw [if_pos hx] at h
        cases h
      rcases Bool.or_eq_false_iff.mp (Bool.eq_false_iff.mpr hx) with ⟨hstruct, hclose⟩
      cases hlead : Marker.leading? (x :: s) with
      | none => rfl
      | some m =>
          -- All markers but the one that ends a run begin structurally.
          have hmarks : ∀ m ∈ Marker.all, m = Marker.commentClose ∨ m.head?.any isStructural := by
            decide
          rcases Marker.leading?_mem hlead with ⟨hm, hpre⟩
          rcases hmarks m hm with rfl | hhead
          · rw [List.isPrefixOf_iff_prefix.mpr hpre] at hclose
            cases hclose
          · cases m with
            | nil => cases hhead
            | cons y ys =>
                rcases hpre with ⟨t, ht⟩
                rw [(List.cons.inj ht).1, List.head?_cons] at hhead
                rw [Option.any_some, hstruct] at hhead
                cases hhead

/-- A marker is a fragment of its own. -/
theorem tokenize_marker {m : List Char} (hm : m ∈ Marker.all) (k : List Char) :
    ∃ f : Fragment, f.text = m ∧ tokenize (m ++ k) = f :: tokenize k := by
  cases m with
  | nil => exact absurd rfl (Marker.ne_nil_of_mem hm)
  | cons x xs =>
      have htail : tailLength x (xs ++ k) = xs.length := by
        have hlead := Marker.leading?_append hm k
        rw [List.cons_append] at hlead
        rw [tailLength, hlead]
        rfl
      refine ⟨⟨x, xs⟩, rfl, ?_⟩
      rw [List.cons_append, tokenize_cons, htail, List.take_left, List.drop_left]

/-- A structural character that begins no marker is a fragment of its own. -/
theorem tokenize_structural {x : Char} {k : List Char} (hx : isStructural x = true)
    (hlead : Marker.leading? (x :: k) = none) : tokenize (x :: k) = ⟨x, []⟩ :: tokenize k := by
  have htail : tailLength x k = 0 := by
    rw [tailLength, hlead]
    exact if_pos hx
  rw [tokenize_cons, htail, List.take_zero, List.drop_zero]

/-- A run is a fragment of its own. -/
theorem tokenize_run {s : List Char} (h : 0 < runLength s) :
    ∃ f : Fragment, f.text = s.take (runLength s) ∧
      tokenize s = f :: tokenize (s.drop (runLength s)) := by
  have hlead := leading?_of_run h
  cases s with
  | nil => cases h
  | cons x s =>
      have hstruct : isStructural x = false := by
        refine isStructural_of_mem_run x (s := x :: s) ?_
        rw [List.take_cons h]
        exact List.mem_cons_self
      have hrun := runLength_cons h
      have htail : tailLength x s = runLength s := by
        rw [tailLength, hlead]
        exact if_neg (Bool.eq_false_iff.mp hstruct)
      refine ⟨⟨x, s.take (runLength s)⟩, ?_, ?_⟩
      · rw [hrun, List.take_succ_cons]
        rfl
      · rw [hrun, List.drop_succ_cons, tokenize_cons, htail]

/-- What the first fragment of a text can be: a marker, a structural
    character, or a run. -/
theorem tokenize_cases {s : List Char} (hs : s ≠ []) :
    (∃ m k, m ∈ Marker.all ∧ s = m ++ k ∧
      ∃ f : Fragment, f.text = m ∧ tokenize s = f :: tokenize k) ∨
    (∃ x k, isStructural x = true ∧ s = x :: k ∧ Marker.leading? s = none ∧
      tokenize s = ⟨x, []⟩ :: tokenize k) ∨
    (0 < runLength s ∧ ∃ f : Fragment, f.text = s.take (runLength s) ∧
      tokenize s = f :: tokenize (s.drop (runLength s))) := by
  cases hlead : Marker.leading? s with
  | some m =>
      rcases Marker.leading?_mem hlead with ⟨hm, k, rfl⟩
      exact Or.inl ⟨m, k, hm, rfl, tokenize_marker hm k⟩
  | none =>
      cases s with
      | nil => exact absurd rfl hs
      | cons x k =>
          by_cases hx : isStructural x = true
          · exact Or.inr (Or.inl ⟨x, k, hx, rfl, rfl, tokenize_structural hx hlead⟩)
          · -- Neither a marker nor a structural character begins here, and so
            -- a run does. It is not empty, since no comment closes here.
            refine Or.inr (Or.inr ?_)
            have hclose : Marker.commentClose.isPrefixOf (x :: k) = false := by
              have hnone := List.find?_eq_none.mp hlead Marker.commentClose (by decide)
              exact Bool.eq_false_iff.mpr hnone
            have hpos : 0 < runLength (x :: k) := by
              rw [runLength, Bool.eq_false_iff.mpr hx, hclose]
              exact Nat.succ_pos _
            exact ⟨hpos, tokenize_run hpos⟩

/-- A structural character of which no marker is made is a fragment of its own,
    and no other fragment holds one. -/
theorem tokenize_alone {x : Char} (hx : isStructural x = true) (hmarks : ∀ m ∈ Marker.all, x ∉ m)
    (s : List Char) : ∀ f ∈ tokenize s, f.text = [x] ∨ x ∉ f.text := by
  fun_induction tokenize s with
  | case1 => exact fun f hf => absurd hf List.not_mem_nil
  | case2 y rest ih =>
      intro f hf
      rcases List.mem_cons.mp hf with rfl | hf
      · have hfirst := tokenize_cons y rest
        rcases tokenize_cases (List.cons_ne_nil y rest) with ⟨m, k, hm, _, f, hf, htok⟩ |
          ⟨z, k, _, _, _, htok⟩ | ⟨_, f, hf, htok⟩
        · rw [(List.cons.inj (hfirst.symm.trans htok)).1, hf]
          exact Or.inr (hmarks m hm)
        · -- A structural character stands alone.
          rw [(List.cons.inj (hfirst.symm.trans htok)).1]
          by_cases hz : z = x
          · rw [hz]
            exact Or.inl rfl
          · exact Or.inr (fun hmem => hz (List.mem_singleton.mp hmem).symm)
        · -- A run holds no structural character.
          rw [(List.cons.inj (hfirst.symm.trans htok)).1, hf]
          refine Or.inr (fun hmem => ?_)
          rw [isStructural_of_mem_run _ hmem] at hx
          cases hx
      · exact ih f hf

/-- A line break is a fragment of its own, and no other fragment holds one. -/
theorem tokenize_lines (s : List Char) :
    ∀ f ∈ tokenize s, f.text = ['\n'] ∨ '\n' ∉ f.text :=
  tokenize_alone (by decide) (by decide) s

/-! ### Where texts part -/

/-- Characters that go on with no marker and with no run. -/
def hard : List Char :=
  ['<', '"', '\'', '=', '@', '(', ')', '[', ']', '{', '}', '\n']

/-- Characters that end whatever fragment they belong to. -/
def closing : List Char :=
  ['>', '"', '\'', '=', '@', '(', ')', '[', ']', '}', '\n']

/-- A text in front of which every fragment ends. -/
def Hard (k : List Char) : Prop :=
  ∀ x, k.head? = some x → x ∈ hard

theorem Hard.nil : Hard [] := by
  intro x hx
  cases hx

/-- A seam at which no fragment goes across: what begins in front of it is cut
    as if nothing followed. -/
def Parts (a b : List Char) : Prop :=
  ∀ u, u ≠ [] → u <:+ a →
    Marker.leading? (u ++ b) = Marker.leading? u ∧ runLength (u ++ b) = runLength u

theorem tailLength_le (x : Char) (s : List Char) : tailLength x s ≤ s.length := by
  unfold tailLength
  cases hlead : Marker.leading? (x :: s) with
  | some m =>
      have hlen := (Marker.leading?_mem hlead).2.length_le
      rw [List.length_cons] at hlen
      simp only
      omega
  | none =>
      simp only
      by_cases hx : isStructural x = true
      · rw [if_pos hx]
        exact Nat.zero_le _
      · rw [if_neg hx]
        exact runLength_le s

/-- The fragments of two texts that part are those of the one and those of the
    other. -/
theorem tokenize_append {a b : List Char} (h : Parts a b) :
    tokenize (a ++ b) = tokenize a ++ tokenize b := by
  fun_induction tokenize a with
  | case1 => rfl
  | case2 x rest ih =>
      have htail : tailLength x (rest ++ b) = tailLength x rest := by
        rcases h (x :: rest) (List.cons_ne_nil _ _) (List.suffix_refl _) with ⟨hlead, hrun⟩
        rw [List.cons_append] at hlead hrun
        unfold tailLength
        rw [hlead]
        cases hl : Marker.leading? (x :: rest) with
        | some m => rfl
        | none =>
            by_cases hx : isStructural x = true
            · simp only [if_pos hx]
            · -- Both runs begin at `x`, so they go on equally far behind it.
              rcases tokenize_cases (List.cons_ne_nil x rest) with ⟨m, k, hm, hs, _⟩ |
                ⟨y, k, hy, hs, _⟩ | ⟨hpos, _⟩
              · rw [hs, Marker.leading?_append hm] at hl
                cases hl
              · rw [(List.cons.inj hs).1] at hx
                exact absurd hy hx
              · have hpos' : 0 < runLength (x :: (rest ++ b)) := by
                  rw [hrun]
                  exact hpos
                rw [runLength_cons hpos, runLength_cons hpos'] at hrun
                simp only [if_neg hx]
                omega
      have hle := tailLength_le x rest
      rw [List.cons_append, tokenize_cons, htail, List.take_append_of_le_length hle,
        List.drop_append_of_le_length hle, List.cons_append, ih]
      intro u hu hsuffix
      exact h u hu (hsuffix.trans ((List.drop_suffix _ _).trans (List.suffix_cons _ _)))

/-- A mark is not seen across the beginning of what cannot go on with it. -/
theorem isPrefixOf_append {m u k : List Char} (hu : u ≠ [])
    (hk : ∀ y ∈ m.tail, k.head? ≠ some y) : m.isPrefixOf (u ++ k) = m.isPrefixOf u := by
  induction u generalizing m with
  | nil => exact absurd rfl hu
  | cons x u ih =>
      cases m with
      | nil => rfl
      | cons y m =>
          rw [List.tail_cons] at hk
          rw [List.cons_append, List.isPrefixOf_cons_cons, List.isPrefixOf_cons_cons]
          cases u with
          | nil =>
              cases m with
              | nil => rfl
              | cons z m =>
                  cases k with
                  | nil => rfl
                  | cons w k =>
                      -- The text ends inside the mark, and what follows does
                      -- not go on with it.
                      have hne : (z == w) = false := by
                        rw [beq_eq_false_iff_ne]
                        intro hzw
                        exact hk z List.mem_cons_self (by rw [hzw, List.head?_cons])
                      rw [List.nil_append, List.isPrefixOf_cons_cons, hne, Bool.false_and]
                      rfl
          | cons w u =>
              rw [ih (List.cons_ne_nil w u) (fun z hz => hk z (List.mem_of_mem_tail hz))]

/-- A mark is not seen across a character that can only end it. -/
theorem isPrefixOf_append_cons {m : List Char} {x : Char} (hx : x ∉ m.dropLast) (u k : List Char) :
    m.isPrefixOf (u ++ x :: k) = m.isPrefixOf (u ++ [x]) := by
  induction u generalizing m with
  | nil =>
      cases m with
      | nil => rfl
      | cons y m =>
          cases m with
          | nil => rfl
          | cons z m =>
              -- The mark has more to come, so `x` cannot be part of it.
              have hne : (y == x) = false := by
                rw [beq_eq_false_iff_ne]
                intro hyx
                exact hx (by rw [hyx, List.dropLast_cons_cons]; exact List.mem_cons_self)
              rw [List.nil_append, List.isPrefixOf_cons_cons, List.nil_append, List.isPrefixOf_cons_cons,
                hne, Bool.false_and, Bool.false_and]
  | cons w u ih =>
      cases m with
      | nil => rfl
      | cons y m =>
          rw [List.cons_append, List.isPrefixOf_cons_cons, List.cons_append, List.isPrefixOf_cons_cons]
          cases m with
          | nil => rfl
          | cons z m =>
              rw [List.dropLast_cons_cons] at hx
              rw [ih (fun hmem => hx (List.mem_cons_of_mem _ hmem))]

/-- Marks that are all seen alike lead alike. -/
theorem leading?_congr {s t : List Char}
    (h : ∀ m ∈ Marker.all, m.isPrefixOf s = m.isPrefixOf t) :
    Marker.leading? s = Marker.leading? t := by
  unfold Marker.leading?
  generalize Marker.all = marks at h
  induction marks with
  | nil => rfl
  | cons m marks ih =>
      rw [List.find?_cons, List.find?_cons, h m List.mem_cons_self,
        ih (fun m hm => h m (List.mem_cons_of_mem _ hm))]

theorem Hard.ne_tail {k m : List Char} (hk : Hard k) (hm : m ∈ Marker.all) :
    ∀ y ∈ m.tail, k.head? ≠ some y := by
  have hmarks : ∀ m ∈ Marker.all, (m.tail.all fun y => y ∉ hard) = true := by decide
  intro y hy hhead
  exact List.all_iff_forall_prop.mp (hmarks m hm) y hy (hk y hhead)

theorem Hard.runLength_append {k : List Char} (hk : Hard k) (u : List Char) :
    runLength (u ++ k) = runLength u := by
  induction u with
  | nil =>
      cases k with
      | nil => rfl
      | cons x k =>
          have hstruct : ∀ x ∈ hard, isStructural x = true :=
            List.all_iff_forall_prop.mp (by decide)
          change runLength (x :: k) = 0
          rw [runLength, hstruct x (hk x rfl), Bool.true_or, if_pos rfl]
  | cons x u ih =>
      have hclose := isPrefixOf_append (List.cons_ne_nil x u)
        (hk.ne_tail (m := Marker.commentClose) (by decide))
      rw [List.cons_append] at hclose ⊢
      rw [runLength, runLength, hclose, ih]

theorem Hard.parts {k : List Char} (hk : Hard k) (a : List Char) : Parts a k := by
  intro u hu _
  exact ⟨leading?_congr fun m hm => isPrefixOf_append hu (hk.ne_tail hm), hk.runLength_append u⟩

/-- Every text parts in front of a hard character. -/
theorem tokenize_append_of_hard {k : List Char} (hk : Hard k) (a : List Char) :
    tokenize (a ++ k) = tokenize a ++ tokenize k :=
  tokenize_append (hk.parts a)

theorem runLength_append_closing {x : Char} (hx : x ∈ closing) (u k : List Char) :
    runLength (u ++ x :: k) = runLength (u ++ [x]) := by
  have hmark : ∀ x ∈ closing, x ∉ Marker.commentClose.dropLast :=
    List.all_iff_forall_prop.mp (by decide)
  have hstruct : ∀ x ∈ closing, isStructural x = true :=
    List.all_iff_forall_prop.mp (by decide)
  induction u with
  | nil =>
      rw [List.nil_append, List.nil_append, runLength, runLength, hstruct x hx, Bool.true_or,
        Bool.true_or, if_pos rfl, if_pos rfl]
  | cons y u ih =>
      have hclose := isPrefixOf_append_cons (hmark x hx) (y :: u) k
      rw [List.cons_append, List.cons_append] at hclose ⊢
      rw [runLength, runLength, hclose, ih]

/-- Every text parts behind a closing character. -/
theorem tokenize_append_closing {x : Char} (hx : x ∈ closing) (a k : List Char) :
    tokenize (a ++ x :: k) = tokenize (a ++ [x]) ++ tokenize k := by
  have hmarks : ∀ m ∈ Marker.all, (closing.all fun x => x ∉ m.dropLast) = true := by decide
  have hparts : Parts (a ++ [x]) k := by
    intro u hu hsuffix
    -- A suffix that is not empty ends with the closing character.
    rcases List.suffix_concat_iff.mp hsuffix with rfl | ⟨v, rfl, _⟩
    · exact absurd rfl hu
    · rw [List.append_assoc, List.singleton_append]
      exact ⟨leading?_congr fun m hm => 
          isPrefixOf_append_cons (List.all_iff_forall_prop.mp (hmarks m hm) x hx) v k,
        runLength_append_closing hx v k⟩
  have happend := tokenize_append hparts
  rwa [List.append_assoc, List.singleton_append] at happend

/-! ### Cutting runs -/

/-- The text that goes on with no run is the text behind its last character. -/
theorem runLength_append_of_plain {u k : List Char} (hu : ∀ x ∈ u, isStructural x = false)
    (hdash : k.head? ≠ some '-') (hclose : k.head? ≠ some '>') :
    runLength (u ++ k) = u.length + runLength k := by
  induction u with
  | nil => rw [List.nil_append, List.length_nil, Nat.zero_add]
  | cons x u ih =>
      -- A comment that closes here would do so inside `u`, where the last
      -- character of its mark does not occur.
      have hnone : Marker.commentClose.isPrefixOf (x :: (u ++ k)) = false := by
        have hk : ∀ y ∈ Marker.commentClose.tail, k.head? ≠ some y := by
          intro y hy
          rcases List.mem_cons.mp hy with rfl | hy
          · exact hdash
          · rw [List.mem_singleton.mp hy]
            exact hclose
        rw [← List.cons_append, isPrefixOf_append (List.cons_ne_nil x u) hk]
        cases hpre : Marker.commentClose.isPrefixOf (x :: u) with
        | false => rfl
        | true =>
            have hmem : '>' ∈ x :: u := (List.isPrefixOf_iff_prefix.mp hpre).subset (by decide)
            exact absurd (hu _ hmem) (by decide)
      rw [List.cons_append, runLength, hu x List.mem_cons_self, hnone, Bool.or_false,
        if_neg Bool.false_ne_true, ih (fun y hy => hu y (List.mem_cons_of_mem _ hy)),
        List.length_cons]
      omega

/-- A text as fragments: one, or none if it is empty. -/
def Fragment.listOf (t : List Char) : List Fragment :=
  (Fragment.ofText? t).toList

theorem Fragment.listOf_text (f : Fragment) : listOf f.text = [f] :=
  rfl

/-- A run that is cut leaves a run. -/
theorem tokenize_drop_run {s : List Char} {n : Nat} (hn : n ≤ runLength s) :
    tokenize (s.drop n) =
      Fragment.listOf ((s.take (runLength s)).drop n) ++ tokenize (s.drop (runLength s)) := by
  have hrun := runLength_drop hn
  have htake : (s.take (runLength s)).drop n = (s.drop n).take (runLength (s.drop n)) := by
    rw [List.drop_take, hrun]
  have hdrop : s.drop (runLength s) = (s.drop n).drop (runLength (s.drop n)) := by
    rw [List.drop_drop, hrun, Nat.add_sub_cancel' hn]
  rw [htake, hdrop]
  by_cases hpos : 0 < runLength (s.drop n)
  · rcases tokenize_run hpos with ⟨f, hf, htok⟩
    rw [← hf, Fragment.listOf_text]
    exact htok
  · rw [Nat.eq_zero_of_not_pos hpos]
    rfl

namespace Cursor

variable {c : Cursor} {s : List Char}

theorem rest_of_unread (h : c.unread = tokenize s) : c.rest = s := by
  rw [rest, h, tokenize_text]

/-- A source is read from its fragments. -/
theorem unread_ofTexts (s : List Char) :
    (Cursor.ofTexts ((tokenize s).map Fragment.text)).unread = tokenize s := by
  unfold Cursor.ofTexts
  induction tokenize s with
  | nil => rfl
  | cons f fs ih => exact congrArg (f :: ·) ih

/-- The unread fragments are those of the unread text. -/
def Lexed (c : Cursor) : Prop :=
  c.unread = tokenize c.rest

theorem lexed_of_unread (h : c.unread = tokenize s) : c.Lexed := by
  rw [Lexed, rest_of_unread h]
  exact h

/-- Behind the first fragment stand the fragments of what is left. -/
theorem tokenize_tail {f : Fragment} {fs : List Fragment} (h : tokenize s = f :: fs) :
    fs = tokenize (fs.flatMap Fragment.text) := by
  cases s with
  | nil =>
      rw [tokenize_nil] at h
      cases h
  | cons x rest =>
      rw [tokenize_cons] at h
      rw [← (List.cons.inj h).2, tokenize_text]

/-- Behind some fragments stand the fragments of what is left. -/
theorem tokenize_suffix {fs us : List Fragment} (h : tokenize s = fs ++ us) :
    us = tokenize (us.flatMap Fragment.text) := by
  induction fs generalizing s with
  | nil =>
      rw [List.nil_append] at h
      rw [← h, tokenize_text]
  | cons f fs ih =>
      have htail := tokenize_tail h
      exact ih htail.symm

theorem Lexed.advance (h : c.Lexed) : c.advance.Lexed := by
  rcases c with ⟨unread, index, loc⟩
  cases unread with
  | nil => exact h
  | cons f fs => exact tokenize_tail h.symm

/-- Peeling leaves what is left of the fragment in front of the others. -/
theorem unread_split_cons {f : Fragment} {fs : List Fragment} (p : Pattern)
    (h : c.unread = f :: fs) :
    (c.split p).2.unread = Fragment.listOf (f.text.drop (c.split p).1.length) ++ fs := by
  rcases c with ⟨unread, index, loc⟩
  simp only at h
  subst h
  rw [split_fst]
  simp only [Cursor.split, current]
  generalize f.text.drop ((f.text.take ((p f.text).getD 0)).length) = left
  cases left with
  | nil => rfl
  | cons x xs => rfl

/-- Peeling characters of a run leaves the fragments of what is left. -/
theorem unread_split {p : Pattern} (h : c.unread = tokenize s)
    (hlen : (c.split p).1.length ≤ runLength s) :
    (c.split p).2.unread = tokenize (s.drop (c.split p).1.length) := by
  by_cases hpos : 0 < runLength s
  · rcases tokenize_run hpos with ⟨f, hf, htok⟩
    rw [unread_split_cons p (h.trans htok), hf, tokenize_drop_run hlen]
  · have hnil : (c.split p).1 = [] := List.length_eq_zero_iff.mp (by omega)
    rw [hnil, List.length_nil, List.drop_zero]
    cases hunread : c.unread with
    | nil => rw [split, hunread, ← h, hunread]
    | cons f fs =>
        rw [unread_split_cons p hunread, hnil, List.length_nil, List.drop_zero,
          Fragment.listOf_text, ← h, hunread]
        rfl

/-- Peeling a name off the run that it is in leaves the fragments of what is
    left. -/
theorem unread_name_of_le {name k : List Char} (h : c.unread = tokenize (name ++ k))
    (hname : Pattern.IsName name) (hk : Pattern.EndsName k)
    (hlen : name.length ≤ runLength (name ++ k)) :
    c.name = name ∧ (c.split Pattern.identifier).2.unread = tokenize k := by
  have hpos : 0 < name.length := by
    rcases hname.head with ⟨x, xs, rfl, _⟩
    exact Nat.succ_pos _
  have hcur : c.current = name ++ k.take (runLength (name ++ k) - name.length) := by
    rcases tokenize_run (Nat.lt_of_lt_of_le hpos hlen) with ⟨f, hf, htok⟩
    rw [current, h, htok]
    simp only
    rw [hf, List.take_append, List.take_of_length_le hlen]
  have hsplit : c.name = name := by
    rw [name_eq_take, hcur, Pattern.identifier_append hname (hk.take _), Option.getD_some,
      List.take_left]
  have hunread := unread_split (p := Pattern.identifier) h (by rw [← Cursor.name, hsplit]; exact hlen)
  rw [← Cursor.name, hsplit, List.drop_left] at hunread
  exact ⟨hsplit, hunread⟩

/-- A name in front of something else than a mark that ends runs is in one
    run. -/
theorem unread_name {name k : List Char} (h : c.unread = tokenize (name ++ k))
    (hname : Pattern.IsName name) (hk : Pattern.EndsName k) (hclose : k.head? ≠ some '>') :
    c.name = name ∧ (c.split Pattern.identifier).2.unread = tokenize k := by
  have hplain : ∀ x ∈ name, isStructural x = false := by
    intro x hx
    have hstruct : ∀ x ∈ structural, Pattern.isNameChar x = false ∧ x ≠ '.' :=
      List.all_iff_forall_prop.mp (by decide)
    cases hs : isStructural x with
    | false => rfl
    | true =>
        rcases hstruct x (List.contains_iff_mem.mp hs) with ⟨hchar, hdot⟩
        rcases hname.mem x hx with hx | hx
        · rw [hchar] at hx
          cases hx
        · exact absurd hx hdot
  have hdash : k.head? ≠ some '-' := by
    intro hhead
    exact absurd (hk '-' hhead).1 (by decide)
  refine unread_name_of_le h hname hk ?_
  rw [runLength_append_of_plain hplain hdash hclose]
  exact Nat.le_add_right _ _

/-- A name is peeled off a run. -/
theorem length_name_le (h : c.unread = tokenize s) : c.name.length ≤ runLength s := by
  by_cases hne : c.name = []
  · rw [hne]
    exact Nat.zero_le _
  rcases (isName_name hne).head with ⟨x, xs, hname, hx⟩
  -- The fragment begins with a letter, and only runs do.
  have hhead : c.current.head? = some x := by
    have hpre := congrArg List.head? c.name_eq_take
    rw [hname, List.head?_cons, List.head?_take] at hpre
    by_cases hzero : (Pattern.identifier c.current).getD 0 = 0
    · rw [if_pos hzero] at hpre
      cases hpre
    · rw [if_neg hzero] at hpre
      exact hpre.symm
  have hstruct : ∀ y ∈ structural, Pattern.isNameStart y = false :=
    List.all_iff_forall_prop.mp (by decide)
  cases hs : s with
  | nil =>
      rw [hs, tokenize_nil] at h
      rw [current, h] at hhead
      cases hhead
  | cons y ys =>
      rw [← hs]
      rcases tokenize_cases (s := s) (by rw [hs]; exact List.cons_ne_nil y ys) with
        ⟨m, k, hm, _, f, hf, htok⟩ | ⟨z, k, hz, _, _, htok⟩ | ⟨_, f, hf, htok⟩
      · -- No marker begins with a letter.
        have hmarks : ∀ m ∈ Marker.all, ∀ x, m.head? = some x → Pattern.isNameStart x = false := by
          intro m hm
          simp only [Marker.all, List.mem_cons, List.not_mem_nil, or_false] at hm
          rcases hm with rfl | rfl | rfl | rfl | rfl | rfl | rfl | rfl <;> intro x hx <;>
            cases hx <;> decide
        rw [current, h, htok] at hhead
        simp only at hhead
        rw [hf] at hhead
        rw [hmarks m hm x hhead] at hx
        cases hx
      · rw [current, h, htok] at hhead
        cases hhead
        rw [hstruct z (List.contains_iff_mem.mp hz)] at hx
        cases hx
      · have hlen : c.name.length ≤ c.current.length := by
          rw [name_eq_take, List.length_take]
          exact Nat.min_le_right _ _
        rw [current, h, htok] at hlen
        simp only at hlen
        rw [hf, List.length_take] at hlen
        omega

theorem Lexed.name (h : c.Lexed) : (c.split Pattern.identifier).2.Lexed :=
  lexed_of_unread (unread_split h (length_name_le h))

/-- A fragment that does not begin with blank space is not passed. -/
theorem skipBlankFrom_of_head {f : Fragment} (hf : Text.isBlank f.head = false)
    (fs : List Fragment) (index : Nat) (loc : Location) :
    skipBlankFrom (f :: fs) index loc = { unread := f :: fs, index, loc } := by
  have hbreak : f.text ≠ ['\n'] := by
    intro htext
    rw [(List.cons.inj htext).1] at hf
    exact absurd hf (by decide)
  have hdrop : f.text.dropWhile Text.isBlank = f.head :: f.tail := by
    rw [Fragment.text, List.dropWhile_cons_of_neg (Bool.eq_false_iff.mp hf)]
  have hnone : f.text.takeWhile Text.isBlank = [] := by
    rw [Fragment.text, List.takeWhile_cons_of_neg (Bool.eq_false_iff.mp hf)]
  rw [skipBlankFrom, if_neg hbreak, hdrop]
  simp only [hnone, List.length_nil, Int.natCast_zero, Location.shifted_zero]

theorem unread_skipBlankFrom (s : List Char) (index : Nat) (loc : Location) :
    (skipBlankFrom (tokenize s) index loc).unread = tokenize (s.dropWhile Text.isBlank) := by
  induction hn : s.length using Nat.strongRecOn generalizing s index loc with
  | _ n ih =>
  by_cases hs : s = []
  · rw [hs, tokenize_nil, List.dropWhile_nil, tokenize_nil]
    rfl
  rcases tokenize_cases hs with ⟨m, k, hm, rfl, f, hf, htok⟩ | ⟨x, k, hx, rfl, _, htok⟩ |
    ⟨hpos, f, hf, htok⟩
  · have hmarks : ∀ m ∈ Marker.all, m.head?.all (fun x => !Text.isBlank x) = true := by decide
    have hblank : Text.isBlank f.head = false := by
      have hhead := hmarks m hm
      rw [← hf, Fragment.text, List.head?_cons, Option.all_some, Bool.not_eq_true'] at hhead
      exact hhead
    have hdrop : (m ++ k).dropWhile Text.isBlank = m ++ k := by
      rw [← hf, Fragment.text, List.cons_append,
        List.dropWhile_cons_of_neg (Bool.eq_false_iff.mp hblank)]
    rw [hdrop, htok, skipBlankFrom_of_head hblank]
  · have hstruct : ∀ x ∈ structural, x = '\n' ∨ Text.isBlank x = false :=
      List.all_iff_forall_prop.mp (by decide)
    rcases hstruct x (List.contains_iff_mem.mp hx) with rfl | hblank
    · rw [htok, skipBlankFrom, List.dropWhile_cons_of_pos (by decide)]
      exact ih k.length (by rw [← hn]; exact Nat.lt_succ_self _) k _ _ rfl
    · rw [List.dropWhile_cons_of_neg (Bool.eq_false_iff.mp hblank), htok,
        skipBlankFrom_of_head hblank]
  · have hbreak : f.text ≠ ['\n'] := by
      intro htext
      have hmem : '\n' ∈ s.take (runLength s) := by
        rw [← hf, htext]
        exact List.mem_singleton_self _
      exact absurd (isStructural_of_mem_run _ hmem) (by decide)
    have hcut : s.dropWhile Text.isBlank =
        if (f.text.dropWhile Text.isBlank).isEmpty then (s.drop (runLength s)).dropWhile Text.isBlank
        else f.text.dropWhile Text.isBlank ++ s.drop (runLength s) := by
      rw [← List.dropWhile_append, hf, List.take_append_drop]
    rw [htok, skipBlankFrom, if_neg hbreak, hcut]
    cases hleft : f.text.dropWhile Text.isBlank with
    | nil =>
        -- The whole run is blank, and so the space goes on behind it.
        refine ih (s.drop (runLength s)).length ?_ _ _ _ rfl
        rw [List.length_drop]
        have hle := runLength_le s
        omega
    | cons x xs =>
        rcases List.dropWhile_suffix Text.isBlank (l := f.text) with ⟨w, hw⟩
        rw [hleft, hf] at hw
        have hlen : w.length ≤ runLength s := by
          have hle := congrArg List.length hw
          rw [List.length_append, List.length_take] at hle
          omega
        have hrun := tokenize_drop_run hlen
        have hs' : s.drop w.length = x :: xs ++ s.drop (runLength s) := by
          conv => lhs; rw [← List.take_append_drop (runLength s) s, ← hw, List.append_assoc]
          rw [List.drop_left]
        rw [← hw, List.drop_left, hs'] at hrun
        exact hrun.symm

/-- Passing blank space leaves the fragments of what is left. -/
theorem unread_skipBlank (h : c.unread = tokenize s) :
    c.skipBlank.unread = tokenize (s.dropWhile Text.isBlank) := by
  rw [skipBlank, h]
  exact unread_skipBlankFrom s c.index c.loc

theorem Lexed.skipBlank (h : c.Lexed) : c.skipBlank.Lexed :=
  lexed_of_unread (unread_skipBlank h)

end Cursor

end Inlay
