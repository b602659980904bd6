import Inlay.Proofs.Lexing
import Mathlib.Data.List.Chain

/-!
# The Lexical Contract

What the fragments of a source are, said without saying how they are found.
They join to the source. Each of them is a marker, or a structural character,
or a run of other characters. A structural character stands alone only where
no marker begins, and a run neither holds the beginning of `-->` nor stands
next to another run.

These conditions leave no choice (`tokenize_unique`). Where a marker begins,
it is the only one that does, and it has to be the fragment: a structural
character may not stand there alone, and a run may not hold it. Everywhere
else the first character decides between a structural character and a run,
and how far the run goes is decided by what may stand in it and behind it.

The conditions speak of offsets into the whole source. Both directions of the
proof go fragment by fragment, so that the offsets have to be moved by the
text in front of them whenever a fragment is cut off (`Lexing.tail`) or put
back (`Lexing.cons`).

## Main definitions

* `IsRun`: Characters none of which is structural.
* `Lexing`: The texts that a source may be cut into.

## Theorems

* `Lexing.tail`, `Lexing.cons`: One fragment less, and one fragment more.
* `Lexing.eq_tokenize`: Texts that keep the contract are the fragments.
* `lexing_tokenize`: The fragments keep the contract.
* `tokenize_unique`: The fragments are the only texts that do.
-/

namespace Inlay

/-- Some characters, none of which is structural. -/
def IsRun (t : List Char) : Prop :=
  t ≠ [] ∧ ∀ x ∈ t, isStructural x = false

/-- The texts `ts` are what the source `s` may be cut into. -/
structure Lexing (s : List Char) (ts : List (List Char)) : Prop where
  /-- The texts join to the source. -/
  joins : ts.flatten = s
  /-- Each is a marker, a structural character, or a run. -/
  kinds : ∀ t ∈ ts, t ∈ Marker.all ∨ (∃ x ∈ structural, t = [x]) ∨ IsRun t
  /-- No marker begins where a structural character stands alone. -/
  alone : ∀ before x after, ts = before ++ [x] :: after → x ∈ structural →
    ∀ m ∈ Marker.all, ¬ m <+: s.drop before.flatten.length
  /-- Nowhere inside a run does `-->` begin. -/
  unbroken : ∀ before t after, ts = before ++ t :: after → IsRun t →
    ∀ i < t.length, ¬ Marker.commentClose <+: s.drop (before.flatten.length + i)
  /-- No two runs are neighbours. -/
  apart : ts.IsChain fun t u => ¬ (IsRun t ∧ IsRun u)

/-! ### Runs -/

theorem not_isRun_of_mem {t : List Char} {x : Char} (hmem : x ∈ t) (hx : isStructural x = true) :
    ¬ IsRun t := by
  intro ht
  simp [ht.2 x hmem] at hx

/-- Every marker holds a structural character. -/
theorem not_isRun_marker {m : List Char} (hm : m ∈ Marker.all) : ¬ IsRun m := by
  have hmarks : ∀ m ∈ Marker.all, m.any isStructural = true := by decide
  rcases List.any_eq_true.mp (hmarks m hm) with ⟨x, hmem, hx⟩
  exact not_isRun_of_mem hmem hx

/-- Where a marker begins, no run does. -/
theorem runLength_of_marker {m : List Char} (hm : m ∈ Marker.all) (k : List Char) :
    runLength (m ++ k) = 0 := by
  by_contra hpos
  have hnone := leading?_of_run (Nat.pos_of_ne_zero hpos)
  simp [Marker.leading?_append hm k] at hnone

theorem runLength_of_structural {x : Char} (hx : isStructural x = true) (k : List Char) :
    runLength (x :: k) = 0 := by
  simp [runLength, hx]

/-- A run goes as far as its characters do, if nothing goes on with it behind
    them and no mark that ends runs begins among them. -/
theorem runLength_append_of_unbroken {t k : List Char} (ht : ∀ x ∈ t, isStructural x = false)
    (hmark : ∀ i < t.length, ¬ Marker.commentClose <+: (t ++ k).drop i) (hk : runLength k = 0) :
    runLength (t ++ k) = t.length := by
  induction t with
  | nil => simpa using hk
  | cons x t ih =>
      have hx : isStructural x = false := ht x List.mem_cons_self
      have hfirst : Marker.commentClose.isPrefixOf (x :: (t ++ k)) = false := by
        have hnot := hmark 0 (Nat.succ_pos _)
        rwa [List.drop_zero, ← List.isPrefixOf_iff_prefix, Bool.not_eq_true] at hnot
      have hrest : runLength (t ++ k) = t.length := by
        refine ih (fun y hy => ht y (List.mem_cons_of_mem x hy)) fun i hi => ?_
        have hnext := hmark (i + 1) (Nat.succ_lt_succ hi)
        rwa [List.cons_append, List.drop_succ_cons] at hnext
      simp [runLength, hx, hfirst, hrest]

/-- The mark that ends runs begins nowhere in a run. -/
theorem not_prefix_of_lt_runLength {s : List Char} {i : Nat} (hi : i < runLength s) :
    ¬ Marker.commentClose <+: s.drop i := by
  intro hpre
  -- What is left of the run at `i` is a run, and no marker begins at one.
  have hpos : 0 < runLength (s.drop i) := by
    rw [runLength_drop (Nat.le_of_lt hi)]
    omega
  have hnone := List.find?_eq_none.mp (leading?_of_run hpos) Marker.commentClose (by decide)
  exact hnone (List.isPrefixOf_iff_prefix.mpr hpre)

/-- A first fragment that is a run says that the text begins with one. -/
theorem runLength_pos_of_isRun {s : List Char} {f : Fragment} {fs : List Fragment}
    (htok : tokenize s = f :: fs) (hf : IsRun f.text) : 0 < runLength s := by
  have hne : s ≠ [] := by
    intro hs
    simp [hs, tokenize_nil] at htok
  rcases tokenize_cases hne with ⟨m, k, hm, rfl, f', hf', htok'⟩ | ⟨x, k, hx, rfl, _, htok'⟩ |
    ⟨hpos, _⟩
  · rw [(List.cons.inj (htok.symm.trans htok')).1, hf'] at hf
    exact absurd hf (not_isRun_marker hm)
  · rw [(List.cons.inj (htok.symm.trans htok')).1] at hf
    exact absurd hf (not_isRun_of_mem List.mem_cons_self hx)
  · exact hpos

namespace Lexing

variable {s t k : List Char} {ts : List (List Char)}

/-! ### One fragment less and one more -/

/-- An offset of what stands behind a text is one of the whole, moved by the
    text. -/
theorem drop_behind (t k : List Char) (before : List (List Char)) (i : Nat) :
    (t ++ k).drop ((t :: before).flatten.length + i) = k.drop (before.flatten.length + i) := by
  rw [List.flatten_cons, List.length_append, Nat.add_assoc, ← List.drop_drop, List.drop_left]

/-- Behind the first text the others are what the rest is cut into. -/
theorem tail (h : Lexing (t ++ k) (t :: ts)) : Lexing k ts := by
  refine ⟨?_, fun u hu => h.kinds u (List.mem_cons_of_mem t hu), ?_, ?_, ?_⟩
  · have hjoins := h.joins
    rw [List.flatten_cons] at hjoins
    exact List.append_cancel_left hjoins
  · intro before x after hts hx
    have halone := h.alone (t :: before) x after (by rw [hts, List.cons_append]) hx
    rwa [← Nat.add_zero (List.length _), drop_behind, Nat.add_zero] at halone
  · intro before u after hts hu i hi
    rw [← drop_behind t]
    exact h.unbroken (t :: before) u after (by rw [hts, List.cons_append]) hu i hi
  · exact (List.isChain_cons.mp h.apart).2

/-- One text more in front, if it may stand there. -/
theorem cons (h : Lexing k ts)
    (hkind : t ∈ Marker.all ∨ (∃ x ∈ structural, t = [x]) ∨ IsRun t)
    (halone : ∀ x ∈ structural, t = [x] → ∀ m ∈ Marker.all, ¬ m <+: t ++ k)
    (hrun : IsRun t → ∀ i < t.length, ¬ Marker.commentClose <+: (t ++ k).drop i)
    (hnext : IsRun t → ∀ u ∈ ts.head?, ¬ IsRun u) : Lexing (t ++ k) (t :: ts) := by
  refine ⟨by rw [List.flatten_cons, h.joins], ?_, ?_, ?_, ?_⟩
  · intro u hu
    rcases List.mem_cons.mp hu with rfl | hu
    · exact hkind
    · exact h.kinds u hu
  -- The text in question is the first one, or it stands among the others, and
  -- then its offset is counted from behind the first one.
  · intro before x after hts hx m hm
    rcases List.cons_eq_append_iff.mp hts with ⟨rfl, hfirst⟩ | ⟨before', rfl, hrest⟩
    · rw [List.cons.injEq] at hfirst
      simpa using halone x hx hfirst.1.symm m hm
    · rw [← Nat.add_zero (List.length _), drop_behind]
      exact h.alone before' x after hrest hx m hm
  · intro before u after hts hu i hi
    rcases List.cons_eq_append_iff.mp hts with ⟨rfl, hfirst⟩ | ⟨before', rfl, hrest⟩
    · rw [List.cons.injEq] at hfirst
      rw [hfirst.1] at hu hi
      simpa using hrun hu i hi
    · rw [drop_behind]
      exact h.unbroken before' u after hrest hu i hi
  · exact List.isChain_cons.mpr ⟨fun u hu hboth => hnext hboth.1 u hu hboth.2, h.apart⟩

/-- A marker may stand in front of anything. -/
theorem cons_marker (h : Lexing k ts) (ht : t ∈ Marker.all) : Lexing (t ++ k) (t :: ts) := by
  have hlong : ∀ m ∈ Marker.all, m.length ≠ 1 := by decide
  have hrun := not_isRun_marker ht
  refine h.cons (Or.inl ht) (fun x _ hx => ?_) (fun ht' => absurd ht' hrun)
    fun ht' => absurd ht' hrun
  exact absurd (congrArg List.length hx) (hlong t ht)

theorem cons_structural (h : Lexing k ts) {x : Char} (hx : isStructural x = true)
    (hlead : Marker.leading? (x :: k) = none) : Lexing (x :: k) ([x] :: ts) := by
  have hrun : ¬ IsRun [x] := not_isRun_of_mem List.mem_cons_self hx
  refine h.cons (t := [x]) (Or.inr (Or.inl ⟨x, List.contains_iff_mem.mp hx, rfl⟩)) ?_
    (fun ht => absurd ht hrun) fun ht => absurd ht hrun
  intro y _ _ m hm hpre
  exact List.find?_eq_none.mp hlead m hm (List.isPrefixOf_iff_prefix.mpr hpre)

theorem cons_run (h : Lexing k ts) (ht : IsRun t)
    (hmark : ∀ i < t.length, ¬ Marker.commentClose <+: (t ++ k).drop i)
    (hnext : ∀ u ∈ ts.head?, ¬ IsRun u) : Lexing (t ++ k) (t :: ts) := by
  refine h.cons (Or.inr (Or.inr ht)) (fun x hx hsingle => ?_) (fun _ => hmark) fun _ => hnext
  rw [hsingle] at ht
  exact absurd ht (not_isRun_of_mem List.mem_cons_self (List.contains_iff_mem.mpr hx))

/-! ### The contract leaves no choice -/

/-- What stands behind a run does not go on with it. -/
theorem runLength_behind (h : Lexing (t ++ k) (t :: ts)) (ht : IsRun t) : runLength k = 0 := by
  have hk := h.tail.joins
  cases ts with
  | nil =>
      rw [← hk]
      rfl
  | cons u us =>
      rw [List.flatten_cons] at hk
      rcases h.kinds u (by simp) with hu | ⟨x, hx, rfl⟩ | hu
      · rw [← hk]
        exact runLength_of_marker hu _
      · rw [← hk, List.singleton_append]
        exact runLength_of_structural (List.contains_iff_mem.mpr hx) _
      · exact absurd ⟨ht, hu⟩ (List.isChain_cons_cons.mp h.apart).1

/-- Texts that keep the contract are the fragments of the source. -/
theorem eq_tokenize (h : Lexing s ts) : (tokenize s).map Fragment.text = ts := by
  induction ts generalizing s with
  | nil =>
      rw [← h.joins, List.flatten_nil, tokenize_nil]
      rfl
  | cons t ts ih =>
      rcases (show ∃ k, s = t ++ k from ⟨ts.flatten, h.joins.symm⟩) with ⟨k, rfl⟩
      have hrest : (tokenize k).map Fragment.text = ts := ih h.tail
      rcases h.kinds t List.mem_cons_self with ht | ⟨x, hx, rfl⟩ | ht
      · rcases tokenize_marker ht k with ⟨f, hf, htok⟩
        rw [htok, List.map_cons, hf, hrest]
      · -- No marker begins at a structural character that stands alone.
        have hlead : Marker.leading? (x :: k) = none := by
          refine List.find?_eq_none.mpr fun m hm hpre => ?_
          exact h.alone [] x ts rfl hx m hm (List.isPrefixOf_iff_prefix.mp hpre)
        have hstruct : isStructural x = true := List.contains_iff_mem.mpr hx
        rw [List.singleton_append, tokenize_structural hstruct hlead, List.map_cons, hrest]
        rfl
      · -- The run goes exactly as far as the text does.
        have hlen : runLength (t ++ k) = t.length := by
          refine runLength_append_of_unbroken ht.2 (fun i hi => ?_) (h.runLength_behind ht)
          have hmark := h.unbroken [] t ts rfl ht i hi
          rwa [List.flatten_nil, List.length_nil, Nat.zero_add] at hmark
        have hpos : 0 < runLength (t ++ k) := by
          rw [hlen]
          exact List.length_pos_of_ne_nil ht.1
        rcases tokenize_run hpos with ⟨f, hf, htok⟩
        rw [hlen, List.take_left] at hf
        rw [htok, hlen, List.drop_left, List.map_cons, hf, hrest]

end Lexing

/-! ### The fragments keep the contract -/

/-- The run that a text begins with, in front of the fragments behind it. -/
theorem Lexing.tokenize_run {s : List Char} (hpos : 0 < runLength s)
    (h : Lexing (s.drop (runLength s)) ((tokenize (s.drop (runLength s))).map Fragment.text)) :
    Lexing s (s.take (runLength s) :: (tokenize (s.drop (runLength s))).map Fragment.text) := by
  have hlen : (s.take (runLength s)).length = runLength s := by
    rw [List.length_take]
    exact Nat.min_eq_left (runLength_le s)
  have hne : s.take (runLength s) ≠ [] := by
    intro hnil
    rw [hnil, List.length_nil] at hlen
    omega
  have hcons := h.cons_run (t := s.take (runLength s)) ⟨hne, isStructural_of_mem_run⟩
    (fun i hi => ?_) fun u hu hrun => ?_
  · rwa [List.take_append_drop] at hcons
  · rw [List.take_append_drop]
    exact not_prefix_of_lt_runLength (by omega)
  · -- A run behind the run would have been part of it.
    cases htok : tokenize (s.drop (runLength s)) with
    | nil => simp [htok] at hu
    | cons f fs =>
        simp only [htok, List.map_cons, List.head?_cons, Option.mem_def, Option.some.injEq] at hu
        have hmore := runLength_pos_of_isRun htok (by rw [hu]; exact hrun)
        rw [runLength_drop (Nat.le_refl _)] at hmore
        omega

theorem lexing_tokenize (s : List Char) : Lexing s ((tokenize s).map Fragment.text) := by
  induction hn : s.length using Nat.strongRecOn generalizing s with
  | _ n ih =>
  by_cases hs : s = []
  · subst hs
    rw [tokenize_nil]
    exact ⟨rfl, by simp, by simp, by simp, List.isChain_nil⟩
  rcases tokenize_cases hs with ⟨m, k, hm, rfl, f, hf, htok⟩ | ⟨x, k, hx, rfl, hlead, htok⟩ |
    ⟨hpos, f, hf, htok⟩
  · have hlen : 0 < m.length := List.length_pos_of_ne_nil (Marker.ne_nil_of_mem hm)
    rw [htok, List.map_cons, hf]
    rw [List.length_append] at hn
    exact (ih k.length (by omega) k rfl).cons_marker hm
  · rw [htok]
    rw [List.length_cons] at hn
    exact (ih k.length (by omega) k rfl).cons_structural hx hlead
  · have hlen := runLength_le s
    rw [htok, List.map_cons, hf]
    exact Lexing.tokenize_run hpos (ih _ (by rw [List.length_drop]; omega) _ rfl)

/-- The fragments of a source are the only texts that keep the lexical
    contract. As a consequence, what stands behind some fragments of a source
    is cut by itself into the fragments that stand there. -/
theorem tokenize_unique (s : List Char) :
    (∀ ts, Lexing s ts ↔ ts = (tokenize s).map Fragment.text) ∧
      ∀ i, tokenize (((tokenize s).drop i).flatMap Fragment.text) = (tokenize s).drop i := by
  refine ⟨fun ts => ⟨fun h => h.eq_tokenize.symm, ?_⟩, fun i => ?_⟩
  · rintro rfl
    exact lexing_tokenize s
  · exact (Cursor.tokenize_suffix (List.take_append_drop i (tokenize s)).symm).symm

-- Marks that overlap: a comment closes as late as it can, and opens as early.
example :
    (tokenize ['-', '-', '-', '>', '<', '!', '-', '-', '>', '/', '*', '/']).map Fragment.text =
      [['-'], ['-', '-', '>'], ['<', '!', '-', '-'], ['>'], ['/', '*'], ['/']] := by
  decide +kernel

end Inlay
