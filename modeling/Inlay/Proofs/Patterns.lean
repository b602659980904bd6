import Inlay.Proofs.Success
import Inlay.Source.Conservation
import Mathlib.Data.Bool.AllAny

/-!
# What Patterns Recognise

The stretches that are peeled off a fragment: names and pieces of code. A name
begins with a letter and consists of the characters of names, and it is
recognised again wherever it stands in front of something that does not go on
with it. A piece of code holds no character that ends code.

## Main definitions

* `Pattern.IsName`: A text that is a name as a whole.

## Theorems

* `Pattern.identifier_append`: A name is recognised in front of what does not
  go on with it.
* `Cursor.isName_name`: What is peeled off as a name is one.
* `Cursor.split_oneOrMore`, `Cursor.split_snd`: What peeling takes and leaves.
* `Cursor.mem_codeStretch`: What is peeled off as code does not end code.
-/

namespace Inlay

namespace Pattern

/-- A text that is a name as a whole. -/
def IsName (s : List Char) : Prop :=
  identifier s = some s.length

theorem nameTail_le (s : List Char) : nameTail s ≤ s.length := by
  induction s with
  | nil => exact Nat.le_refl 0
  | cons x xs ih =>
      unfold nameTail
      by_cases hx : (isNameChar x || (x == '.' && xs.head?.any isNameChar)) = true
      · rw [if_pos hx, List.length_cons]
        omega
      · rw [if_neg hx]
        omega

/-- A dot that belongs to a name is followed by another part of it. -/
theorem head?_take_nameTail {s : List Char} (h : s.head?.any isNameChar = true) :
    (s.take (nameTail s)).head?.any isNameChar = true := by
  cases s with
  | nil => cases h
  | cons x xs =>
      have hx : isNameChar x = true := h
      rw [nameTail, hx, Bool.true_or, if_pos rfl, List.take_succ_cons]
      exact hx

/-- The rest of a name, cut off behind it, is the rest of a name. -/
theorem nameTail_take (s : List Char) : nameTail (s.take (nameTail s)) = nameTail s := by
  induction s with
  | nil => rfl
  | cons x xs ih =>
      by_cases hx : (isNameChar x || (x == '.' && xs.head?.any isNameChar)) = true
      · have hlen : nameTail (x :: xs) = nameTail xs + 1 := by rw [nameTail, if_pos hx]
        rw [hlen, List.take_succ_cons, nameTail, ih]
        refine if_pos ?_
        rcases Bool.or_eq_true_iff.mp hx with hname | hdot
        · rw [hname, Bool.true_or]
        · rcases Bool.and_eq_true_iff.mp hdot with ⟨hpoint, hnext⟩
          rw [hpoint, head?_take_nameTail hnext, Bool.true_and, Bool.or_true]
      · have hlen : nameTail (x :: xs) = 0 := by rw [nameTail, if_neg hx]
        rw [hlen, List.take_zero, nameTail]

/-- What does not go on with a name. -/
def EndsName (k : List Char) : Prop :=
  ∀ x, k.head? = some x → isNameChar x = false ∧ x ≠ '.'

theorem EndsName.nameTail {k : List Char} (hk : EndsName k) : nameTail k = 0 := by
  cases k with
  | nil => rfl
  | cons x k =>
      rcases hk x rfl with ⟨hx, hdot⟩
      rw [Pattern.nameTail, hx, beq_false_of_ne hdot]
      rfl

theorem EndsName.take {k : List Char} (hk : EndsName k) (n : Nat) : EndsName (k.take n) := by
  cases n with
  | zero => exact fun x hx => by cases hx
  | succ n =>
      cases k with
      | nil => exact fun x hx => by cases hx
      | cons x k => exact hk

/-- Behind a whole rest of a name the name ends, if nothing goes on with it. -/
theorem nameTail_append {s k : List Char} (hs : nameTail s = s.length) (hk : EndsName k) :
    nameTail (s ++ k) = s.length := by
  induction s with
  | nil => exact hk.nameTail
  | cons x xs ih =>
      have hle := nameTail_le xs
      unfold nameTail at hs
      by_cases hx : (isNameChar x || (x == '.' && xs.head?.any isNameChar)) = true
      · rw [if_pos hx, List.length_cons] at hs
        rw [List.cons_append, nameTail, ih (by omega)]
        refine if_pos ?_
        rcases Bool.or_eq_true_iff.mp hx with hname | hdot
        · rw [hname, Bool.true_or]
        · rcases Bool.and_eq_true_iff.mp hdot with ⟨hpoint, hnext⟩
          cases xs with
          | nil => cases hnext
          | cons y ys =>
              rw [List.head?_cons] at hnext
              rw [hpoint, Bool.true_and, List.cons_append, List.head?_cons, hnext, Bool.or_true]
      · rw [if_neg hx, List.length_cons] at hs
        omega

/-- A name is recognised in front of what does not go on with it. -/
theorem identifier_append {s k : List Char} (hs : IsName s) (hk : EndsName k) :
    identifier (s ++ k) = some s.length := by
  unfold IsName at hs
  cases s with
  | nil => cases hs
  | cons x xs =>
      by_cases hx : isNameStart x = true
      · rw [identifier, if_pos hx, Option.some.injEq, List.length_cons] at hs
        rw [List.cons_append, identifier, if_pos hx, nameTail_append (by omega) hk,
          List.length_cons]
      · rw [identifier, if_neg hx] at hs
        cases hs

/-- A name begins with a letter. -/
theorem IsName.head {s : List Char} (hs : IsName s) : ∃ x xs, s = x :: xs ∧ isNameStart x = true := by
  unfold IsName at hs
  cases s with
  | nil => cases hs
  | cons x xs =>
      refine ⟨x, xs, rfl, ?_⟩
      by_cases hx : isNameStart x = true
      · exact hx
      · rw [identifier, if_neg hx] at hs
        cases hs

theorem isNameChar_of_isNameStart {x : Char} (h : isNameStart x = true) : isNameChar x = true := by
  unfold isNameStart at h
  rw [isNameChar, Char.isAlphanum, h, Bool.true_or, Bool.true_or, Bool.true_or]

/-- A letter is not blank. -/
theorem isBlank_of_isNameStart {x : Char} (h : isNameStart x = true) : Text.isBlank x = false := by
  have hrange : 65 ≤ x.toNat ∧ x.toNat ≤ 122 := by
    unfold isNameStart Char.isAlpha Char.isUpper Char.isLower at h
    simp only [Bool.or_eq_true, Bool.and_eq_true, decide_eq_true_eq, ge_iff_le,
      UInt32.le_iff_toNat_le] at h
    change (65 ≤ x.toNat ∧ x.toNat ≤ 90) ∨ (97 ≤ x.toNat ∧ x.toNat ≤ 122) at h
    omega
  unfold Text.isBlank Text.inRanges Text.blankRanges
  simp only [List.any_cons, List.any_nil, Bool.or_false, Bool.or_eq_false_iff,
    Bool.and_eq_false_iff, decide_eq_false_iff_not]
  omega

/-- Characters of a rest of a name are characters of names, or dots. -/
theorem mem_of_nameTail {s : List Char} (h : nameTail s = s.length) :
    ∀ x ∈ s, isNameChar x = true ∨ x = '.' := by
  induction s with
  | nil => exact fun x hx => absurd hx List.not_mem_nil
  | cons y ys ih =>
      have hle := nameTail_le ys
      unfold nameTail at h
      by_cases hy : (isNameChar y || (y == '.' && ys.head?.any isNameChar)) = true
      · rw [if_pos hy, List.length_cons] at h
        intro x hx
        rcases List.mem_cons.mp hx with rfl | hx
        · rcases Bool.or_eq_true_iff.mp hy with hname | hdot
          · exact Or.inl hname
          · exact Or.inr (beq_iff_eq.mp (Bool.and_eq_true_iff.mp hdot).1)
        · exact ih (by omega) x hx
      · rw [if_neg hy, List.length_cons] at h
        omega

theorem IsName.mem {s : List Char} (hs : IsName s) : ∀ x ∈ s, isNameChar x = true ∨ x = '.' := by
  rcases hs.head with ⟨y, ys, rfl, hy⟩
  unfold IsName at hs
  rw [identifier, if_pos hy, Option.some.injEq, List.length_cons] at hs
  intro x hx
  rcases List.mem_cons.mp hx with rfl | hx
  · exact Or.inl (isNameChar_of_isNameStart hy)
  · exact mem_of_nameTail (by omega) x hx

end Pattern

namespace Cursor

variable {c : Cursor}

theorem name_eq_take (c : Cursor) : c.name = c.current.take ((Pattern.identifier c.current).getD 0) :=
  c.split_fst Pattern.identifier

/-- A name is there exactly if something is peeled off as a name. -/
theorem name_ne_nil_iff : c.name ≠ [] ↔ (c.matched? Pattern.identifier).isSome = true := by
  rw [name_eq_take, matched?]
  cases hcur : c.current with
  | nil =>
      rw [List.take_nil]
      exact ⟨fun h => absurd rfl h, fun h => by cases h⟩
  | cons x xs =>
      by_cases hx : Pattern.isNameStart x = true
      · rw [Pattern.identifier, if_pos hx, Option.getD_some, List.take_succ_cons]
        exact ⟨fun _ => rfl, fun _ => List.cons_ne_nil _ _⟩
      · rw [Pattern.identifier, if_neg hx]
        exact ⟨fun h => absurd rfl h, fun h => by cases h⟩

/-- What is peeled off as a name is one. -/
theorem isName_name (h : c.name ≠ []) : Pattern.IsName c.name := by
  rw [name_eq_take] at h ⊢
  cases hcur : c.current with
  | nil =>
      rw [hcur, List.take_nil] at h
      exact absurd rfl h
  | cons x xs =>
      rw [hcur] at h
      by_cases hx : Pattern.isNameStart x = true
      · rw [Pattern.identifier, if_pos hx, Option.getD_some, List.take_succ_cons, Pattern.IsName,
          Pattern.identifier, if_pos hx, Pattern.nameTail_take, List.length_cons, List.length_take,
          Nat.min_eq_left (Pattern.nameTail_le xs)]
      · rw [Pattern.identifier, if_neg hx] at h
        exact absurd rfl h

/-- What is unread begins with the first character of the current fragment. -/
theorem head?_rest (c : Cursor) : c.rest.head? = c.unread.head?.map Fragment.head := by
  rcases c with ⟨unread, index, loc⟩
  cases unread with
  | nil => rfl
  | cons f fs => rfl

/-- A name begins here exactly if the text goes on with a letter. -/
theorem matched?_identifier (c : Cursor) :
    (c.matched? Pattern.identifier).isSome = c.rest.head?.any Pattern.isNameStart := by
  rcases c with ⟨unread, index, loc⟩
  cases unread with
  | nil => rfl
  | cons f fs =>
      have hhead : (Cursor.mk (f :: fs) index loc).rest.head? = some f.head := rfl
      rw [hhead, matched?, Option.any_some]
      simp only [current, Fragment.text, Pattern.identifier]
      cases Pattern.isNameStart f.head with
      | false => rfl
      | true => rfl

/-- What peeling leaves, given what it peels off. -/
theorem split_snd {d : Cursor} {f : Fragment} {fs : List Fragment} (p : Pattern)
    (h : d.unread = f :: fs) {t : List Char} (ht : (d.split p).1 = t) :
    (d.split p).2 = match f.text.drop t.length with
      | [] => { unread := fs, index := d.index + 1, loc := d.loc.shifted t.length }
      | x :: xs => { unread := ⟨x, xs⟩ :: fs, index := d.index, loc := d.loc.shifted t.length } := by
  rcases d with ⟨unread, index, loc⟩
  simp only at h
  subst h
  have hpeeled : f.text.take ((p f.text).getD 0) = t := by
    rw [← ht, split_fst]
    rfl
  simp only [split, hpeeled]
  cases f.text.drop t.length <;> rfl

/-- What is peeled off as characters of a class is all of them. -/
theorem split_oneOrMore (q : Char → Bool) (c : Cursor) :
    (c.split (Pattern.oneOrMore q)).1 = c.current.takeWhile q := by
  have hwhile := List.takeWhile_prefix q (l := c.current)
  rw [split_fst]
  unfold Pattern.oneOrMore
  cases hlen : (c.current.takeWhile q).length with
  | zero =>
      rw [List.length_eq_zero_iff.mp hlen]
      rfl
  | succ n =>
      rw [Option.getD_some, ← hlen]
      exact (List.prefix_iff_eq_take.mp hwhile).symm

/-- What is peeled off as code is all up to a character that ends code. -/
theorem split_codeStretch (c : Cursor) :
    (c.split Pattern.codeStretch).1 = c.current.takeWhile fun x => !Pattern.endsCode x :=
  split_oneOrMore _ c

/-- What is peeled off as code does not end code. -/
theorem mem_codeStretch (c : Cursor) :
    ∀ x ∈ (c.split Pattern.codeStretch).1, Pattern.endsCode x = false := by
  intro x hx
  rw [split_codeStretch] at hx
  have hall := List.all_eq_true.mp (List.all_takeWhile (l := c.current)
    (p := fun x => !Pattern.endsCode x)) x hx
  simpa only [Bool.not_eq_true'] using hall

end Cursor

end Inlay
