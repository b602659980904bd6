import Inlay.Proofs.Canonical
import Inlay.Proofs.Framing
import Inlay.Proofs.Lexing

/-!
# Seams

What a text is cut into depends on what stands behind it, and a text that is
written anew stands in front of something else. This module says when that
makes no difference.

For text that is taken over in whole fragments the condition is that both
texts behind it go on with the same characters up to a place where every
fragment ends (`Alike`): the start of an element, a closing delimiter, or the
end. The fragments up to that place are then the same.

Code outside any nesting is different. It ends at the first character that
ends code, wherever fragments end, and it is not followed by the same
characters when it is written anew. Its text is taken apart into characters
instead (`OpenText`): a character that is not read as something else may be
put in front of open code and is read as part of it, whatever fragment it
falls into (`OpenText.reads`). A star needs care, since a slash behind it ends
the code and is cut off the marker that the two form (`cut`).

## Main definitions

* `Alike`: Texts that go on alike.
* `starred`, `cut`: The fragments behind text that may end with a star.
* `OpenText`: The text of code outside any nesting.

## Theorems

* `Alike.tokenize_append`: Fragments in front of texts that go on alike.
* `Cursor.cut_codeStretch`: What is left when a stretch of code is peeled off.
* `OpenText.reads`: The text of open code is read as open code.
-/

namespace Inlay

/-! ### Texts that go on alike -/

/-- The first fragment of a text begins with its first character. -/
theorem head?_tokenize (s : List Char) : (tokenize s).head?.map Fragment.head = s.head? := by
  cases s with
  | nil => rw [tokenize_nil]; rfl
  | cons x s => rw [tokenize_cons]; rfl

/-- Texts that go on with the same characters up to a place where every
    fragment ends, and with the same fragment there. -/
def Alike (r k : List Char) : Prop :=
  ∃ p q q', r = p ++ q ∧ k = p ++ q' ∧ Hard q ∧ Hard q' ∧ (tokenize q').head? = (tokenize q).head?

namespace Alike

variable {r k : List Char}

theorem nil : Alike [] [] :=
  ⟨[], [], [], rfl, rfl, Hard.nil, Hard.nil, rfl⟩

theorem of_hard (hr : Hard r) (hk : Hard k) (h : (tokenize k).head? = (tokenize r).head?) :
    Alike r k :=
  ⟨[], r, k, rfl, rfl, hr, hk, h⟩

theorem append (h : Alike r k) (t : List Char) : Alike (t ++ r) (t ++ k) := by
  rcases h with ⟨p, q, q', rfl, rfl, hq, hq', hhead⟩
  exact ⟨t ++ p, q, q', (List.append_assoc _ _ _).symm, (List.append_assoc _ _ _).symm, hq, hq',
    hhead⟩

/-- Texts that go on alike begin with the same fragment. -/
theorem head (h : Alike r k) : (tokenize k).head? = (tokenize r).head? := by
  rcases h with ⟨p, q, q', rfl, rfl, hq, hq', hhead⟩
  rw [tokenize_append_of_hard hq, tokenize_append_of_hard hq']
  exact head?_append_congr hhead _

/-- Texts that go on alike begin with the same character. -/
theorem head_char (h : Alike r k) : k.head? = r.head? := by
  rw [← head?_tokenize, ← head?_tokenize, h.head]

/-- In front of texts that go on alike the same fragments stand. -/
theorem tokenize_append (h : Alike r k) {fs : List Fragment}
    (hfs : tokenize (fs.flatMap Fragment.text ++ r) = fs ++ tokenize r) :
    tokenize (fs.flatMap Fragment.text ++ k) = fs ++ tokenize k := by
  rcases h with ⟨p, q, q', rfl, rfl, hq, hq', hhead⟩
  rw [← List.append_assoc, tokenize_append_of_hard hq, tokenize_append_of_hard hq,
    ← List.append_assoc] at hfs
  rw [← List.append_assoc, tokenize_append_of_hard hq', tokenize_append_of_hard hq',
    List.append_cancel_right hfs, List.append_assoc]

end Alike

/-- Fragments that were passed stand in front of the fragments of what is
    left. -/
theorem Cursor.Lexed.passes {c c' : Cursor} {fs : List Fragment} (h : c.Lexed)
    (hpass : c.Passes fs c') :
    c'.Lexed ∧ tokenize (fs.flatMap Fragment.text ++ c'.rest) = fs ++ tokenize c'.rest := by
  have hrest := hpass.rest
  have hunread : tokenize c.rest = fs ++ c'.unread := h.symm.trans hpass.1
  have hlexed : c'.Lexed := Cursor.tokenize_suffix hunread
  refine ⟨hlexed, ?_⟩
  rw [← hrest, hunread, ← hlexed]

/-! ### Stars and slashes -/

/-- Whether a text ends with a star, given the answer for what is in front of
    it. -/
def starred (b : Bool) (t : List Char) : Bool :=
  t.foldl (fun _ x => x == '*') b

theorem starred_append (b : Bool) (t u : List Char) :
    starred b (t ++ u) = starred (starred b t) u :=
  List.foldl_append

theorem starred_concat (b : Bool) (t : List Char) (x : Char) :
    starred b (t ++ [x]) = (x == '*') := by
  rw [starred_append]
  rfl

/-- The fragments of a text behind code: a slash stands alone behind a star. -/
def cut (b : Bool) (s : List Char) : List Fragment :=
  if b = true ∧ s.head? = some '/' then ⟨'/', []⟩ :: tokenize s.tail else tokenize s

theorem cut_false (s : List Char) : cut false s = tokenize s :=
  if_neg fun h => Bool.false_ne_true h.1

theorem cut_of_head {s : List Char} (b : Bool) (h : s.head? ≠ some '/') : cut b s = tokenize s :=
  if_neg fun h' => h h'.2

theorem cut_slash (k : List Char) : cut true ('/' :: k) = ⟨'/', []⟩ :: tokenize k :=
  if_pos ⟨rfl, rfl⟩

theorem head?_cut (b : Bool) (s : List Char) : (cut b s).head?.map Fragment.head = s.head? := by
  unfold cut
  by_cases h : b = true ∧ s.head? = some '/'
  · rw [if_pos h, h.2]
    rfl
  · rw [if_neg h, head?_tokenize]

theorem cut_text (b : Bool) (s : List Char) : (cut b s).flatMap Fragment.text = s := by
  unfold cut
  by_cases h : b = true ∧ s.head? = some '/'
  · rw [if_pos h, List.flatMap_cons, tokenize_text]
    cases s with
    | nil => cases h.2
    | cons x s =>
        rw [List.head?_cons, Option.some.injEq] at h
        rw [h.2]
        rfl
  · rw [if_neg h, tokenize_text]

/-- Texts that go on alike begin with the same fragment behind code. -/
theorem Alike.head_cut {r k : List Char} (h : Alike r k) (b : Bool) :
    (cut b k).head? = (cut b r).head? := by
  unfold cut
  rw [h.head_char]
  by_cases hslash : b = true ∧ r.head? = some '/'
  · rw [if_pos hslash, if_pos hslash]
    rfl
  · rw [if_neg hslash, if_neg hslash, h.head]

/-- Behind the first fragment of a text behind code stand the fragments of
    what is left. -/
theorem cut_tail {b : Bool} {s : List Char} {f : Fragment} {fs : List Fragment}
    (h : cut b s = f :: fs) : fs = tokenize (fs.flatMap Fragment.text) := by
  unfold cut at h
  by_cases hslash : b = true ∧ s.head? = some '/'
  · rw [if_pos hslash] at h
    rw [← (List.cons.inj h).2, tokenize_text]
  · rw [if_neg hslash] at h
    exact Cursor.tokenize_tail h

/-- In front of texts that go on alike the same fragments stand, also behind
    code. -/
theorem Alike.cut_append {r k : List Char} (h : Alike r k) {b : Bool} {f : Fragment}
    {fs : List Fragment}
    (hfs : cut b ((f :: fs).flatMap Fragment.text ++ r) = f :: fs ++ tokenize r) :
    cut b ((f :: fs).flatMap Fragment.text ++ k) = f :: fs ++ tokenize k := by
  have hhead : ∀ u, ((f :: fs).flatMap Fragment.text ++ u).head? = some f.head := fun u => rfl
  unfold cut at hfs ⊢
  rw [hhead] at hfs ⊢
  by_cases hslash : b = true ∧ some f.head = some '/'
  · rw [if_pos hslash] at hfs ⊢
    rcases f with ⟨x, xs⟩
    rw [List.cons_append, List.cons.injEq, Fragment.mk.injEq] at hfs
    rcases hfs with ⟨⟨rfl, rfl⟩, hfs⟩
    rw [List.cons_append]
    exact congrArg (_ :: ·) (h.tokenize_append hfs)
  · rw [if_neg hslash] at hfs ⊢
    exact h.tokenize_append hfs

/-! ### Stretches of open code -/

/-- Whether a character is code outside any nesting, and begins neither a
    string nor a group. -/
def Pattern.isOpenChar (x : Char) : Bool :=
  !endsCode x && !(['"', '\'', '(', '[', '{'].contains x)

/-- What does not end code is open unless it is structural. -/
theorem Pattern.isOpenChar_of_plain {x : Char} (hcode : endsCode x = false)
    (hplain : isStructural x = false) : isOpenChar x = true := by
  have hchars : ∀ x ∈ ['"', '\'', '(', '[', '{'], isStructural x = true :=
    List.all_iff_forall_prop.mp (by decide)
  rw [isOpenChar, hcode]
  cases hmem : ['"', '\'', '(', '[', '{'].contains x with
  | false => rfl
  | true =>
      rw [hchars x (List.contains_iff_mem.mp hmem)] at hplain
      cases hplain

/-- A star in front of a slash would have been the marker of the two. -/
theorem Marker.head?_ne_slash {k : List Char} (h : leading? ('*' :: k) = none) :
    k.head? ≠ some '/' := by
  intro hhead
  rcases List.head?_eq_some_iff.mp hhead with ⟨k', rfl⟩
  have hmark := leading?_append (m := blockClose) (by decide) k'
  cases h.symm.trans hmark

theorem starred_of_not_mem {t : List Char} (hne : t ≠ []) (ht : '*' ∉ t) (b : Bool) :
    starred b t = false := by
  rcases List.eq_nil_or_concat t with rfl | ⟨u, x, rfl⟩
  · exact absurd rfl hne
  · rw [List.concat_eq_append] at ht ⊢
    rw [starred_concat, beq_eq_false_iff_ne]
    intro hx
    exact ht (by rw [hx]; exact List.mem_append_right _ (List.mem_singleton_self _))

/-- Whether a text ends with a star does not depend on what is in front of it,
    if there is any text. -/
theorem starred_congr {t : List Char} (hne : t ≠ []) (b b' : Bool) : starred b t = starred b' t := by
  rcases List.eq_nil_or_concat t with rfl | ⟨u, x, rfl⟩
  · exact absurd rfl hne
  · rw [List.concat_eq_append, starred_concat, starred_concat]

/-- Code outside any nesting ends where its first character does, or at the
    end. -/
theorem Zone.ends_unnested (c : Cursor) :
    Zone.unnested.ends c = (c.unread.head?.map Fragment.head).all Pattern.endsCode := by
  rcases c with ⟨unread, index, loc⟩
  cases unread with
  | nil => rfl
  | cons f fs =>
      simp only [Zone.ends, Cursor.eof, List.isEmpty_cons, Bool.false_or, Cursor.matched?,
        Cursor.current, Fragment.text, Pattern.codeEnd, Pattern.one, List.head?_cons,
        Option.map_some, Option.all_some]
      cases Pattern.endsCode f.head <;> rfl

namespace Cursor

variable {c : Cursor}

theorem rest_of_cut {b : Bool} {k : List Char} (h : c.unread = cut b k) : c.rest = k := by
  rw [rest, h, cut_text]

/-- A stretch of code that is peeled off consists of open characters, and a
    slash that it leaves behind a star stands alone. -/
def PeelsOpen (c : Cursor) : Prop :=
  (∀ x ∈ (c.split Pattern.codeStretch).1, Pattern.isOpenChar x = true) ∧
    ∀ b, ∃ k, (c.split Pattern.codeStretch).2.unread =
      cut (starred b (c.split Pattern.codeStretch).1) k

/-- Only two markers neither end code nor open a group, and code ends inside
    both of them. -/
theorem peelsOpen_marker {m k : List Char} {f : Fragment} (hm : m ∈ Marker.all) (hf : f.text = m)
    (hunread : c.unread = f :: tokenize k) (hcode : f.head ∉ ['<', '/'])
    (hclose : c.closer? = none) : c.PeelsOpen := by
  have hcur : c.current = m := by rw [current, hunread]; exact hf
  have hsplit : (c.split Pattern.codeStretch).1 = m.takeWhile fun x => !Pattern.endsCode x := by
    rw [split_codeStretch, hcur]
  have hleft := unread_split_cons Pattern.codeStretch hunread
  rw [hsplit, hf] at hleft
  unfold PeelsOpen
  rw [hsplit]
  have hmarks : ∀ m ∈ Marker.all, m.head? = some '<' ∨ m.head? = some '/' ∨
      m = Marker.commentClose ∨ m = Marker.blockClose ∨ m = Marker.spread := by decide
  have hhead : m.head? = some f.head := by rw [← hf]; rfl
  rcases hmarks m hm with h | h | rfl | rfl | rfl
  · rw [h, Option.some.injEq] at hhead
    rw [← hhead] at hcode
    exact absurd List.mem_cons_self hcode
  · rw [h, Option.some.injEq] at hhead
    rw [← hhead] at hcode
    exact absurd (List.mem_cons_of_mem _ List.mem_cons_self) hcode
  · -- The dashes are peeled off, and what closes the tag is left.
    refine ⟨List.all_iff_forall_prop.mp (by decide), fun b => ⟨'>' :: k, ?_⟩⟩
    have hone : tokenize ('>' :: k) = ⟨'>', []⟩ :: tokenize k :=
      tokenize_structural (by decide) (Marker.leading?_eq_none (by decide) k)
    rw [hleft]
    exact hone.symm
  · -- The star is peeled off, and the slash is left alone.
    refine ⟨List.all_iff_forall_prop.mp (by decide), fun b => ⟨'/' :: k, ?_⟩⟩
    rw [hleft]
    exact (cut_slash k).symm
  · -- The mark of a spread opens a group.
    rw [closer?, hcur] at hclose
    cases hclose

/-- A structural character that does not end code is peeled off alone. -/
theorem peelsOpen_structural {x : Char} {k : List Char} (hx : isStructural x = true)
    (hlead : Marker.leading? (x :: k) = none) (hunread : c.unread = ⟨x, []⟩ :: tokenize k)
    (hcode : Pattern.endsCode x = false) (hclose : c.closer? = none)
    (hquote : c.isAt quotes = false) : c.PeelsOpen := by
  have hcur : c.current = [x] := by rw [current, hunread]; rfl
  have hsplit : (c.split Pattern.codeStretch).1 = [x] := by
    rw [split_codeStretch, hcur, List.takeWhile_cons, hcode]
    rfl
  have hleft := unread_split_cons Pattern.codeStretch hunread
  rw [hsplit] at hleft
  unfold PeelsOpen
  rw [hsplit]
  refine ⟨?_, fun b => ⟨k, ?_⟩⟩
  · have hchars : ∀ x ∈ structural, Pattern.endsCode x = false → Pattern.isOpenChar x = true ∨
        x = '"' ∨ x = '\'' ∨ x = '(' ∨ x = '[' ∨ x = '{' :=
      List.all_iff_forall_prop.mp (by decide)
    intro y hy
    rw [List.mem_singleton.mp hy]
    rcases hchars x (List.contains_iff_mem.mp hx) hcode with hopen | rfl | rfl | rfl | rfl | rfl
    · exact hopen
    · rw [isAt, eof, hunread, hcur] at hquote
      cases hquote
    · rw [isAt, eof, hunread, hcur] at hquote
      cases hquote
    · rw [closer?, hcur] at hclose
      cases hclose
    · rw [closer?, hcur] at hclose
      cases hclose
    · rw [closer?, hcur] at hclose
      cases hclose
  · rw [hleft]
    cases hstar : starred b [x] with
    | false => exact (cut_false k).symm
    | true =>
        rw [beq_iff_eq.mp hstar] at hlead
        exact (cut_of_head true (Marker.head?_ne_slash hlead)).symm

/-- A run is peeled up to the first character that ends code. -/
theorem peelsOpen_run {f : Fragment} {fs : List Fragment} (h : c.Lexed)
    (hf : f.text = c.rest.take (runLength c.rest)) (hunread : c.unread = f :: fs)
    (hcode : Pattern.endsCode f.head = false) : c.PeelsOpen := by
  have hcur : c.current = c.rest.take (runLength c.rest) := by rw [current, hunread]; exact hf
  have hplain : ∀ x ∈ (c.split Pattern.codeStretch).1, isStructural x = false := by
    intro x hx
    rw [split_codeStretch, hcur] at hx
    exact isStructural_of_mem_run x ((List.takeWhile_prefix _).subset hx)
  have hlen : (c.split Pattern.codeStretch).1.length ≤ runLength c.rest := by
    rw [split_codeStretch, hcur]
    have hle := (List.takeWhile_prefix (fun x => !Pattern.endsCode x)
      (l := c.rest.take (runLength c.rest))).length_le
    rw [List.length_take] at hle
    omega
  have hne : (c.split Pattern.codeStretch).1 ≠ [] := by
    rw [split_codeStretch, hcur, ← hf, Fragment.text, List.takeWhile_cons, hcode]
    exact List.cons_ne_nil _ _
  refine ⟨?_, fun b => ⟨c.rest.drop (c.split Pattern.codeStretch).1.length, ?_⟩⟩
  · intro x hx
    exact Pattern.isOpenChar_of_plain (c.mem_codeStretch x hx) (hplain x hx)
  · have hstar : starred b (c.split Pattern.codeStretch).1 = false := by
      refine starred_of_not_mem hne (fun hmem => ?_) b
      exact absurd (hplain _ hmem) (by decide)
    rw [hstar, cut_false]
    exact unread_split h hlen

/-- What is left when a stretch of code is peeled off the fragments of a text,
    and what characters the stretch has. -/
theorem cut_codeStretch (h : c.Lexed) (hend : Zone.unnested.ends c = false)
    (hclose : c.closer? = none) (hquote : c.isAt quotes = false) :
    (∀ x ∈ (c.split Pattern.codeStretch).1, Pattern.isOpenChar x = true) ∧
      ∀ b, (c.split Pattern.codeStretch).2.unread =
        cut (starred b (c.split Pattern.codeStretch).1) (c.split Pattern.codeStretch).2.rest := by
  have hends := Zone.ends_unnested c
  rw [hend] at hends
  have hne : c.rest ≠ [] := by
    intro hnil
    rw [h, head?_tokenize, hnil] at hends
    cases hends
  have hopen : c.PeelsOpen := by
    rcases tokenize_cases hne with ⟨m, k, hm, hs, f, hf, htok⟩ | ⟨x, k, hx, hs, hlead, htok⟩ |
      ⟨_, f, hf, htok⟩
    · have hunread := h.trans htok
      rw [hunread, List.head?_cons, Option.map_some, Option.all_some] at hends
      refine peelsOpen_marker hm hf hunread (fun hmem => ?_) hclose
      have hcode : ∀ x ∈ ['<', '/'], Pattern.endsCode x = true :=
        List.all_iff_forall_prop.mp (by decide)
      rw [hcode _ hmem] at hends
      cases hends
    · have hunread := h.trans htok
      rw [hunread, List.head?_cons, Option.map_some, Option.all_some] at hends
      rw [hs] at hlead
      exact peelsOpen_structural hx hlead hunread hends.symm hclose hquote
    · have hunread := h.trans htok
      rw [hunread, List.head?_cons, Option.map_some, Option.all_some] at hends
      exact peelsOpen_run h hf hunread hends.symm
  refine ⟨hopen.1, fun b => ?_⟩
  rcases hopen.2 b with ⟨k, hk⟩
  rw [rest_of_cut hk]
  exact hk

end Cursor

/-! ### Open code -/

namespace Cursor

variable {d : Cursor} {f : Fragment} {fs : List Fragment}

/-- Where a fragment begins with an open character, code outside any nesting
    goes on, and with neither a string nor a group. -/
theorem open_of_head (h : d.unread = f :: fs) (hx : Pattern.isOpenChar f.head = true) :
    Zone.unnested.ends d = false ∧ d.closer? = none ∧ d.isAt quotes = false := by
  rcases Bool.and_eq_true_iff.mp hx with ⟨hcode, hopen⟩
  rw [Bool.not_eq_true'] at hcode hopen
  have hmem : f.head ∉ ['"', '\'', '(', '[', '{'] := by
    intro hmem
    rw [List.contains_iff_mem.mpr hmem] at hopen
    cases hopen
  -- A fragment that is one of some texts begins like one of them.
  have hhead : ∀ t, d.isAt [t] = true → t.head? = some f.head := by
    intro t hat
    rw [← List.mem_singleton.mp (isAt_iff.mp hat).2, (of_unread_cons h).2.1]
    rfl
  have hnot : ∀ t ∈ [['"'], ['\''], ['('], ['['], ['{'], Marker.spread], d.isAt [t] = false := by
    intro t ht
    cases hat : d.isAt [t] with
    | false => rfl
    | true =>
        have hchars : ∀ t ∈ [['"'], ['\''], ['('], ['['], ['{'], Marker.spread], ∀ x,
            t.head? = some x → x ∈ ['"', '\'', '(', '[', '{'] := by
          intro t ht x hx
          simp only [List.mem_cons, List.not_mem_nil, or_false] at ht
          rcases ht with rfl | rfl | rfl | rfl | rfl | rfl <;> cases hx <;> decide
        exact absurd (hchars t ht f.head (hhead t hat)) hmem
  refine ⟨?_, ?_, ?_⟩
  · rw [Zone.ends_unnested, h, List.head?_cons, Option.map_some, Option.all_some, hcode]
  · cases hclose : d.closer? with
    | none => rfl
    | some close =>
        rcases closer?_cases hclose with ⟨hat, _⟩ | ⟨hat, _⟩ | ⟨hat, _⟩ | ⟨hat, _⟩ <;>
          rw [hnot _ (by decide)] at hat <;> cases hat
  · cases hquote : d.isAt quotes with
    | false => rfl
    | true =>
        rcases isAt_quotes hquote with hat | hat <;> rw [hnot _ (by decide)] at hat <;> cases hat

/-- An open character in front of a fragment belongs to the stretch that is
    peeled off the fragment. -/
theorem split_codeStretch_cons {x : Char} (hx : Pattern.endsCode x = false)
    (h : d.unread = ⟨x, f.text⟩ :: fs) :
    d.split Pattern.codeStretch =
      (x :: ((Cursor.mk (f :: fs) d.index (d.loc.shifted 1)).split Pattern.codeStretch).1,
        ((Cursor.mk (f :: fs) d.index (d.loc.shifted 1)).split Pattern.codeStretch).2) := by
  generalize he : Cursor.mk (f :: fs) d.index (d.loc.shifted 1) = e
  have hunread : e.unread = f :: fs := by rw [← he]
  have hfst : (d.split Pattern.codeStretch).1 = x :: (e.split Pattern.codeStretch).1 := by
    rw [split_codeStretch, split_codeStretch, (of_unread_cons h).2.1, (of_unread_cons hunread).2.1,
      Fragment.text, List.takeWhile_cons, hx]
    rfl
  refine Prod.ext hfst ?_
  rw [split_snd _ h hfst, split_snd _ hunread rfl, ← he]
  have hloc : d.loc.shifted ((x :: (e.split Pattern.codeStretch).1).length : Nat) =
      (d.loc.shifted 1).shifted ((e.split Pattern.codeStretch).1.length : Nat) := by
    rw [Location.shifted_shifted, List.length_cons, Int.add_comm]
    rfl
  simp only [he, hloc]
  rfl

end Cursor

/-- What may follow open code: a character that ends code, or nothing. -/
def OpenEnd (k : List Char) : Prop :=
  ∀ x, k.head? = some x → Pattern.endsCode x = true

/-- A string or a group in open code: wherever it stands, it is read as one
    piece and says the same. -/
structure Block (g : Grammar) (t : List Char) (said : List (Char ⊕ Element)) : Prop where
  head : ∃ x u, t = x :: u ∧ x ∈ ['"', '\'', '(', '[', '{']
  last : ∀ b, starred b t = false
  reads : ∀ (k : List Char) (d : Cursor), d.unread = tokenize (t ++ k) →
    ∃ qs d', Derives g d (.piece .unnested qs) d' ∧ flow qs = said ∧ d'.unread = tokenize k

/-- The text of open code, and what it says. -/
inductive OpenText (g : Grammar) : List Char → List (Char ⊕ Element) → Prop where
  | nil : OpenText g [] []
  | char {x : Char} {s : List Char} {said : List (Char ⊕ Element)} :
    Pattern.isOpenChar x = true → OpenText g s said → OpenText g (x :: s) (.inl x :: said)
  | block {t s : List Char} {now said : List (Char ⊕ Element)} :
    Block g t now → OpenText g s said → OpenText g (t ++ s) (now ++ said)

namespace OpenText

variable {g : Grammar} {s : List Char} {said : List (Char ⊕ Element)}

/-- Open characters may be put in front of open code. -/
theorem chars {t : List Char} (ht : ∀ x ∈ t, Pattern.isOpenChar x = true) (h : OpenText g s said) :
    OpenText g (t ++ s) (t.map Sum.inl ++ said) := by
  induction t with
  | nil => exact h
  | cons x t ih =>
      exact OpenText.char (ht x List.mem_cons_self)
        (ih fun y hy => ht y (List.mem_cons_of_mem _ hy))

/-- Open code does not begin with a character that ends code. -/
theorem head (h : OpenText g s said) : ∀ x, s.head? = some x → Pattern.endsCode x = false := by
  intro x hx
  cases h with
  | nil => cases hx
  | @char y s said hy hs =>
      cases hx
      have hboth := Bool.and_eq_true_iff.mp hy
      simpa only [Bool.not_eq_true'] using hboth.1
  | @block t s now said ht hs =>
      rcases ht.head with ⟨y, u, rfl, hy⟩
      have hchars : ∀ y ∈ ['"', '\'', '(', '[', '{'], Pattern.endsCode y = false :=
        List.all_iff_forall_prop.mp (by decide)
      rw [List.cons_append, List.head?_cons, Option.some.injEq] at hx
      rw [← hx]
      exact hchars y hy

/-- What begins with a character that ends code is behind the open code. -/
theorem eq_nil (h : OpenText g s said) {k k' : List Char} {x : Char} (hx : Pattern.endsCode x = true)
    (heq : s ++ k = x :: k') : s = [] ∧ said = [] := by
  cases h with
  | nil => exact ⟨rfl, rfl⟩
  | @char y s said hy hs =>
      have hhead := (OpenText.char hy hs).head y rfl
      rw [(List.cons.inj heq).1, hx] at hhead
      cases hhead
  | @block t s now said ht hs =>
      have hhead := (OpenText.block ht hs).head x
      rcases ht.head with ⟨y, u, rfl, hy⟩
      rw [(List.cons.inj heq).1, hx] at hhead
      cases hhead rfl

end OpenText

/-- An open character in front of a run of open code is read as part of its
    first piece. -/
theorem Derives.open_cons {g : Grammar} {d e' : Cursor} {x : Char} {f : Fragment}
    {fs : List Fragment} {qs : List Piece} (hx : Pattern.isOpenChar x = true)
    (hplain : isStructural f.head = false) (h : d.unread = ⟨x, f.text⟩ :: fs)
    (hqs : Derives g ⟨f :: fs, d.index, d.loc.shifted 1⟩ (.pieces .unnested qs) e') :
    ∃ qs', Derives g d (.pieces .unnested qs') e' ∧ flow qs' = .inl x :: flow qs := by
  rcases Cursor.open_of_head h hx with ⟨hend, hclose, hquote⟩
  have hcode : Pattern.endsCode x = false := by
    simpa only [Bool.not_eq_true'] using (Bool.and_eq_true_iff.mp hx).1
  have hpiece := Derives.verbatim (g := g) (Verbatim.stretch hclose hquote)
  rw [Cursor.split_codeStretch_cons hcode h] at hpiece
  generalize he : Cursor.mk (f :: fs) d.index (d.loc.shifted 1) = e at hpiece hqs
  have hunread : e.unread = f :: fs := by rw [← he]
  have hends := Zone.ends_unnested e
  rw [hunread, List.head?_cons, Option.map_some, Option.all_some] at hends
  cases hqs with
  | noPieces hstop =>
      -- The run is behind the code, so the character is all that is peeled off.
      rw [hstop] at hends
      have hfst : (e'.split Pattern.codeStretch).1 = [] := by
        rw [Cursor.split_codeStretch, (Cursor.of_unread_cons hunread).2.1, Fragment.text,
          List.takeWhile_cons, ← hends]
        rfl
      have hsnd : (e'.split Pattern.codeStretch).2 = e' := by
        rw [Cursor.split_snd _ hunread hfst, ← he]
        exact congrArg (Cursor.mk _ _) (Location.shifted_zero _)
      rw [hfst, hsnd] at hpiece
      exact ⟨[.text [x]] ++ [], Derives.pieces hend hpiece (Derives.noPieces hstop), rfl⟩
  | @pieces _ _ c₁ _ ps qs hgo hfirst hrest =>
      rw [hgo] at hends
      -- The first piece of the run is a stretch, which begins with `x` now.
      have hopen := Pattern.isOpenChar_of_plain hends.symm hplain
      rcases Cursor.open_of_head hunread hopen with ⟨_, hclose', hquote'⟩
      cases hfirst with
      | verbatim hv =>
          cases hv with
          | string ht =>
              rw [(Rule.quotedString_eq_ok_iff.mp ht).1] at hquote'
              cases hquote'
          | lineComment hz _ => exact absurd rfl hz
          | blockComment hz _ => exact absurd rfl hz
          | plain hz _ => exact absurd rfl hz
          | stretch _ _ =>
              refine ⟨_, Derives.pieces hend hpiece hrest, ?_⟩
              rw [flow_append, flow_append]
              rfl
      | inlay hz _ => exact absurd rfl hz
      | nest _ hgroup =>
          rcases hgroup.closer?_of_group with ⟨close, hsome⟩
          rw [hclose'] at hsome
          cases hsome

/-- A text that is read as open code in front of another one. -/
def ReadsOpen (g : Grammar) (s k : List Char) (said : List (Char ⊕ Element)) : Prop :=
  ∀ d : Cursor, d.unread = tokenize (s ++ k) →
    ∃ qs d', Derives g d (.pieces .unnested qs) d' ∧ flow qs = said ∧
      d'.unread = cut (starred false s) k

theorem OpenEnd.ends {k : List Char} (hk : OpenEnd k) {b : Bool} {d : Cursor}
    (hd : d.unread = cut b k) : Zone.unnested.ends d = true := by
  rw [Zone.ends_unnested, hd, head?_cut]
  cases hhead : k.head? with
  | none => rfl
  | some x => exact hk x hhead

namespace ReadsOpen

variable {g : Grammar} {s k : List Char} {said : List (Char ⊕ Element)} {x : Char}

/-- An open character that is a fragment of its own is a piece of its own. -/
theorem alone (hx : Pattern.isOpenChar x = true) (ih : ReadsOpen g s k said)
    (htok : tokenize (x :: (s ++ k)) = ⟨x, []⟩ :: tokenize (s ++ k))
    (hslash : x = '*' → (s ++ k).head? ≠ some '/') : ReadsOpen g (x :: s) k (.inl x :: said) := by
  intro d hd
  have hunread := hd.trans htok
  rcases Cursor.open_of_head hunread hx with ⟨hend, hclose, hquote⟩
  have hfst : (d.split Pattern.codeStretch).1 = [x] := by
    have hcode := (Bool.and_eq_true_iff.mp hx).1
    rw [Cursor.split_codeStretch, (Cursor.of_unread_cons hunread).2.1, Fragment.text,
      List.takeWhile_cons, hcode]
    rfl
  have hsnd := Cursor.unread_split_cons Pattern.codeStretch hunread
  rw [hfst] at hsnd
  rcases ih _ hsnd with ⟨qs, d', hqs, hflow, hd'⟩
  refine ⟨_, d', Derives.pieces hend (Derives.verbatim (Verbatim.stretch hclose hquote)) hqs, ?_, ?_⟩
  · rw [flow_append, hflow, hfst]
    rfl
  · -- Whether the code ends with a star is up to `s`, unless that is empty.
    have hstar : starred false (x :: s) = starred (x == '*') s := rfl
    rw [hd', hstar]
    by_cases hnil : s = []
    · rw [hnil]
      cases hx' : x == '*' with
      | false => rfl
      | true =>
          have hhead := hslash (beq_iff_eq.mp hx')
          rw [hnil, List.nil_append] at hhead
          exact (cut_false k).trans (cut_of_head true hhead).symm
    · rw [starred_congr hnil false (x == '*')]

/-- An open character in front of a run belongs to the run. -/
theorem run (hx : Pattern.isOpenChar x = true) (ih : ReadsOpen g s k said)
    (hpos : 0 < runLength (x :: (s ++ k))) (hrun : 0 < runLength (s ++ k)) :
    ReadsOpen g (x :: s) k (.inl x :: said) := by
  intro d hd
  have hplain : ∀ y ∈ (x :: (s ++ k)).take (runLength (x :: (s ++ k))), isStructural y = false :=
    isStructural_of_mem_run
  have hlen := runLength_cons hpos
  rcases tokenize_run hpos with ⟨f, hf, htok⟩
  rcases tokenize_run hrun with ⟨f', hf', htok'⟩
  rw [hlen, List.take_succ_cons, ← hf'] at hf hplain
  rw [hlen, List.drop_succ_cons] at htok
  rw [Fragment.eq_of_text hf] at htok
  have hunread := hd.trans htok
  -- The rest of the run is read from where it stands behind the character.
  rcases ih ⟨f' :: tokenize ((s ++ k).drop (runLength (s ++ k))), d.index, d.loc.shifted 1⟩
    htok'.symm with ⟨qs, d', hqs, hflow, hd'⟩
  have hhead : isStructural f'.head = false :=
    hplain _ (List.mem_cons_of_mem _ List.mem_cons_self)
  rcases hqs.open_cons hx hhead hunread with ⟨qs', hqs', hflow'⟩
  refine ⟨qs', d', hqs', by rw [hflow', hflow], ?_⟩
  have hstar : (x == '*') = false := by
    rw [beq_eq_false_iff_ne]
    intro hx'
    have hstruct := hplain x List.mem_cons_self
    rw [hx'] at hstruct
    exact absurd hstruct (by decide)
  rw [hd']
  change _ = cut (starred (x == '*') s) k
  rw [hstar]

/-- Code ends inside a marker, which is cut open. -/
theorem marker {m t u : List Char} (hm : m ∈ Marker.all) (hmark : m = t ++ u)
    (hopen : m.head?.all Pattern.isOpenChar = true)
    (hwhile : (m.takeWhile fun x => !Pattern.endsCode x) = t) (hk : OpenEnd (u ++ k))
    (hleft : Fragment.listOf u ++ tokenize k = cut (starred false t) (u ++ k)) :
    ReadsOpen g t (u ++ k) (t.map Sum.inl) := by
  intro d hd
  rcases tokenize_marker hm k with ⟨f, hf, htok⟩
  rw [hmark, List.append_assoc] at htok
  have hunread := hd.trans htok
  have hx : Pattern.isOpenChar f.head = true := by
    rw [← hf, Fragment.text, List.head?_cons, Option.all_some] at hopen
    exact hopen
  rcases Cursor.open_of_head hunread hx with ⟨hend, hclose, hquote⟩
  have hfst : (d.split Pattern.codeStretch).1 = t := by
    rw [Cursor.split_codeStretch, (Cursor.of_unread_cons hunread).2.1, hf, hwhile]
  have hsnd := Cursor.unread_split_cons Pattern.codeStretch hunread
  rw [hfst, hf, hmark, List.drop_left, hleft] at hsnd
  refine ⟨_, _, Derives.pieces hend (Derives.verbatim (Verbatim.stretch hclose hquote))
    (Derives.noPieces (hk.ends hsnd)), ?_, hsnd⟩
  rw [List.append_nil, hfst, flow, flow, List.append_nil]

end ReadsOpen

namespace OpenText

variable {g : Grammar} {s : List Char} {said : List (Char ⊕ Element)}

/-- An open character may be put in front of open code, whatever fragment it
    falls into. -/
theorem reads_char {k : List Char} {x : Char} (hx : Pattern.isOpenChar x = true)
    (hs : OpenText g s said) (ih : ReadsOpen g s k said) (hk : OpenEnd k) :
    ReadsOpen g (x :: s) k (.inl x :: said) := by
  rcases tokenize_cases (List.cons_ne_nil x (s ++ k)) with ⟨m, k', hm, hs', _⟩ |
    ⟨y, k', _, hs', hlead, htok⟩ | ⟨hpos, f, hf, htok⟩
  · -- The character begins one of the two markers that code ends inside of.
    have hopen : m.head?.all Pattern.isOpenChar = true := by
      cases m with
      | nil => rfl
      | cons y m =>
          rw [List.head?_cons, Option.all_some, ← (List.cons.inj hs').1]
          exact hx
    have hmarks : ∀ m ∈ Marker.all, m.head?.all Pattern.isOpenChar = true →
        m = Marker.commentClose ∨ m = Marker.blockClose := by decide
    rcases hmarks m hm hopen with rfl | rfl
    · have htail : s ++ k = '-' :: '>' :: k' := (List.cons.inj hs').2
      rw [(List.cons.inj hs').1]
      -- The second dash is code as well, and the code ends behind it.
      cases hs with
      | nil =>
          have hhead : k.head? = some '-' := congrArg List.head? htail
          exact absurd (hk '-' hhead) (by decide)
      | block ht _ =>
          rcases ht.head with ⟨y, u, rfl, hy⟩
          have hdash : y = '-' := (List.cons.inj htail).1
          rw [hdash] at hy
          exact absurd hy (by decide)
      | char _ hs =>
          have hdash := (List.cons.inj htail).1
          rcases hs.eq_nil (x := '>') (by decide) (List.cons.inj htail).2 with ⟨rfl, rfl⟩
          have hclose : k = '>' :: k' := (List.cons.inj htail).2
          rw [hdash, hclose]
          rw [hclose] at hk
          have hone : tokenize ('>' :: k') = ⟨'>', []⟩ :: tokenize k' :=
            tokenize_structural (by decide) (Marker.leading?_eq_none (by decide) k')
          exact ReadsOpen.marker (m := Marker.commentClose) (t := ['-', '-']) (u := ['>'])
            (by decide) rfl (by decide) (by decide) hk hone.symm
    · -- The slash ends the code, so the star is the last of it.
      have htail : s ++ k = '/' :: k' := (List.cons.inj hs').2
      rw [(List.cons.inj hs').1]
      rcases hs.eq_nil (x := '/') (by decide) htail with ⟨rfl, rfl⟩
      have hslash : k = '/' :: k' := htail
      rw [hslash] at hk ⊢
      exact ReadsOpen.marker (m := Marker.blockClose) (t := ['*']) (u := ['/']) (by decide) rfl
        (by decide) (by decide) hk (cut_slash k').symm
  · rw [← (List.cons.inj hs').1, ← (List.cons.inj hs').2] at htok
    refine ReadsOpen.alone hx ih htok ?_
    intro hstar
    rw [hstar] at hlead
    exact Marker.head?_ne_slash hlead
  · -- The character begins a run, which goes on or is the character alone.
    by_cases hrun : 0 < runLength (s ++ k)
    · exact ReadsOpen.run hx ih hpos hrun
    · have hlen := runLength_cons hpos
      rw [Nat.eq_zero_of_not_pos hrun] at hlen
      rw [hlen, List.take_succ_cons, List.take_zero] at hf
      rw [hlen, List.drop_succ_cons, List.drop_zero] at htok
      rw [Fragment.eq_of_text hf] at htok
      refine ReadsOpen.alone hx ih htok ?_
      intro hstar
      have hstruct := isStructural_of_mem_run (s := x :: (s ++ k)) x
        (by rw [hlen]; exact List.mem_cons_self)
      rw [hstar] at hstruct
      exact absurd hstruct (by decide)

/-- The text of open code is read as open code, in front of anything that ends
    it. -/
theorem reads (h : OpenText g s said) {k : List Char} (hk : OpenEnd k) : ReadsOpen g s k said := by
  induction h with
  | nil =>
      intro d hd
      rw [List.nil_append, ← cut_false] at hd
      exact ⟨[], d, Derives.noPieces (hk.ends hd), rfl, hd⟩
  | char hx hs ih => exact reads_char hx hs ih hk
  | @block t s now said ht hs ih =>
      intro d hd
      rw [List.append_assoc] at hd
      rcases ht.reads (s ++ k) d hd with ⟨ps, d₁, hps, hflow, hd₁⟩
      rcases ih d₁ hd₁ with ⟨qs, d', hqs, hflow', hd'⟩
      have hend : Zone.unnested.ends d = false := by
        rcases ht.head with ⟨x, u, rfl, hx⟩
        rw [Zone.ends_unnested, hd, head?_tokenize]
        exact (OpenText.block ht hs).head x rfl
      refine ⟨ps ++ qs, d', Derives.pieces hend hps hqs, ?_, ?_⟩
      · rw [flow_append, hflow, hflow']
      · rw [hd', starred_append, ht.last]

end OpenText

end Inlay
