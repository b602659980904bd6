import Inlay.Proofs.Placement
import Inlay.Proofs.Refusal
import Inlay.Proofs.Rereading
import Inlay.Proofs.Termination
import Mathlib.Algebra.Ring.Parity
import Mathlib.Data.List.Induction

/-!
# Where Strings Close

A string closes at the first of its quotes that is not escaped, and a
backslash escapes the character behind it. Said of characters, this is a scan
with a flag that is passed along (`stringLength?`). The rule for strings has
no such flag. It takes whole fragments, and at each quote it looks back at all
the text it has taken and asks how that ends (`EscapedEnd`).

The two agree because a quote is always a fragment of its own, so that no
quote is passed unseen inside another fragment, and because the flag can be
read off the text: it is set exactly behind an odd number of backslashes. A
text of nothing but backslashes would be an exception, since the look back
wants some other character in front of them, but the text of a string begins
with its quote.

## Main definitions

* `stringLength?`: The scan of characters.
* `backslashes`: How many backslashes a text ends in.
* `EscapedEnd`: What the look back at the text asks for.

## Theorems

* `endsEscaped_iff`: What is computed at a quote is what is asked for.
* `endsEscaped_concat`: The flag is read off the text.
* `stringLength?_append`: Passing text without quotes.
* `scan_string`: A scan of fragments closes where the scan of characters does.
* `quotedString_closes`: Strings close at their first quote that is not
  escaped.
-/

namespace Inlay

/-! ### The scan of characters -/

/-- The length of a string behind its opening quote, its closing quote
    included, if it has one. A backslash escapes the character behind it,
    whatever that is; the flag tells whether the next one is escaped. -/
def stringLength? (quote : Char) : Bool → List Char → Option Nat
  | _, [] => none
  | true, _ :: rest => (stringLength? quote false rest).map (· + 1)
  | false, x :: rest =>
    if x = quote then some 1 else (stringLength? quote (x == '\\') rest).map (· + 1)

/-! ### Escaped ends -/

/-- How many backslashes a text ends in. -/
def backslashes (text : List Char) : Nat :=
  (text.reverse.takeWhile (· == '\\')).length

/-- A text that ends with some other character than a backslash, pairs of
    backslashes, and one backslash more. -/
def EscapedEnd (text : List Char) : Prop :=
  ∃ before x pairs, x ≠ '\\' ∧
    text = before ++ [x] ++ (List.replicate pairs ['\\', '\\']).flatten ++ ['\\']

theorem backslashes_concat (text : List Char) (x : Char) :
    backslashes (text ++ [x]) = if x = '\\' then backslashes text + 1 else 0 := by
  unfold backslashes
  rw [List.reverse_append, List.reverse_singleton, List.singleton_append, List.takeWhile_cons]
  by_cases hx : x = '\\'
  · rw [if_pos (beq_iff_eq.mpr hx), if_pos hx, List.length_cons]
  · rw [if_neg (fun h => hx (beq_iff_eq.mp h)), if_neg hx, List.length_nil]

/-- Pairs of backslashes and one more are an odd number of them. -/
theorem flatten_pairs (pairs : Nat) :
    (List.replicate pairs ['\\', '\\']).flatten ++ ['\\'] = List.replicate (pairs * 2 + 1) '\\' := by
  have hpair : ['\\', '\\'] = List.replicate 2 '\\' := rfl
  rw [hpair, List.flatten_replicate_replicate, List.replicate_succ']

theorem backslashes_append_replicate (before : List Char) {x : Char} (hx : x ≠ '\\') (n : Nat) :
    backslashes (before ++ [x] ++ List.replicate n '\\') = n := by
  induction n with
  | zero => rw [List.replicate_zero, List.append_nil, backslashes_concat, if_neg hx]
  | succ n ih => rw [List.replicate_succ', ← List.append_assoc, backslashes_concat, if_pos rfl, ih]

/-- A text is its backslashes, alone or behind some other character. -/
theorem eq_append_backslashes (text : List Char) :
    text = List.replicate (backslashes text) '\\' ∨
      ∃ before x, x ≠ '\\' ∧ text = before ++ [x] ++ List.replicate (backslashes text) '\\' := by
  induction text using List.reverseRecOn with
  | nil => exact Or.inl rfl
  | append_singleton text x ih =>
      rw [backslashes_concat]
      by_cases hx : x = '\\'
      · rw [if_pos hx, hx, List.replicate_succ']
        rcases ih with hall | ⟨before, y, hy, htext⟩
        · exact Or.inl (by rw [← hall])
        · refine Or.inr ⟨before, y, hy, ?_⟩
          rw [← List.append_assoc, ← htext]
      · rw [if_neg hx]
        exact Or.inr ⟨text, x, hx, (List.append_nil _).symm⟩

theorem endsEscaped_iff_backslashes (text : List Char) :
    Cursor.endsEscaped text = true ↔
      backslashes text % 2 = 1 ∧ backslashes text < text.length := by
  simp only [Cursor.endsEscaped, Bool.and_eq_true, beq_iff_eq, decide_eq_true_eq]
  exact Iff.rfl

/-- What is computed at a quote is what is asked for. -/
theorem endsEscaped_iff (text : List Char) : Cursor.endsEscaped text = true ↔ EscapedEnd text := by
  rw [endsEscaped_iff_backslashes]
  constructor
  · rintro ⟨hodd, hlt⟩
    rcases eq_append_backslashes text with hall | ⟨before, x, hx, htext⟩
    · have hlen := congrArg List.length hall
      rw [List.length_replicate] at hlen
      omega
    · have hhalf : backslashes text / 2 * 2 + 1 = backslashes text := by omega
      refine ⟨before, x, backslashes text / 2, hx, ?_⟩
      rw [List.append_assoc, flatten_pairs, hhalf]
      exact htext
  · rintro ⟨before, x, pairs, hx, htext⟩
    rw [List.append_assoc, flatten_pairs] at htext
    have hcount : backslashes text = pairs * 2 + 1 := by
      rw [htext, backslashes_append_replicate before hx]
    refine ⟨by omega, ?_⟩
    rw [hcount, htext, List.length_append, List.length_append, List.length_replicate,
      List.length_singleton]
    omega

section

variable {q : Char}

/-- Behind a quote, the character in front of the backslashes is there. -/
theorem endsEscaped_quote (hq : q ≠ '\\') (t : List Char) :
    Cursor.endsEscaped (q :: t) = true ↔ Odd (backslashes (q :: t)) := by
  have hlt : backslashes (q :: t) < (q :: t).length := by
    rcases eq_append_backslashes (q :: t) with hall | ⟨before, x, _, htext⟩
    · cases hn : backslashes (q :: t) with
      | zero => exact Nat.succ_pos _
      | succ n =>
          rw [hn, List.replicate_succ] at hall
          exact absurd (List.cons.inj hall).1 hq
    · have hlen := congrArg List.length htext
      rw [List.length_append, List.length_append, List.length_replicate,
        List.length_singleton] at hlen
      omega
  rw [endsEscaped_iff_backslashes, Nat.odd_iff]
  exact and_iff_left hlt

/-- The flag of the scan is read off the text: a character is escaped behind a
    backslash that is not escaped itself. -/
theorem endsEscaped_concat (hq : q ≠ '\\') (t : List Char) (x : Char) :
    Cursor.endsEscaped (q :: (t ++ [x])) = (!Cursor.endsEscaped (q :: t) && x == '\\') := by
  rw [Bool.eq_iff_iff, endsEscaped_quote hq, Bool.and_eq_true, Bool.not_eq_true',
    ← Bool.not_eq_true, endsEscaped_quote hq, beq_iff_eq, ← List.cons_append, backslashes_concat]
  by_cases hx : x = '\\'
  · rw [if_pos hx, Nat.odd_add_one]
    exact (and_iff_left hx).symm
  · rw [if_neg hx]
    exact iff_of_false (by decide) fun h => hx h.2

/-- The scan of characters passes text without quotes, whatever is escaped in
    it. -/
theorem stringLength?_append (hq : q ≠ '\\') {t : List Char} (ht : q ∉ t) (v u : List Char) :
    stringLength? q (Cursor.endsEscaped (q :: v)) (t ++ u) =
      (stringLength? q (Cursor.endsEscaped (q :: (v ++ t))) u).map (· + t.length) := by
  induction t generalizing v with
  | nil => simp only [List.nil_append, List.append_nil, List.length_nil, Nat.add_zero, Option.map_id']
  | cons x t ih =>
      have hx : x ≠ q := fun h => ht (h ▸ List.mem_cons_self)
      have hnext := ih (fun h => ht (List.mem_cons_of_mem x h)) (v ++ [x])
      rw [endsEscaped_concat hq, List.append_assoc, List.singleton_append] at hnext
      have hstep : stringLength? q (Cursor.endsEscaped (q :: v)) (x :: (t ++ u)) =
          (stringLength? q (!Cursor.endsEscaped (q :: v) && x == '\\') (t ++ u)).map (· + 1) := by
        cases Cursor.endsEscaped (q :: v) with
        | true => rfl
        | false => rw [stringLength?, if_neg hx]; rfl
      rw [List.cons_append, hstep, hnext, Option.map_map, List.length_cons]
      rfl

/-! ### The scan of fragments -/

/-- A scan of fragments closes a string where the scan of characters does, if
    no quote is hidden in a fragment. What has been taken before is the opening
    quote and some text. -/
theorem scan_string (hq : q ≠ '\\') {fs : List Fragment}
    (hfs : ∀ f ∈ fs, f.text = [q] ∨ q ∉ f.text) (v : List Char) :
    stringLength? q (Cursor.endsEscaped (q :: v)) (fs.flatMap Fragment.text) =
      match (scan (Cursor.closesString [q]) (q :: v) fs).2 with
      | [] => none
      | _ :: _ => some
        (((scan (Cursor.closesString [q]) (q :: v) fs).1.flatMap Fragment.text).length + 1) := by
  induction fs generalizing v with
  | nil => cases Cursor.endsEscaped (q :: v) <;> rfl
  | cons f fs ih =>
      have hmore := ih (fun f' hf' => hfs f' (List.mem_cons_of_mem f hf')) (v ++ f.text)
      rw [List.flatMap_cons, scan]
      by_cases hclose : Cursor.closesString [q] (q :: v) f = true
      · -- The fragment is a quote that is not escaped.
        rw [if_pos hclose]
        rw [Cursor.closesString, Bool.and_eq_true, decide_eq_true_eq, Bool.not_eq_true'] at hclose
        rw [hclose.1, hclose.2, List.singleton_append, stringLength?, if_pos rfl]
        rfl
      · rw [if_neg hclose]
        -- Everything else is passed: text without quotes, or an escaped quote.
        have hpass : stringLength? q (Cursor.endsEscaped (q :: v))
            (f.text ++ fs.flatMap Fragment.text) =
            (stringLength? q (Cursor.endsEscaped (q :: (v ++ f.text)))
              (fs.flatMap Fragment.text)).map (· + f.text.length) := by
          rcases hfs f List.mem_cons_self with hquote | hno
          · have hescaped : Cursor.endsEscaped (q :: v) = true := by
              rw [Cursor.closesString, hquote, decide_eq_true rfl, Bool.true_and,
                Bool.not_eq_true', Bool.not_eq_false] at hclose
              exact hclose
            rw [hquote, endsEscaped_concat hq, hescaped, List.singleton_append]
            rfl
          · exact stringLength?_append hq hno v _
        rw [hpass, hmore]
        cases hleft : (scan (Cursor.closesString [q]) (q :: (v ++ f.text)) fs).2 with
        | nil => simp only [List.cons_append, hleft, Option.map_none]
        | cons l left =>
            simp only [List.cons_append, hleft, Option.map_some, List.flatMap_cons,
              List.length_append]
            congr 1
            omega

end

/-! ### Strings of a source -/

/-- The cursor at the start of a source. -/
def Cursor.ofSource (s : List Char) : Cursor :=
  Cursor.ofTexts ((tokenize s).map Fragment.text)

namespace Parser

variable {c c' : Cursor}

theorem quotedString_eq_ok_iff {t : List Char} :
    Parser.quotedString c = .ok t c' ↔ Rule.quotedString c = .ok t c' := by
  rw [Parser.quotedString, Parser.run, settle_eq_ok_iff]

theorem quotedString_eq_error_iff {f : Failure} :
    (∃ c', Parser.quotedString c = .error f c') ↔ Refuses Rule.quotedString c f := by
  simp only [Parser.quotedString, Parser.run, settle_eq_error_iff]
  rfl

end Parser

/-- A quote is a fragment of its own, wherever it stands. -/
theorem tokenize_quote {q : Char} (hq : q = '"' ∨ q = '\'') (rest : List Char) :
    tokenize (q :: rest) = ⟨q, []⟩ :: tokenize rest := by
  rcases hq with rfl | rfl
  · exact tokenize_structural (by decide) (Marker.leading?_eq_none (by decide) rest)
  · exact tokenize_structural (by decide) (Marker.leading?_eq_none (by decide) rest)

/-- The scan behind an opening quote ends before the end of the source exactly
    if the scan of characters finds the closing quote, and then in front of it. -/
theorem takeQuoted_closes {q : Char} (hq : q = '"' ∨ q = '\'') {c : Cursor} {rest : List Char}
    (hc : c.unread = tokenize rest) :
    stringLength? q false rest =
      if (c.takeQuoted [q]).2.eof then none else some (c.takeQuoted [q]).1.length := by
  have hslash : q ≠ '\\' := by rcases hq with rfl | rfl <;> decide
  have halone : ∀ f ∈ tokenize rest, f.text = [q] ∨ q ∉ f.text := by
    rcases hq with rfl | rfl
    · exact tokenize_alone (by decide) (by decide) rest
    · exact tokenize_alone (by decide) (by decide) rest
  have hstart : Cursor.endsEscaped [q] = false := by rcases hq with rfl | rfl <;> decide
  have hscan := scan_string hslash halone []
  rcases Cursor.takeQuotedFrom_eq_scan [q] [q] c.unread c.index c.loc with ⟨htext, hunread, _⟩
  rw [hstart, tokenize_text] at hscan
  rw [hc] at htext hunread
  rw [hscan, Cursor.takeQuoted, hc, Cursor.eof, hunread, htext]
  cases (scan (Cursor.closesString [q]) [q] (tokenize rest)).2 with
  | nil => rfl
  | cons l left =>
      simp only [List.isEmpty_cons, Bool.false_eq_true, if_false, List.singleton_append,
        List.length_cons]

/-- A string is the text up to and including the first of its quotes that is
    not escaped, and reading goes on right behind it. Without such a quote it is
    not terminated, which is told of its opening quote. Whether a quote is
    escaped is decided by the text in front of it: by whether that ends in an
    odd number of backslashes. -/
theorem quotedString_closes (q : Char) (rest : List Char) (hq : q = '"' ∨ q = '\'') :
    (match stringLength? q false rest with
      | some n => ∃ c', Parser.quotedString (Cursor.ofSource (q :: rest)) =
            .ok (q :: rest.take n) c' ∧
          c'.unread = tokenize (rest.drop n) ∧ c'.loc = Location.behind (q :: rest.take n)
      | none => ∃ c', Parser.quotedString (Cursor.ofSource (q :: rest)) =
            .error ⟨.unterminatedString, {}⟩ c') ∧
      ∀ t, (Cursor.endsEscaped (q :: t) = true ↔ EscapedEnd (q :: t)) ∧
        (EscapedEnd (q :: t) ↔ Odd (backslashes (q :: t))) := by
  have hslash : q ≠ '\\' := by rcases hq with rfl | rfl <;> decide
  refine ⟨?_, fun t => ⟨endsEscaped_iff _, ?_⟩⟩
  · generalize hc : Cursor.ofSource (q :: rest) = c
    have hplaced : c.Placed (q :: rest) := hc ▸ Cursor.placed_start (q :: rest)
    have hunread : c.unread = tokenize (q :: rest) := hc ▸ Cursor.unread_ofTexts (q :: rest)
    have hlexed : c.Lexed := Cursor.lexed_of_unread hunread
    have hloc : c.loc = {} := hc ▸ rfl
    have hrest : c.rest = q :: rest := Cursor.rest_of_unread hunread
    rw [tokenize_quote hq] at hunread
    rcases Cursor.of_unread_cons hunread with ⟨heof, hcur, hadv⟩
    have hat : c.isAt quotes = true := by
      rw [Cursor.isAt, heof, hcur]
      rcases hq with rfl | rfl <;> decide
    have hcur : c.current = [q] := hcur
    rw [takeQuoted_closes hq hadv]
    cases hend : (c.advance.takeQuoted [q]).2.eof with
    | true =>
        refine Parser.quotedString_eq_error_iff.mpr (Rule.quotedString_refuses_iff.mpr ?_)
        exact Or.inr ⟨hat, by rw [hcur]; exact hend, by rw [hloc]⟩
    | false =>
        have hread := Rule.quotedString_eq_ok_iff.mpr ⟨hat, by rw [hcur]; exact hend, rfl, rfl⟩
        rw [hcur, Cursor.current_takeQuoted hend] at hread
        -- What was taken is as long as the scan says, so it is that much of the source.
        have hsplit := Rule.rest_quotedString hread
        rw [hrest] at hsplit
        have htake : q :: rest.take (c.advance.takeQuoted [q]).1.length =
            (c.advance.takeQuoted [q]).1 ++ [q] := by
          rw [← List.take_succ_cons, ← hsplit, List.take_left' (by rw [List.length_append]; rfl)]
        have hdrop : rest.drop (c.advance.takeQuoted [q]).1.length =
            (c.advance.takeQuoted [q]).2.advance.rest := by
          rw [← List.drop_succ_cons, ← hsplit, List.drop_left' (by rw [List.length_append]; rfl)]
        refine ⟨_, Parser.quotedString_eq_ok_iff.mpr (htake ▸ hread), ?_, ?_⟩
        · rw [hdrop]
          exact (Rule.quotedString_again hread hlexed).1
        · rcases (hplaced.verbatim (Verbatim.string (z := .source) hread)).place with
            ⟨before, hs, hbehind⟩
          have hbefore : before = (c.advance.takeQuoted [q]).1 ++ [q] :=
            List.append_cancel_right (hs.symm.trans hsplit.symm)
          rw [hbehind, hbefore, htake]
  · rw [← endsEscaped_iff, endsEscaped_quote hslash]

/-- A string with an escaped quote, a quote of the other kind and an escaped
    backslash, and one whose only other quote is escaped. -/
theorem quotedString_closes_escaped :
    (∃ c', Parser.quotedString
          (Cursor.ofSource ['"', 'a', '\\', '"', '\'', '\\', '\\', '"', 'b', '"']) =
        .ok ['"', 'a', '\\', '"', '\'', '\\', '\\', '"'] c' ∧
      c'.unread = tokenize ['b', '"'] ∧
      c'.loc = Location.behind ['"', 'a', '\\', '"', '\'', '\\', '\\', '"']) ∧
    ∃ c', Parser.quotedString (Cursor.ofSource ['"', '\\', '"']) =
      .error ⟨.unterminatedString, {}⟩ c' :=
  ⟨(quotedString_closes '"' ['a', '\\', '"', '\'', '\\', '\\', '"', 'b', '"'] (Or.inl rfl)).1,
    (quotedString_closes '"' ['\\', '"'] (Or.inl rfl)).1⟩

end Inlay
