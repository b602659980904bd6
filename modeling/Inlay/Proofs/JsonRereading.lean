import Inlay.Proofs.Coercion
import Inlay.Value.Json

/-!
# Reading JSON Back

What is written as JSON is read as what it was. This holds of the values that
JSON has forms of its own for, as long as no object names an entry twice,
whatever characters their texts consist of.

In a string every character stands for one or two units of 16 bits. The reader
takes the units out of the escapes first and joins surrogates afterwards, so
this is how the argument goes too. It cannot join what belongs to different
characters, since no character is half of a pair.

A number ends where something follows that belongs to no number. Behind a value
there is only a comma, a closing bracket or nothing.

The readers stop at a bound on the nesting and at a limit on the digits of an
integer. Of the first, no value needs more than its text has characters. The
second is the one that has been kept to in writing, or a higher one.

## Main definitions

* `Value.Portable`: Values that JSON has forms for.
* `Json.Escape`: The ways in which a character is written in a string.
* `Json.units`: What a character is as units of 16 bits.
* `Json.Closes`: What may follow a value.
* `Json.ReadsBack`: A value is read as what it was.

## Theorems

* `Json.stringBody?_escaped`: A string is read back.
* `Json.numeral_toString`: An integer is read back.
* `Json.items_joined`, `Json.members_joined`: So is what is in lists and
  objects.
* `Value.Portable.readsBack`: So is every value that JSON has a form for.
* `Json.readWithin_spelled`: A text that holds such a value and nothing else.
-/

namespace Inlay

/-- Values that JSON has forms of its own for. Objects name no entry twice, and
    integers have few enough digits to be written. -/
inductive Value.Portable : Value → Prop
  | null : Portable null
  | bool (b : Bool) : Portable (bool b)
  | int {i : Int} (short : Numeral.writable i = true) : Portable (int i)
  | str (s : String) : Portable (str s)
  | list {items : List Value} (inner : ∀ v ∈ items, v.Portable) : Portable (list items)
  | object {entries : Entries} (distinct : entries.names.Nodup)
      (inner : ∀ e ∈ entries, e.2.Portable) : Portable (object entries)

/-! ### Texts in a row -/

theorem joined_cons {mark s : List Char} {ss : List (List Char)} (h : ss ≠ []) :
    joined mark (s :: ss) = s ++ mark ++ joined mark ss := by
  cases ss with
  | nil => exact absurd rfl h
  | cons t ss => rfl

theorem exists_joined_cons (mark s : List Char) (ss : List (List Char)) :
    ∃ t, joined mark (s :: ss) = s ++ t := by
  cases ss with
  | nil => exact ⟨[], (List.append_nil s).symm⟩
  | cons t ss => exact ⟨mark ++ joined mark (t :: ss), List.append_assoc _ _ _⟩

theorem mem_joined {mark : List Char} {ss : List (List Char)} {c : Char} (h : c ∈ joined mark ss) :
    c ∈ mark ∨ ∃ s ∈ ss, c ∈ s := by
  induction ss with
  | nil => cases h
  | cons s ss ih =>
      by_cases hss : ss = []
      · subst hss
        exact Or.inr ⟨s, List.mem_cons_self, h⟩
      · rw [joined_cons hss, List.mem_append, List.mem_append] at h
        rcases h with (h | h) | h
        · exact Or.inr ⟨s, List.mem_cons_self, h⟩
        · exact Or.inl h
        · exact (ih h).imp_right fun ⟨t, ht, hc⟩ => ⟨t, List.mem_cons_of_mem s ht, hc⟩

/-! ### Hexadecimal digits -/

namespace Text

theorem hex_succ (w n : Nat) : hex (w + 2) n = hex (w + 1) (n / 16) ++ [(n % 16).digitChar] := by
  by_cases h : n < 16
  · simp only [hex, Nat.div_eq_of_lt h, Nat.mod_eq_of_lt h, Nat.toDigits_zero,
      Nat.toDigits_of_lt_base h, List.length_singleton, Nat.add_sub_cancel]
    rw [show w + 2 - 1 = w + 1 from rfl, List.replicate_succ']
  · rw [hex, hex, Nat.toDigits_of_base_le (by decide) (Nat.le_of_not_lt h), List.length_append,
      List.length_singleton, Nat.add_sub_add_right (w + 1) 1, List.append_assoc]

theorem hex_one {n : Nat} (h : n < 16) : hex 1 n = [n.digitChar] := by
  simp only [hex, Nat.toDigits_of_lt_base h, List.length_singleton]
  rfl

theorem hex_four {n : Nat} (h : n < 0x10000) :
    hex 4 n = [(n / 16 / 16 / 16).digitChar, (n / 16 / 16 % 16).digitChar,
      (n / 16 % 16).digitChar, (n % 16).digitChar] := by
  rw [hex_succ, hex_succ, hex_succ, hex_one (by omega)]
  rfl

end Text

namespace Json

theorem hexDigit?_digitChar {d : Nat} (h : d < 16) : hexDigit? d.digitChar = some d := by
  have hall : ∀ d < 16, hexDigit? d.digitChar = some d := by decide
  exact hall d h

/-! ### Strings -/

/-- The ways in which a character is written in a string: by a letter, as
    itself, by its unit, or by two units. -/
inductive Escape (c : Char) : List Char → Prop
  | short {e : Char} (h : shortEscape? e = some c) : Escape c ['\\', e]
  | plain (hquote : c ≠ '"') (hslash : c ≠ '\\') (hmin : 0x20 ≤ c.toNat) (hmax : c.toNat < 0x7F) :
      Escape c [c]
  | unit (h : c.toNat < 0x10000) : Escape c (unit c.toNat)
  | pair (h : 0x10000 ≤ c.toNat) :
      Escape c (Json.unit (0xD800 + (c.toNat - 0x10000) / 0x400) ++
        Json.unit (0xDC00 + (c.toNat - 0x10000) % 0x400))

theorem escape_escaped (c : Char) : Escape c (escaped c) := by
  unfold escaped
  split
  · rename_i h
    rcases (by simpa using h : c = '"' ∨ c = '\\') with rfl | rfl
    · exact .short rfl
    · exact .short rfl
  rename_i hmark
  simp only [Bool.or_eq_true, decide_eq_true_eq, not_or] at hmark
  iterate 5
    split
    · rename_i h
      subst h
      exact .short rfl
  split
  · rename_i h
    simp only [Bool.and_eq_true, decide_eq_true_eq] at h
    exact .plain hmark.1 hmark.2 h.1 h.2
  split
  · exact .unit ‹_›
  · exact .pair (Nat.le_of_not_lt ‹_›)

/-- What a character is as units of 16 bits. -/
def units (c : Char) : List Nat :=
  if c.toNat < 0x10000 then [c.toNat]
  else [0xD800 + (c.toNat - 0x10000) / 0x400, 0xDC00 + (c.toNat - 0x10000) % 0x400]

theorem toNat_lt (c : Char) : c.toNat < 0x110000 := by
  rcases c.valid with h | h
  · exact Nat.lt_trans h (by decide)
  · exact h.2

theorem stringUnits?_unit {n : Nat} (h : n < 0x10000) (t : List Char) :
    stringUnits? (unit n ++ t) = (stringUnits? t).map fun p => (n :: p.1, p.2) := by
  have hunit : unit? (n / 16 / 16 / 16).digitChar (n / 16 / 16 % 16).digitChar
      (n / 16 % 16).digitChar (n % 16).digitChar = some n := by
    rw [unit?, hexDigit?_digitChar (by omega), hexDigit?_digitChar (by omega),
      hexDigit?_digitChar (by omega), hexDigit?_digitChar (by omega)]
    simp only [Option.bind_eq_bind, Option.bind_some, Option.pure_def, Option.some.injEq]
    omega
  rw [unit, Text.hex_four h]
  simp only [List.cons_append, List.nil_append]
  rw [stringUnits?, hunit]
  cases stringUnits? t <;> rfl

theorem stringUnits?_short {c e : Char} (h : shortEscape? e = some c) (t : List Char) :
    stringUnits? ('\\' :: e :: t) = (stringUnits? t).map fun p => (c.toNat :: p.1, p.2) := by
  have hunit : e ≠ 'u' := by
    rintro rfl
    cases h
  rw [stringUnits?, h]
  · cases stringUnits? t <;> rfl
  · intro _ _ _ _ _ heq
    exact absurd heq hunit

theorem stringUnits?_plain {c : Char} (hquote : c ≠ '"') (hslash : c ≠ '\\')
    (hmin : 0x20 ≤ c.toNat) (t : List Char) :
    stringUnits? (c :: t) = (stringUnits? t).map fun p => (c.toNat :: p.1, p.2) := by
  rw [stringUnits?, if_neg (Nat.not_lt.mpr hmin)]
  · cases stringUnits? t <;> rfl
  · exact hquote
  · simp [hslash]
  · simp [hslash]

theorem lt_of_shortEscape? {c e : Char} (h : shortEscape? e = some c) :
    0x20 ≤ e.toNat ∧ e.toNat < 0x7F ∧ c.toNat < 0x10000 := by
  unfold shortEscape? at h
  split at h
  · rename_i he
    simp only [Option.some.injEq] at h
    subst h
    rcases (by simpa [or_assoc] using he : e = '"' ∨ e = '\\' ∨ e = '/') with rfl | rfl | rfl <;>
      decide
  iterate 5
    split at h
    · rename_i he
      simp only [Option.some.injEq] at h
      subst h he
      decide
  cases h

/-- The units of a character are read off however it is written. -/
theorem stringUnits?_escaped (c : Char) (t : List Char) :
    stringUnits? (escaped c ++ t) = (stringUnits? t).map fun p => (units c ++ p.1, p.2) := by
  have hmax := toNat_lt c
  have hescape := escape_escaped c
  generalize escaped c = s at hescape ⊢
  unfold units
  cases hescape with
  | short h =>
      rw [if_pos (lt_of_shortEscape? h).2.2]
      exact stringUnits?_short h t
  | plain hquote hslash hmin hmax =>
      rw [if_pos (by omega)]
      exact stringUnits?_plain hquote hslash hmin t
  | unit h =>
      rw [if_pos h]
      exact stringUnits?_unit h t
  | pair h =>
      rw [if_neg (Nat.not_lt.mpr h), List.append_assoc, stringUnits?_unit (by omega),
        stringUnits?_unit (by omega), Option.map_map]
      rfl

theorem charOf_toNat (c : Char) : charOf c.toNat = c := by
  have hvalid : c.toNat.isValidChar := c.valid
  rw [charOf, if_pos hvalid, Char.ofNat_toNat]

/-- The units of a character are joined to it, whatever comes behind them. -/
theorem joinPairs_units (c : Char) (us : List Nat) :
    joinPairs (units c ++ us) = c :: joinPairs us := by
  have hmax := toNat_lt c
  unfold units
  by_cases h : c.toNat < 0x10000
  · rw [if_pos h, List.singleton_append]
    cases us with
    | nil => exact congrArg ([·]) (charOf_toNat c)
    | cons lo us =>
        -- A character is never half of a pair.
        have hhalf : ¬ (0xD800 ≤ c.toNat ∧ c.toNat < 0xDC00) := by
          rcases c.valid with hc | hc
          · exact fun hhalf => Nat.not_lt.mpr hhalf.1 hc
          · exact fun hhalf => Nat.lt_asymm hhalf.2 (Nat.lt_trans (by decide) hc.1)
        rw [joinPairs, if_neg, charOf_toNat]
        simp only [Bool.and_eq_true, decide_eq_true_eq]
        exact fun hpair => hhalf hpair.1.1
  · rw [if_neg h, List.cons_append, List.singleton_append, joinPairs, if_pos]
    · have hjoined : 0x10000 + (0xD800 + (c.toNat - 0x10000) / 0x400 - 0xD800) * 0x400 +
          (0xDC00 + (c.toNat - 0x10000) % 0x400 - 0xDC00) = c.toNat := by
        omega
      rw [hjoined, charOf_toNat]
    · simp only [Bool.and_eq_true, decide_eq_true_eq]
      omega

/-- A string is read back. -/
theorem stringBody?_escaped (s rest : List Char) :
    stringBody? (s.flatMap escaped ++ '"' :: rest) = some (String.ofList s, rest) := by
  have hjoined : joinPairs (s.flatMap units) = s := by
    induction s with
    | nil => rw [List.flatMap_nil, joinPairs]
    | cons c s ih => rw [List.flatMap_cons, joinPairs_units, ih]
  have hunits : stringUnits? (s.flatMap escaped ++ '"' :: rest) = some (s.flatMap units, rest) := by
    clear hjoined
    induction s with
    | nil => rw [List.flatMap_nil, List.nil_append, stringUnits?, List.flatMap_nil]
    | cons c s ih =>
        rw [List.flatMap_cons, List.append_assoc, stringUnits?_escaped, ih, Option.map_some,
          List.flatMap_cons]
  rw [stringBody?, hunits]
  simp only [Option.bind_eq_bind, Option.bind_some, Option.pure_def, hjoined]

theorem string_append (s rest : List Char) :
    string s ++ rest = '"' :: (s.flatMap escaped ++ '"' :: rest) := by
  rw [string, List.append_assoc, List.singleton_append, List.cons_append]

/-! ### Integers -/

/-- What may follow a value. -/
def Closes (rest : List Char) : Prop :=
  ∀ c ∈ rest.head?, c = ',' ∨ c = ']' ∨ c = '}'

variable {rest : List Char} {limit : Nat}

theorem closes_nil : Closes [] :=
  fun _ hc => absurd hc (Option.not_mem_none _)

theorem closes_cons {c : Char} (hc : c ∈ [',', ']', '}']) (rest : List Char) :
    Closes (c :: rest) := by
  intro d hd
  simp only [List.head?_cons, Option.mem_def, Option.some.injEq] at hd
  simpa [← hd] using hc

/-- Behind an integer neither a digit follows, nor a fraction, nor an exponent. -/
theorem Closes.ends (h : Closes rest) :
    rest.head?.all (fun c => !c.isDigit) = true ∧ fraction rest = ([], rest) ∧
      exponent rest = (none, rest) := by
  cases rest with
  | nil => exact ⟨rfl, rfl, rfl⟩
  | cons c rest => rcases h c rfl with rfl | rfl | rfl <;> exact ⟨rfl, rfl, rfl⟩

theorem isDigit_toDigits {n : Nat} : ∀ c ∈ Nat.toDigits 10 n, c.isDigit = true :=
  fun _ hc => Nat.isDigit_of_mem_toDigits (by decide) (by decide) hc

theorem head?_toDigits {n : Nat} (h : 0 < n) : (Nat.toDigits 10 n).head? ≠ some '0' := by
  induction n using Nat.strongRecOn with
  | _ n ih =>
  by_cases hn : n < 10
  · rw [Nat.toDigits_of_lt_base hn, List.head?_cons, ne_eq, Option.some.injEq,
      Nat.digitChar_eq_zero]
    exact Nat.pos_iff_ne_zero.mp h
  · rw [Nat.toDigits_of_base_le (by decide) (Nat.le_of_not_lt hn),
      List.head?_append_of_ne_nil _ Nat.toDigits_ne_nil]
    exact ih (n / 10) (by omega) (by omega)

/-- The digits of a number are taken whole. A zero stands on its own, and no
    other number begins with one. -/
theorem whole_toDigits (n : Nat) (hrest : Closes rest) :
    whole (Nat.toDigits 10 n ++ rest) = (Nat.toDigits 10 n, rest) := by
  by_cases h : n = 0
  · subst h
    rfl
  · exact whole_append isDigit_toDigits (head?_toDigits (Nat.pos_of_ne_zero h)) hrest.ends.1

theorem toList_toString_ofNat (n : Nat) : (toString (Int.ofNat n)).toList = Nat.toDigits 10 n :=
  Nat.toList_repr

theorem toList_toString_negSucc (n : Nat) :
    (toString (Int.negSucc n)).toList = '-' :: Nat.toDigits 10 (n + 1) := by
  have h : toString (Int.negSucc n) = "-" ++ Nat.repr (n + 1) := rfl
  rw [h, String.toList_append, Nat.toList_repr]
  rfl

/-- The integer that a sign and the digits of a number make. -/
theorem numeral_of_digits {s : List Char} {negative : Bool} {n : Nat}
    (hs : unsigned s = (negative, Nat.toDigits 10 n ++ rest))
    (hlimit : (Nat.toDigits 10 n).length ≤ limit) (hrest : Closes rest) :
    numeral limit s = .ok (.int (if negative then -n else n), rest) := by
  have hdigits : Numeral.ofDigits (Nat.toDigits 10 n) = n := Nat.ofDigitChars_ten_toDigits
  have hne : Nat.toDigits 10 n ≠ [] := Nat.toDigits_ne_nil
  rcases hrest.ends with ⟨_, hfraction, hexponent⟩
  rw [numeral, hs]
  simp only [whole_toDigits n hrest, hfraction, hexponent, List.isEmpty_nil, Option.isNone_none,
    Bool.and_self, if_true]
  rw [if_neg (Nat.not_lt.mpr hlimit), hdigits]

/-- An integer is read back. -/
theorem numeral_toString (i : Int) (hlimit : (Nat.toDigits 10 i.natAbs).length ≤ limit)
    (hrest : Closes rest) : numeral limit ((toString i).toList ++ rest) = .ok (.int i, rest) := by
  cases i with
  | ofNat n =>
      rw [toList_toString_ofNat, numeral_of_digits (n := n)
        (unsigned_of_digits isDigit_toDigits Nat.toDigits_ne_nil) hlimit hrest]
      rfl
  | negSucc n =>
      rw [toList_toString_negSucc, List.cons_append, numeral_of_digits rfl hlimit hrest]
      rfl

/-- An integer begins with a digit, or with a sign and a digit. -/
theorem toString_begins (i : Int) :
    ∃ d ds, d.isDigit = true ∧
      ((toString i).toList = d :: ds ∨ (toString i).toList = '-' :: d :: ds) := by
  rcases hdigits : Nat.toDigits 10 i.natAbs with _ | ⟨d, ds⟩
  · exact absurd hdigits Nat.toDigits_ne_nil
  refine ⟨d, ds, isDigit_toDigits d (by rw [hdigits]; exact List.mem_cons_self), ?_⟩
  cases i with
  | ofNat n => exact Or.inl ((toList_toString_ofNat n).trans hdigits)
  | negSucc n => exact Or.inr ((toList_toString_negSucc n).trans (congrArg _ hdigits))

/-- An integer has no name. Only one name begins with a sign, and what follows
    it there is no digit. -/
theorem scalar_toString (i : Int) (rest : List Char) :
    scalar limit ((toString i).toList ++ rest) = numeral limit ((toString i).toList ++ rest) := by
  rcases toString_begins i with ⟨d, ds, hd, h | h⟩
  · rw [h, List.cons_append, scalar_of_digit hd]
  · have hletter : 'I' ≠ d := (ne_of_digit hd rfl).symm
    rw [h, List.cons_append, List.cons_append, scalar]
    simp [named, hletter]

/-! ### Values -/

/-- A value is read as what it was, whatever comes behind it. -/
def ReadsBack (v : Value) : Prop :=
  ∀ (limit n : Nat) (rest : List Char), Numeral.digitLimit ≤ limit → (spelled v).length ≤ n →
    Closes rest → value limit n (spelled v ++ rest) = .ok (v, rest)

variable {n : Nat} {v : Value}

/-- No value begins with blank space or like the end of a list. -/
theorem spelled_begins (h : v.Portable) :
    ∃ c t, spelled v = c :: t ∧ c ∉ [' ', '\t', '\n', '\r'] ∧ c ≠ ']' := by
  cases h with
  | null => exact ⟨'n', _, rfl, by decide, by decide⟩
  | bool b => cases b <;> exact ⟨_, _, rfl, by decide, by decide⟩
  | @int i _ =>
      rcases toString_begins i with ⟨d, ds, hd, h | h⟩
      · exact ⟨d, ds, h, by simp [ne_of_digit hd], ne_of_digit hd rfl⟩
      · exact ⟨'-', d :: ds, h, by decide, by decide⟩
  | str s => exact ⟨'"', _, rfl, by decide, by decide⟩
  | list inner => exact ⟨'[', _, rfl, by decide, by decide⟩
  | object distinct inner => exact ⟨'{', _, rfl, by decide, by decide⟩

theorem trimStart_spelled (h : v.Portable) (rest : List Char) :
    trimStart (spelled v ++ rest) = spelled v ++ rest := by
  rcases spelled_begins h with ⟨c, t, heq, hc, _⟩
  rw [heq, List.cons_append, trimStart_cons hc]

theorem trimStart_blank (s : List Char) : trimStart (' ' :: s) = trimStart s :=
  rfl

theorem spelledItems_begins (h : v.Portable) (vs : List Value) :
    ∃ c t, joined [',', ' '] (spelledItems (v :: vs)) = c :: t ∧ c ∉ [' ', '\t', '\n', '\r'] ∧
      c ≠ ']' := by
  rcases spelled_begins h with ⟨c, t, heq, hc⟩
  rcases exists_joined_cons [',', ' '] (spelled v) (spelledItems vs) with ⟨t', ht'⟩
  exact ⟨c, t ++ t', by rw [spelledItems, ht', heq, List.cons_append], hc⟩

theorem spelledEntries_begins (e : String × Value) (entries : Entries) :
    ∃ t, joined [',', ' '] (spelledEntries (e :: entries)) = '"' :: t := by
  rcases e with ⟨name, v⟩
  rcases exists_joined_cons [',', ' '] (string name.toList ++ ':' :: ' ' :: spelled v)
    (spelledEntries entries) with ⟨t, ht⟩
  rw [spelledEntries, ht, List.append_assoc, string_append]
  exact ⟨_, rfl⟩

theorem items_last (hv : ReadsBack v) (hlimit : Numeral.digitLimit ≤ limit)
    (hn : (spelled v).length ≤ n) :
    items limit (n + 1) (spelled v ++ ']' :: rest) = .ok ([v], rest) := by
  rw [items, hv _ _ _ hlimit hn (closes_cons (by decide) rest)]
  rfl

theorem items_more (hv : ReadsBack v) (hlimit : Numeral.digitLimit ≤ limit)
    (hn : (spelled v).length ≤ n) {more : List Char} (hmore : trimStart more = more)
    {vs : List Value} (hvs : items limit n more = .ok (vs, rest)) :
    items limit (n + 1) (spelled v ++ ',' :: ' ' :: more) = .ok (v :: vs, rest) := by
  rw [items, hv _ _ _ hlimit hn (closes_cons (by decide) _)]
  have hcomma : trimStart (',' :: ' ' :: more) = ',' :: ' ' :: more := rfl
  simp only [bind, Except.bind, hcomma, trimStart_blank, hmore, hvs]
  rfl

/-- The items of a list are read back, each with one level less than the one
    in front of it. -/
theorem items_joined {vs : List Value} (hne : vs ≠ [])
    (hvs : ∀ v ∈ vs, v.Portable ∧ ReadsBack v)
    (hlimit : Numeral.digitLimit ≤ limit)
    (hn : (joined [',', ' '] (spelledItems vs)).length < n) :
    items limit n (joined [',', ' '] (spelledItems vs) ++ ']' :: rest) = .ok (vs, rest) := by
  induction vs generalizing n with
  | nil => exact absurd rfl hne
  | cons v vs ih =>
      rcases n with _ | n
      · exact absurd hn (Nat.not_lt_zero _)
      rcases List.forall_mem_cons.mp hvs with ⟨hv, hvs'⟩
      cases vs with
      | nil => exact items_last hv.2 hlimit (Nat.le_of_lt_succ hn)
      | cons w ws =>
          have hmore : spelledItems (w :: ws) ≠ [] := List.cons_ne_nil _ _
          rw [spelledItems, joined_cons hmore] at hn ⊢
          simp only [List.length_append, List.length_cons, List.length_nil] at hn
          have htrim : trimStart (joined [',', ' '] (spelledItems (w :: ws)) ++ ']' :: rest) =
              joined [',', ' '] (spelledItems (w :: ws)) ++ ']' :: rest := by
            rcases spelledItems_begins (hvs' w List.mem_cons_self).1 ws with ⟨c, t, ht, hc, _⟩
            rw [ht, List.cons_append, trimStart_cons hc]
          have hrec := ih (List.cons_ne_nil w ws) hvs' (n := n) (by omega)
          rw [List.append_assoc, List.append_assoc]
          exact items_more hv.2 hlimit (by omega) htrim hrec

theorem members_last {name : String} (hp : v.Portable) (hv : ReadsBack v)
    (hlimit : Numeral.digitLimit ≤ limit) (hn : (spelled v).length ≤ n) :
    members limit (n + 1) (string name.toList ++ ':' :: ' ' :: (spelled v ++ '}' :: rest)) =
      .ok ([(name, v)], rest) := by
  have hcolon : ∀ s, trimStart (':' :: s) = ':' :: s := fun _ => rfl
  have hbrace : trimStart ('}' :: rest) = '}' :: rest := rfl
  have hread := hv _ _ _ hlimit hn (closes_cons (c := '}') (by decide) rest)
  rw [string_append, members]
  simp only [stringBody?_escaped, hcolon, trimStart_blank, trimStart_spelled hp, hread, bind,
    Except.bind, hbrace, String.ofList_toList]
  rfl

theorem members_more {name : String} (hp : v.Portable) (hv : ReadsBack v)
    (hlimit : Numeral.digitLimit ≤ limit) (hn : (spelled v).length ≤ n) {more : List Char}
    (hmore : trimStart more = more) {pairs : List (String × Value)}
    (hpairs : members limit n more = .ok (pairs, rest)) :
    members limit (n + 1) (string name.toList ++ ':' :: ' ' :: (spelled v ++ ',' :: ' ' :: more)) =
      .ok ((name, v) :: pairs, rest) := by
  have hcolon : ∀ s, trimStart (':' :: s) = ':' :: s := fun _ => rfl
  have hcomma : trimStart (',' :: ' ' :: more) = ',' :: ' ' :: more := rfl
  have hread := hv _ _ _ hlimit hn (closes_cons (c := ',') (by decide) (' ' :: more))
  rw [string_append, members]
  simp only [stringBody?_escaped, hcolon, trimStart_blank, trimStart_spelled hp, hread, bind,
    Except.bind, hcomma, hmore, hpairs, String.ofList_toList]
  rfl

/-- The members of an object are read back in the same way. -/
theorem members_joined {entries : Entries} (hne : entries ≠ [])
    (hentries : ∀ e ∈ entries, e.2.Portable ∧ ReadsBack e.2)
    (hlimit : Numeral.digitLimit ≤ limit)
    (hn : (joined [',', ' '] (spelledEntries entries)).length < n) :
    members limit n (joined [',', ' '] (spelledEntries entries) ++ '}' :: rest) =
      .ok (entries, rest) := by
  induction entries generalizing n with
  | nil => exact absurd rfl hne
  | cons e entries ih =>
      rcases e with ⟨name, v⟩
      rcases n with _ | n
      · exact absurd hn (Nat.not_lt_zero _)
      have hv : v.Portable ∧ ReadsBack v := hentries (name, v) List.mem_cons_self
      have hentries' := (List.forall_mem_cons.mp hentries).2
      cases entries with
      | nil =>
          simp only [spelledEntries, joined, List.length_append, List.length_cons] at hn
          rw [spelledEntries, spelledEntries, joined, List.append_assoc, List.cons_append,
            List.cons_append]
          exact members_last hv.1 hv.2 hlimit (by omega)
      | cons d ds =>
          have hmore : spelledEntries (d :: ds) ≠ [] := List.cons_ne_nil _ _
          rw [spelledEntries, joined_cons hmore] at hn ⊢
          simp only [List.length_append, List.length_cons, List.length_nil] at hn
          have htrim : trimStart (joined [',', ' '] (spelledEntries (d :: ds)) ++ '}' :: rest) =
              joined [',', ' '] (spelledEntries (d :: ds)) ++ '}' :: rest := by
            rcases spelledEntries_begins d ds with ⟨t, ht⟩
            rw [ht]
            rfl
          have hrec := ih (List.cons_ne_nil d ds) hentries' (n := n) (by omega)
          simp only [List.append_assoc, List.cons_append, List.nil_append]
          exact members_more hv.1 hv.2 hlimit (by omega) htrim hrec

theorem readsBack_of_scalar {c : Char} {t : List Char} (hv : spelled v = c :: t)
    (hc : c ∉ ['"', '[', '{'])
    (hscalar : ∀ {limit : Nat} {rest : List Char}, Numeral.digitLimit ≤ limit → Closes rest →
      scalar limit (spelled v ++ rest) = .ok (v, rest)) : ReadsBack v := by
  intro limit n rest hlimit hn hrest
  rcases n with _ | n
  · rw [hv] at hn
    exact absurd hn (Nat.not_succ_le_zero _)
  · rw [← hscalar hlimit hrest, hv, List.cons_append, value_of_head hc]

theorem readsBack_int {i : Int} (hshort : Numeral.writable i = true) : ReadsBack (.int i) := by
  have hscalar : ∀ {limit : Nat} {rest : List Char}, Numeral.digitLimit ≤ limit →
      Closes rest → scalar limit (spelled (.int i) ++ rest) = .ok (.int i, rest) :=
    fun hlimit hrest => (scalar_toString i _).trans
      (numeral_toString i (Nat.le_trans (of_decide_eq_true hshort) hlimit) hrest)
  rcases toString_begins i with ⟨d, ds, hd, h | h⟩
  · exact readsBack_of_scalar (v := .int i) h (by simp [ne_of_digit hd]) hscalar
  · exact readsBack_of_scalar (v := .int i) h (by decide) hscalar

theorem readsBack_str (s : String) : ReadsBack (.str s) := by
  intro limit n rest _ hn _
  rcases n with _ | n
  · exact absurd hn (Nat.not_succ_le_zero _)
  · rw [spelled, string_append, value]
    simp only [stringBody?_escaped, String.ofList_toList]

theorem readsBack_list {items : List Value} (h : ∀ v ∈ items, v.Portable ∧ ReadsBack v) :
    ReadsBack (.list items) := by
  intro limit n rest hlimit hn _
  simp only [spelled, List.length_cons, List.length_append, List.length_nil] at hn
  rcases n with _ | n
  · exact absurd hn (Nat.not_succ_le_zero _)
  rw [spelled, List.append_assoc, List.cons_append, value]
  cases items with
  | nil => rfl
  | cons v vs =>
      have hread : Json.items limit n
          (joined [',', ' '] (spelledItems (v :: vs)) ++ ']' :: rest) = .ok (v :: vs, rest) :=
        items_joined (List.cons_ne_nil v vs) h hlimit (by omega)
      rcases spelledItems_begins (h v List.mem_cons_self).1 vs with ⟨c, t, ht, hc, hclose⟩
      rw [ht] at hread ⊢
      rw [List.cons_append, trimStart_cons hc]
      split
      · rename_i heq
        exact absurd (List.cons.inj heq).1 hclose
      · exact except_bind_eq_ok_iff.mpr ⟨_, hread, rfl⟩

theorem readsBack_object {entries : Entries} (hdistinct : entries.names.Nodup)
    (h : ∀ e ∈ entries, e.2.Portable ∧ ReadsBack e.2) : ReadsBack (.object entries) := by
  intro limit n rest hlimit hn _
  simp only [spelled, List.length_cons, List.length_append, List.length_nil] at hn
  rcases n with _ | n
  · exact absurd hn (Nat.not_succ_le_zero _)
  rw [spelled, List.append_assoc, List.cons_append, value]
  cases entries with
  | nil => rfl
  | cons e es =>
      have hread : members limit n
          (joined [',', ' '] (spelledEntries (e :: es)) ++ '}' :: rest) = .ok (e :: es, rest) :=
        members_joined (List.cons_ne_nil e es) h hlimit (by omega)
      rcases spelledEntries_begins e es with ⟨t, ht⟩
      rw [ht] at hread ⊢
      rw [List.cons_append, trimStart_cons (by decide)]
      refine except_bind_eq_ok_iff.mpr ⟨_, hread, ?_⟩
      simp only [Entries.ofPairs_of_nodup hdistinct]
      rfl

end Json

/-- Every value that JSON has a form for is read back. -/
theorem Value.Portable.readsBack {v : Value} (h : v.Portable) : Json.ReadsBack v := by
  induction h with
  | null => exact Json.readsBack_of_scalar rfl (by decide) fun _ _ => rfl
  | bool b =>
      cases b with
      | true => exact Json.readsBack_of_scalar rfl (by decide) fun _ _ => rfl
      | false => exact Json.readsBack_of_scalar rfl (by decide) fun _ _ => rfl
  | int short => exact Json.readsBack_int short
  | str s => exact Json.readsBack_str s
  | list inner ih => exact Json.readsBack_list fun v hv => ⟨inner v hv, ih v hv⟩
  | object distinct inner ih =>
      exact Json.readsBack_object distinct fun e he => ⟨inner e he, ih e he⟩

namespace Json

/-- A text that holds a value and nothing else is read as this value. The text
    itself is long enough to be the bound. -/
theorem readWithin_spelled {v : Value} (h : v.Portable) {limit : Nat}
    (hlimit : Numeral.digitLimit ≤ limit) : readWithin limit (spelled v) = .ok v := by
  have htrim := trimStart_spelled h []
  have hread := h.readsBack limit (2 * (spelled v).length + 1) [] hlimit (by omega) closes_nil
  rw [List.append_nil] at htrim hread
  rw [readWithin, htrim]
  exact except_bind_eq_ok_iff.mpr ⟨_, hread, rfl⟩

end Json

end Inlay
