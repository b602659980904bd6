import Inlay.Proofs.ProperValues
import Mathlib.Data.List.TakeWhile

/-!
# Texts that Have No Value

Nearly every text of a variable has a value, since one that looks like nothing
else is a text. The exception is a list or an object in JSON with an integer
that has too many digits. An integer of that size on its own is rounded to a
number with a fraction, a list that is malformed is a text, but such a list is
neither. What is called a misfit then is noticed before anything is written.

A text that begins with a bracket or a brace is no word for yes or no and no
numeral, because none of these begins like that. So its value is decided by the
JSON reader alone.

## Main definitions

* `Environment.LooksNested`: Texts that begin like a list or an object.

## Theorems

* `Numeral.integer?_of_head`, `Numeral.binary64?_of_head`: What begins like no
  numeral is none.
* `Environment.coerce_nested`: The value of a text that looks nested.
* `Environment.coerce_error_iff`: Which texts have no value.
* `Json.read_long`: A list of one integer that is too long.
* `Environment.coerce_long`: Such a text.
-/

namespace Inlay

/-! ### What begins like no numeral -/

namespace Numeral

/-- Characters that stay at the start of a text when it is read as a word or as
    a numeral, where neither begins with them. -/
structure Foreign (c : Char) : Prop where
  ascii : c.toNat < 0x7F
  solid : isPadding c = false
  lower : c.toLower = c
  noDigit : c.isDigit = false
  other : c ∉ ['_', '-', '+', '.', 'f', 'i', 'n', 't', 'y']

theorem foreign_bracket : Foreign '[' :=
  ⟨by decide, by decide, by decide, by decide, by decide⟩

theorem foreign_brace : Foreign '{' :=
  ⟨by decide, by decide, by decide, by decide, by decide⟩

variable {c : Char}

theorem trim_cons (h : isPadding c = false) (rest : List Char) :
    ∃ rest', trim (c :: rest) = c :: rest' := by
  have hlast : ([c].dropWhile isPadding) = [c] := List.dropWhile_cons_of_neg (by simp [h])
  unfold trim
  rw [List.dropWhile_cons_of_neg (by simp [h]), List.reverse_cons, List.dropWhile_append, hlast]
  split
  · exact ⟨[], rfl⟩
  · exact ⟨_, by rw [List.reverse_append, List.reverse_singleton, List.singleton_append]⟩

theorem plain?_head (hc : Foreign c) {rest s : List Char} (h : plain? (c :: rest) = some s) :
    ∃ rest', s = c :: rest' := by
  have hascii : ascii? c = some c := by rw [ascii?, if_pos hc.ascii]
  rw [plain?, List.mapM_cons, hascii] at h
  simp only [Option.bind_eq_bind, Option.bind_some, Option.pure_def, Option.bind_eq_some_iff,
    Option.some.injEq] at h
  rcases h with ⟨_, ⟨tail, _, rfl⟩, h⟩
  rcases trim_cons hc.solid tail with ⟨tail', htail⟩
  rw [htail, withoutUnderscores?, if_neg (fun h => hc.other (by simp [h])), if_neg (by simp)] at h
  rcases Option.map_eq_some_iff.mp h with ⟨rest', _, rfl⟩
  exact ⟨rest', rfl⟩

theorem unsigned_cons (hc : Foreign c) (rest : List Char) :
    unsigned (c :: rest) = (false, c :: rest) := by
  unfold unsigned
  split
  · rename_i heq
    exact absurd hc.other (by simp [(List.cons.inj heq).1])
  · rename_i heq
    exact absurd hc.other (by simp [(List.cons.inj heq).1])
  · rfl

theorem integer?_of_head (hc : Foreign c) (rest : List Char) : integer? (c :: rest) = none := by
  unfold integer?
  cases hs : plain? (c :: rest) with
  | none => rfl
  | some s =>
      rcases plain?_head hc hs with ⟨rest', rfl⟩
      simp [unsigned_cons hc, hc.noDigit]

theorem decimal?_of_head (hc : Foreign c) (negative : Bool) (rest : List Char) :
    decimal? negative (c :: rest) = none := by
  have hmantissa : mantissa (c :: rest) = ([], [], c :: rest) := by
    unfold mantissa
    rw [List.takeWhile_cons_of_neg (by simp [hc.noDigit]),
      List.dropWhile_cons_of_neg (by simp [hc.noDigit])]
    split
    · rename_i heq
      exact absurd hc.other (by simp [(List.cons.inj heq).1])
    · rfl
  rw [decimal?, hmantissa]
  rfl

theorem binary64?_of_head (hc : Foreign c) (rest : List Char) : binary64? (c :: rest) = none := by
  unfold binary64?
  cases hs : plain? (c :: rest) with
  | none => rfl
  | some s =>
      rcases plain?_head hc hs with ⟨rest', rfl⟩
      -- No name of a number begins with this character either.
      have hother := hc.other
      simp only [List.mem_cons, not_or] at hother
      simp only [Option.bind_eq_bind, Option.bind_some, unsigned_cons hc, List.map_cons, hc.lower]
      rw [if_neg (by simp [← String.toList_inj, hother]),
        if_neg (by simp [← String.toList_inj, hother]), decimal?_of_head hc]

end Numeral

namespace Text

theorem lowerCase_of_head {c : Char} (hc : Numeral.Foreign c) (rest : List Char) :
    ∃ rest', lowerCase (String.ofList (c :: rest)) = String.ofList (c :: rest') := by
  have hascii : c.toNat < 0x80 := Nat.lt_succ_of_lt hc.ascii
  have hsigma : c.toNat ≠ 0x03A3 := by omega
  refine ⟨lowerBehind [c] rest, ?_⟩
  rw [lowerCase, String.toList_ofList, lowerBehind]
  simp only [if_neg hsigma, lowerChar, if_pos hascii, hc.lower]
  rfl

end Text

/-! ### Texts that look nested -/

namespace Environment

/-- Texts that begin like a list or an object. -/
def LooksNested (text : String) : Prop :=
  text.toList.head?.any (fun c => c = '{' || c = '[') = true

instance : DecidablePred LooksNested := fun _ => inferInstanceAs (Decidable (_ = true))

/-- What the reader says about a text that looks nested. -/
def ofReading (text : String) : Except Json.Fault Value → Except Misfit Value
  | .ok v => .ok v
  | .error .tooManyDigits => .error .tooManyDigits
  | .error .malformed => .ok (.str text)

/-- A text that looks nested begins with a character that nothing else does. -/
theorem LooksNested.head {text : String} (h : LooksNested text) :
    ∃ c rest, text = String.ofList (c :: rest) ∧ Numeral.Foreign c := by
  unfold LooksNested at h
  cases hchars : text.toList with
  | nil =>
      rw [hchars] at h
      cases h
  | cons c rest =>
      rw [hchars] at h
      simp only [List.head?_cons, Option.any_some, Bool.or_eq_true, decide_eq_true_eq] at h
      refine ⟨c, rest, by rw [← hchars, String.ofList_toList], ?_⟩
      rcases h with rfl | rfl
      · exact Numeral.foreign_brace
      · exact Numeral.foreign_bracket

/-- The value of a text that looks nested is decided by the reader alone. -/
theorem coerce_nested {text : String} (h : LooksNested text) :
    coerce text = ofReading text (Json.read text.toList) := by
  rcases h.head with ⟨c, rest, htext, hc⟩
  rcases Text.lowerCase_of_head hc rest with ⟨low, hlow⟩
  have hother := hc.other
  have hdigit : c ≠ '0' ∧ c ≠ '1' := by
    refine ⟨?_, ?_⟩ <;>
    · rintro rfl
      cases hc.noDigit
  simp only [List.mem_cons, not_or] at hother
  have hyes : ["true", "yes", "1"].contains (Text.lowerCase text) = false := by
    rw [htext, hlow]
    simp [← String.toList_inj, hother, hdigit]
  have hno : ["false", "no", "0"].contains (Text.lowerCase text) = false := by
    rw [htext, hlow]
    simp [← String.toList_inj, hother, hdigit]
  have hinteger : Numeral.integer? text.toList = none := by
    rw [htext, String.toList_ofList, Numeral.integer?_of_head hc]
  have hbinary : Numeral.binary64? text.toList = none := by
    rw [htext, String.toList_ofList, Numeral.binary64?_of_head hc]
  unfold coerce
  simp only [hyes, hno, hinteger, hbinary, Bool.false_eq_true, if_false]
  unfold LooksNested at h
  rw [if_pos h]
  rfl

/-- The only texts without a value: they look nested and hold an integer that
    has too many digits. -/
theorem coerce_error_iff {text : String} {m : Misfit} :
    coerce text = .error m ↔
      m = .tooManyDigits ∧ LooksNested text ∧ Json.read text.toList = .error .tooManyDigits := by
  by_cases hnested : LooksNested text
  · rw [coerce_nested hnested]
    cases Json.read text.toList with
    | ok v => simp [ofReading]
    | error fault => cases fault <;> simp [ofReading, hnested, eq_comm]
  · refine iff_of_false (fun h => ?_) fun h => hnested h.2.1
    unfold LooksNested at hnested
    unfold coerce at h
    simp only [if_neg hnested] at h
    -- All that is left are values.
    split at h
    · cases h
    split at h
    · cases h
    split at h
    · cases h
    split at h <;> cases h

end Environment

/-! ### An integer that is too long -/

namespace Json

variable {digits rest : List Char} {limit : Nat}

theorem trimStart_cons {c : Char} (h : c ∉ [' ', '\t', '\n', '\r']) (rest : List Char) :
    trimStart (c :: rest) = c :: rest := by
  simp only [List.mem_cons, List.not_mem_nil, or_false, not_or] at h
  exact List.dropWhile_cons_of_neg (by simp [h])

theorem whole_append (hdigits : ∀ c ∈ digits, c.isDigit = true) (hzero : digits.head? ≠ some '0')
    (hrest : rest.head?.all (fun c => !c.isDigit) = true) :
    whole (digits ++ rest) = (digits, rest) := by
  have hdrop : rest.takeWhile Char.isDigit = [] ∧ rest.dropWhile Char.isDigit = rest := by
    cases rest with
    | nil => exact ⟨rfl, rfl⟩
    | cons c rest =>
        have hc : ¬ c.isDigit = true := by simpa using hrest
        exact ⟨List.takeWhile_cons_of_neg hc, List.dropWhile_cons_of_neg hc⟩
  unfold whole
  split
  · rename_i s heq
    cases digits with
    | nil =>
        rw [List.nil_append] at heq
        rw [heq] at hrest
        cases hrest
    | cons d ds => exact absurd (by rw [(List.cons.inj heq).1]; rfl) hzero
  · rw [List.takeWhile_append_of_pos hdigits, List.dropWhile_append_of_pos hdigits, hdrop.1, hdrop.2,
      List.append_nil]

theorem ne_of_digit {c d : Char} (hd : d.isDigit = true) (hc : c.isDigit = false) : d ≠ c := by
  rintro rfl
  rw [hd] at hc
  cases hc

theorem unsigned_of_digits (hdigits : ∀ c ∈ digits, c.isDigit = true) (hne : digits ≠ []) :
    unsigned (digits ++ rest) = (false, digits ++ rest) := by
  unfold unsigned
  split
  · rename_i heq
    cases digits with
    | nil => exact absurd rfl hne
    | cons d ds =>
        exact absurd (List.cons.inj heq).1 (ne_of_digit (hdigits d List.mem_cons_self) rfl)
  · rfl

/-- An integer at the start of a text is refused if it has too many digits. -/
theorem numeral_long (hdigits : ∀ c ∈ digits, c.isDigit = true) (hzero : digits.head? ≠ some '0')
    (hlong : limit < digits.length) :
    numeral limit (digits ++ ']' :: rest) = .error .tooManyDigits := by
  have hne : digits ≠ [] := List.ne_nil_of_length_pos (Nat.zero_lt_of_lt hlong)
  have hwhole : whole (digits ++ ']' :: rest) = (digits, ']' :: rest) :=
    whole_append hdigits hzero rfl
  rw [numeral, unsigned_of_digits hdigits hne]
  simp only [hwhole]
  simpa [fraction, exponent] using hlong

/-- A number in JSON has no name. -/
theorem scalar_of_digit {d : Char} (hd : d.isDigit = true) :
    scalar limit (d :: rest) = numeral limit (d :: rest) := by
  have hnames : ∀ p ∈ named, ∃ c name, p.1.toList = c :: name ∧ c.isDigit = false := by
    simp [named]
  have hnone : (named.find? fun p => p.1.toList.isPrefixOf (d :: rest)) = none := by
    refine List.find?_eq_none.mpr fun p hp hbegins => ?_
    rcases hnames p hp with ⟨c, name, hname, hc⟩
    rw [hname, List.isPrefixOf_cons_cons, Bool.and_eq_true, beq_iff_eq] at hbegins
    rw [hbegins.1, hd] at hc
    cases hc
  rw [scalar, hnone]

/-- What begins like no string, list or object is a scalar. -/
theorem value_of_head {c : Char} (hc : c ∉ ['"', '[', '{']) (n : Nat) :
    value limit (n + 1) (c :: rest) = scalar limit (c :: rest) := by
  simp only [List.mem_cons, List.not_mem_nil, or_false, not_or] at hc
  unfold value
  split
  · rename_i heq
    exact absurd (List.cons.inj heq).1 hc.1
  · rename_i heq
    exact absurd (List.cons.inj heq).1 hc.2.1
  · rename_i heq
    exact absurd (List.cons.inj heq).1 hc.2.2
  · rfl

/-- What begins with a digit is read as a number. -/
theorem value_of_digit {d : Char} (hd : d.isDigit = true) (n : Nat) :
    value limit (n + 1) (d :: rest) = numeral limit (d :: rest) := by
  rw [value_of_head (by simp [ne_of_digit hd]), scalar_of_digit hd]

/-- A list is refused together with the number that it begins with. -/
theorem value_list_of_digit {d : Char} (hd : d.isDigit = true) {fault : Fault}
    (hfault : numeral limit (d :: rest) = .error fault) (n : Nat) :
    value limit (n + 3) ('[' :: d :: rest) = .error fault := by
  have hblank : d ∉ [' ', '\t', '\n', '\r'] := by
    simp [ne_of_digit hd]
  rw [value, trimStart_cons hblank]
  split
  · rename_i heq
    exact absurd (List.cons.inj heq).1 (ne_of_digit hd rfl)
  · rw [items, value_of_digit hd, hfault]
    rfl

/-- A list of one integer that has too many digits is refused. -/
theorem read_long (hdigits : ∀ c ∈ digits, c.isDigit = true) (hzero : digits.head? ≠ some '0')
    (hlong : Numeral.digitLimit < digits.length) :
    read ('[' :: (digits ++ [']'])) = .error .tooManyDigits := by
  have hnumeral : numeral Numeral.digitLimit (digits ++ [']']) = .error .tooManyDigits :=
    numeral_long hdigits hzero hlong
  cases digits with
  | nil => simp at hlong
  | cons d ds =>
      rw [List.cons_append] at hnumeral
      have hbound : 2 * ('[' :: (d :: ds ++ [']'])).length + 1 = 2 * ds.length + 4 + 3 := by
        simp only [List.length_cons, List.length_append, List.length_nil]
        omega
      rw [read, readWithin, trimStart_cons (by simp), hbound, List.cons_append,
        value_list_of_digit (hdigits d List.mem_cons_self) hnumeral]
      rfl

end Json

namespace Environment

/-- A list of one integer in JSON that has too many digits is a text without a
    value. -/
theorem coerce_long {digits : List Char} (hdigits : ∀ c ∈ digits, c.isDigit = true)
    (hzero : digits.head? ≠ some '0') (hlong : Numeral.digitLimit < digits.length) :
    coerce (String.ofList ('[' :: (digits ++ [']']))) = .error .tooManyDigits := by
  refine coerce_error_iff.mpr ⟨rfl, ?_, ?_⟩
  · rw [LooksNested, String.toList_ofList]
    rfl
  · rw [String.toList_ofList, Json.read_long hdigits hzero hlong]

end Environment

end Inlay
