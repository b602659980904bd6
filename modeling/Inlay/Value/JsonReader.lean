import Inlay.Value.Basic
import Inlay.Value.Numeral

/-!
# Reading JSON

The value that a JSON text stands for. The grammar is the strict one, without
trailing commas or comments, extended by names for the numbers that JSON
lacks. A name that is repeated in an object keeps its first place and its
last value.

A text is read from left to right and the first fault decides. There are two:
the text may be malformed, or it may hold an integer with more digits than
are accepted. How many are accepted is no matter of the grammar, so it is left
open until a whole text is read.

The readers of values, items and members call each other, and each call is
given a bound on how far the nesting can still go. Whoever starts with twice
the length of the text and one more cannot run out of it, since of any two
calls in a row one consumes a character.

## Main definitions

* `Json.Fault`: What can be wrong with a text.
* `Json.stringBody?`: The characters of a string literal.
* `Json.numeral`: A number at the start of a text.
* `Json.readWithin`: The value of a text, by the grammar and a limit.
* `Json.read`: The value of a text.
-/

namespace Inlay

namespace Json

/-- What can be wrong with a JSON text. -/
inductive Fault where
  | malformed
  | tooManyDigits
deriving DecidableEq

/-- A text without the blank space in front of it. -/
def trimStart (s : List Char) : List Char :=
  s.dropWhile fun c => c = ' ' || c = '\t' || c = '\n' || c = '\r'

/-- The value of a hexadecimal digit. -/
def hexDigit? (c : Char) : Option Nat :=
  if c.isDigit then some (c.toNat - '0'.toNat)
  else if 'a' ≤ c && c ≤ 'f' then some (c.toNat - 'a'.toNat + 10)
  else if 'A' ≤ c && c ≤ 'F' then some (c.toNat - 'A'.toNat + 10)
  else none

/-- The 16-bit unit that four hexadecimal digits stand for. -/
def unit? (a b c d : Char) : Option Nat :=
  return (((← hexDigit? a) * 16 + (← hexDigit? b)) * 16 + (← hexDigit? c)) * 16 + (← hexDigit? d)

/-- The character that a one-letter escape stands for. -/
def shortEscape? (c : Char) : Option Char :=
  if c = '"' || c = '\\' || c = '/' then some c
  else if c = 'b' then some (Char.ofNat 0x08)
  else if c = 'f' then some (Char.ofNat 0x0C)
  else if c = 'n' then some '\n'
  else if c = 'r' then some '\r'
  else if c = 't' then some '\t'
  else none

/-- The code points and 16-bit units of a string behind its opening quote,
    and the text behind its closing quote. -/
def stringUnits? : List Char → Option (List Nat × List Char)
  | [] => none
  | '"' :: rest => some ([], rest)
  | '\\' :: 'u' :: a :: b :: c :: d :: rest => do
    let u ← unit? a b c d
    let (units, rest) ← stringUnits? rest
    return (u :: units, rest)
  | '\\' :: e :: rest => do
    let c ← shortEscape? e
    let (units, rest) ← stringUnits? rest
    return (c.toNat :: units, rest)
  | c :: rest => do
    if c.toNat < 0x20 then none
    else
      let (units, rest) ← stringUnits? rest
      return (c.toNat :: units, rest)

/-- The character of a code point. Half of a surrogate pair on its own is no
    character, so U+FFFD is read in its place. This is an idealisation: a text
    that may hold half of a pair would keep it. -/
def charOf (n : Nat) : Char :=
  if n.isValidChar then Char.ofNat n else Char.ofNat 0xFFFD

/-- The characters of some units: two that form a surrogate pair are one. -/
def joinPairs : List Nat → List Char
  | [] => []
  | [n] => [charOf n]
  | hi :: lo :: rest =>
    if 0xD800 ≤ hi && hi < 0xDC00 && 0xDC00 ≤ lo && lo < 0xE000 then
      charOf (0x10000 + (hi - 0xD800) * 0x400 + (lo - 0xDC00)) :: joinPairs rest
    else charOf hi :: joinPairs (lo :: rest)

/-- The characters of a string behind its opening quote, and the text behind
    its closing quote. -/
def stringBody? (s : List Char) : Option (String × List Char) := do
  let (units, rest) ← stringUnits? s
  return (String.ofList (joinPairs units), rest)

/-- The digits of the fraction at the start of a text, and what follows it.
    A point without a digit behind it is no fraction. -/
def fraction (s : List Char) : List Char × List Char :=
  match s with
  | '.' :: rest =>
    match rest.takeWhile Char.isDigit with
    | [] => ([], s)
    | digits => (digits, rest.dropWhile Char.isDigit)
  | _ => ([], s)

/-- The exponent at the start of a text, if there is one, and what follows. -/
def exponent (s : List Char) : Option Int × List Char :=
  match s with
  | c :: rest =>
    if c = 'e' || c = 'E' then
      let (negative, body) := Numeral.unsigned rest
      match body.takeWhile Char.isDigit with
      | [] => (none, s)
      | digits =>
        let n : Int := Numeral.ofDigits digits
        (some (if negative then -n else n), body.dropWhile Char.isDigit)
    else (none, s)
  | [] => (none, s)

/-- The digits in front of a point at the start of a text: a zero on its own,
    or digits that do not begin with one. -/
def whole (s : List Char) : List Char × List Char :=
  match s with
  | '0' :: rest => (['0'], rest)
  | _ => (s.takeWhile Char.isDigit, s.dropWhile Char.isDigit)

/-- Whether a number is negative, and the number without its sign. A plus is no
    sign. -/
def unsigned : List Char → Bool × List Char
  | '-' :: rest => (true, rest)
  | s => (false, s)

/-- The number at the start of a text, and what follows it. An integer may have
    as many digits as the limit says. -/
def numeral (limit : Nat) (s : List Char) : Except Fault (Value × List Char) :=
  let (negative, body) := unsigned s
  match whole body with
  | ([], _) => .error .malformed
  | (digits, rest) =>
    let (places, rest) := fraction rest
    let (power, rest) := exponent rest
    if places.isEmpty && power.isNone then
      if limit < digits.length then .error .tooManyDigits
      else
        let n : Int := Numeral.ofDigits digits
        .ok (.int (if negative then -n else n), rest)
    else
      .ok (.float (Binary64.ofDecimal negative (Numeral.ofDigits (digits ++ places))
        (power.getD 0 - places.length)), rest)

/-- The values that have names. -/
def named : List (String × Value) :=
  [("null", .null), ("true", .bool true), ("false", .bool false), ("NaN", .float .nan),
   ("Infinity", .float (.infinite false)), ("-Infinity", .float (.infinite true))]

/-- The named value or number at the start of a text, and what follows it. -/
def scalar (limit : Nat) (s : List Char) : Except Fault (Value × List Char) :=
  match named.find? fun p => p.1.toList.isPrefixOf s with
  | some (name, v) => .ok (v, s.drop name.length)
  | none => numeral limit s

mutual

/-- The value at the start of a text, and what follows it. -/
def value (limit : Nat) : Nat → List Char → Except Fault (Value × List Char)
  | 0, _ => .error .malformed
  | n + 1, s =>
    match s with
    | '"' :: rest =>
      match stringBody? rest with
      | some (text, rest) => .ok (.str text, rest)
      | none => .error .malformed
    | '[' :: rest =>
      match trimStart rest with
      | ']' :: rest => .ok (.list [], rest)
      | rest => do
        let (vs, rest) ← items limit n rest
        return (.list vs, rest)
    | '{' :: rest =>
      match trimStart rest with
      | '}' :: rest => .ok (.object [], rest)
      | rest => do
        let (pairs, rest) ← members limit n rest
        return (.object (Entries.ofPairs pairs), rest)
    | _ => scalar limit s

/-- The items of a list up to its closing bracket, and what follows that. -/
def items (limit : Nat) : Nat → List Char → Except Fault (List Value × List Char)
  | 0, _ => .error .malformed
  | n + 1, s => do
    let (v, rest) ← value limit n s
    match trimStart rest with
    | ']' :: rest => return ([v], rest)
    | ',' :: rest => do
      let (vs, rest) ← items limit n (trimStart rest)
      return (v :: vs, rest)
    | _ => .error .malformed

/-- The members of an object up to its closing brace, and what follows that. -/
def members (limit : Nat) : Nat → List Char → Except Fault (List (String × Value) × List Char)
  | 0, _ => .error .malformed
  | n + 1, s =>
    match s with
    | '"' :: rest =>
      match stringBody? rest with
      | none => .error .malformed
      | some (name, rest) =>
        match trimStart rest with
        | ':' :: rest => do
          let (v, rest) ← value limit n (trimStart rest)
          match trimStart rest with
          | '}' :: rest => return ([(name, v)], rest)
          | ',' :: rest => do
            let (pairs, rest) ← members limit n (trimStart rest)
            return ((name, v) :: pairs, rest)
          | _ => .error .malformed
        | _ => .error .malformed
    | _ => .error .malformed

end

/-- The value that a whole text stands for, if no integer in it has more digits
    than the limit says. -/
def readWithin (limit : Nat) (s : List Char) : Except Fault Value := do
  let (v, rest) ← value limit (2 * s.length + 1) (trimStart s)
  if (trimStart rest).isEmpty then return v else .error .malformed

/-- The value that a whole text stands for. -/
def read (s : List Char) : Except Fault Value :=
  readWithin Numeral.digitLimit s

end Json

end Inlay
