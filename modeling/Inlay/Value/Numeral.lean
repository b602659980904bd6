import Inlay.Text.Blank
import Inlay.Text.Digit
import Inlay.Value.Binary64

/-!
# Numerals

Texts that stand for numbers. A numeral may be surrounded by blank space, may
carry a sign, may use the decimal digits of any script, and may separate
groups of digits by single underscores. An integer consists of digits alone;
a number with a fraction may have a point and an exponent, or be one of the
names for infinity and for what is not a number, in any mixture of cases.

An integer of more than 4300 digits is refused, be it read or written. The
digits of a number with a fraction are not limited, since it is rounded anyway.

## Main definitions

* `Numeral.writable`: Whether an integer has few enough digits to be written.
* `Numeral.plain?`: A numeral in ASCII, without blanks and underscores.
* `Numeral.integer?`: The integer a text stands for.
* `Numeral.binary64?`: The number with a fraction a text stands for.
-/

namespace Inlay

namespace Numeral

/-- How many digits an integer may have. -/
def digitLimit : Nat := 4300

/-- Whether an integer has few enough digits to be written. -/
def writable (i : Int) : Bool :=
  (Nat.toDigits 10 i.natAbs).length ≤ digitLimit

/-- The number that some ASCII digits stand for. -/
def ofDigits (digits : List Char) : Nat :=
  digits.foldl (fun n c => 10 * n + (c.toNat - '0'.toNat)) 0

/-- A character of a numeral in ASCII: blank space of any script becomes a
    space and a digit of any script its ASCII form. -/
def ascii? (c : Char) : Option Char :=
  if c.toNat < 0x7F then some c
  else if Text.isBlank c then some ' '
  else (Text.digitValue? c).map Nat.digitChar

/-- The ASCII characters that may surround a numeral. The information
    separators count as blank elsewhere, but not here. -/
def isPadding (c : Char) : Bool :=
  c = ' ' || (0x09 ≤ c.toNat && c.toNat ≤ 0x0D)

/-- A text without the padding at its ends. -/
def trim (s : List Char) : List Char :=
  ((s.dropWhile isPadding).reverse.dropWhile isPadding).reverse

/-- A text without its underscores, each of which has to stand between two
    digits; `last` is the character before the text. -/
def withoutUnderscores? (last : Char) : List Char → Option (List Char)
  | [] => if last = '_' then none else some []
  | c :: rest =>
    if c = '_' then
      if last.isDigit then withoutUnderscores? c rest else none
    else if last = '_' && !c.isDigit then none
    else (withoutUnderscores? c rest).map (c :: ·)

/-- A numeral in ASCII, without padding and underscores. -/
def plain? (s : List Char) : Option (List Char) := do
  withoutUnderscores? ' ' (trim (← s.mapM ascii?))

/-- Whether a numeral is negative, and the numeral without its sign. -/
def unsigned : List Char → Bool × List Char
  | '-' :: rest => (true, rest)
  | '+' :: rest => (false, rest)
  | s => (false, s)

/-- The integer a text stands for. -/
def integer? (s : List Char) : Option Int := do
  let (negative, digits) := unsigned (← plain? s)
  if digits.isEmpty || !digits.all Char.isDigit || digitLimit < digits.length then none
  else
    let n : Int := ofDigits digits
    return if negative then -n else n

/-- The exponent at the end of a numeral, which is zero if there is none. -/
def exponent? : List Char → Option Int
  | [] => some 0
  | c :: rest =>
    if c = 'e' || c = 'E' then
      let (negative, digits) := unsigned rest
      if digits.isEmpty || !digits.all Char.isDigit then none
      else
        let n : Int := ofDigits digits
        some (if negative then -n else n)
    else none

/-- The digits in front of the point, those behind it, and the rest. -/
def mantissa (s : List Char) : List Char × List Char × List Char :=
  let whole := s.takeWhile Char.isDigit
  match s.dropWhile Char.isDigit with
  | '.' :: rest => (whole, rest.takeWhile Char.isDigit, rest.dropWhile Char.isDigit)
  | rest => (whole, [], rest)

/-- The number that an unsigned decimal numeral stands for. There has to be a
    digit in front of the point or behind it. -/
def decimal? (negative : Bool) (s : List Char) : Option Binary64 := do
  let (whole, fraction, rest) := mantissa s
  if whole.isEmpty && fraction.isEmpty then none
  else
    let exponent ← exponent? rest
    return Binary64.ofDecimal negative (ofDigits (whole ++ fraction)) (exponent - fraction.length)

/-- The number with a fraction a text stands for. -/
def binary64? (s : List Char) : Option Binary64 := do
  let (negative, body) := unsigned (← plain? s)
  let name := String.ofList (body.map Char.toLower)
  if name == "inf" || name == "infinity" then return .infinite negative
  else if name == "nan" then return .nan
  else decimal? negative body

end Numeral

end Inlay
