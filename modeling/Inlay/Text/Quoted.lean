import Inlay.Text.Printable

/-!
# Quoted Text

A text between quotes, with everything escaped that could not be told from
the quotes or could not be seen. Single quotes are used, unless the text
holds one and no double quote.

## Main definitions

* `hex`: A number in hexadecimal digits.
* `escaped`: How a character is written inside quotes.
* `quoted`: A text between quotes.
-/

namespace Inlay

namespace Text

/-- The last `width` hexadecimal digits of a number. -/
def hex (width n : Nat) : List Char :=
  let digits := Nat.toDigits 16 n
  List.replicate (width - digits.length) '0' ++ digits

/-- How a character is written inside the given quotes. -/
def escaped (quote c : Char) : List Char :=
  if c = quote || c = '\\' then ['\\', c]
  else if c = '\t' then ['\\', 't']
  else if c = '\n' then ['\\', 'n']
  else if c = '\r' then ['\\', 'r']
  else if isPrintable c then [c]
  else if c.toNat < 0x100 then '\\' :: 'x' :: hex 2 c.toNat
  else if c.toNat < 0x10000 then '\\' :: 'u' :: hex 4 c.toNat
  else '\\' :: 'U' :: hex 8 c.toNat

/-- A text between quotes. -/
def quoted (s : List Char) : List Char :=
  let quote := if s.contains '\'' && !s.contains '"' then '"' else '\''
  quote :: s.flatMap (escaped quote) ++ [quote]

end Text

end Inlay
