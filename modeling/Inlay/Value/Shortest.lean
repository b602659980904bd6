import Inlay.Value.Binary64

/-!
# Shortest Decimals

The text of a double-precision number: the fewest digits that read back as
the same number, and of those the nearest to it.

A finite number stands for every real that rounds to it, an interval around
its value. For one digit, two digits and so on, the two neighbours of the
value on the grid of decimals with so many digits are tried, and the first
grid on which one of them lies in the interval gives the digits. Seventeen
digits always suffice.

The digits are then written positionally while the decimal point stays near
them, and with an exponent otherwise.

## Main definitions

* `Shortest`: Digits and the place of the decimal point.
* `Binary64.shortest`: The shortest decimal of a positive value.
* `Shortest.text`: How a decimal is written.
* `Binary64.text`: How a number is written.
-/

namespace Inlay

/-- The decimal `0.d₁d₂… · 10 ^ point`. -/
structure Shortest where
  digits : List Char
  point : Int

namespace Binary64

/-- The reals that round to `m · 2 ^ e`, measured in quarters of the last
    place of the mantissa: the lower end, the upper end, and whether the ends
    belong to the interval. Below a power of two the numbers lie closer. -/
def quarters (m : Nat) (e : Int) : Nat × Nat × Bool :=
  let below := if m = mantissaBound / 2 && minExponent < e then 1 else 2
  (4 * m - below, 4 * m + 2, m % 2 == 0)

/-- The decimal digits in front of the point of the fraction `num / den`,
    counted below zero when zeros follow the point. -/
def decimalMagnitude (num den : Nat) : Int :=
  if den ≤ num then (Nat.toDigits 10 (num / den)).length
  else 1 - ((Nat.toDigits 10 (den / num)).length : Int)

/-- The decimal with `n` digits that reads back as `m · 2 ^ e`, if there is
    one, as a multiple of `10 ^ (k - n)`, where `k` is the magnitude. -/
def candidate? (m : Nat) (e : Int) (num den : Nat) (k : Int) (n : Nat) : Option Nat :=
  let (lo, hi, closed) := quarters m e
  let p := k - n
  -- The value in units of the grid is `a / b`.
  let a := num * Nat.pow 10 (-p).toNat
  let b := den * Nat.pow 10 p.toNat
  let q := a / b
  let inside (c : Nat) : Bool :=
    let x := c * b * (4 * m)
    if closed then lo * a ≤ x && x ≤ hi * a else lo * a < x && x < hi * a
  let down := a - q * b
  let up := (q + 1) * b - a
  match inside q, inside (q + 1) with
  | true, true => some (if down < up || (down == up && q % 2 == 0) then q else q + 1)
  | true, false => some q
  | false, true => some (q + 1)
  | false, false => none

/-- The shortest decimal that reads back as `m · 2 ^ e`, for a positive `m`. -/
def shortest (m : Nat) (e : Int) : Shortest :=
  let num := m * Nat.pow 2 e.toNat
  let den := Nat.pow 2 (-e).toNat
  let k := decimalMagnitude num den
  let found := (List.range 17).findSome? fun i =>
    (candidate? m e num den k (i + 1)).map fun c => (i + 1, c)
  let (n, c) := found.getD (17, roundDiv num den)
  let digits := Nat.toDigits 10 c
  { digits := (digits.reverse.dropWhile (· == '0')).reverse
    point := digits.length + k - n }

end Binary64

namespace Shortest

/-- The point is written in place when it lies after at least this. -/
def leastPoint : Int := -3

/-- The point is written in place when it lies before at most this. -/
def greatestPoint : Int := 16

/-- An exponent with its sign and at least two digits. -/
def exponentText (x : Int) : List Char :=
  let digits := Nat.toDigits 10 x.natAbs
  (if x < 0 then '-' else '+') :: (List.replicate (2 - digits.length) '0' ++ digits)

/-- How a decimal is written. A decimal without a fraction keeps a zero behind
    its point, unless it is written with an exponent. -/
def text (d : Shortest) : List Char :=
  if leastPoint ≤ d.point && d.point ≤ greatestPoint then
    if d.point ≤ 0 then '0' :: '.' :: (List.replicate (-d.point).toNat '0' ++ d.digits)
    else
      let whole := d.point.toNat
      if d.digits.length ≤ whole then
        d.digits ++ List.replicate (whole - d.digits.length) '0' ++ ['.', '0']
      else d.digits.take whole ++ '.' :: d.digits.drop whole
  else
    let fraction := match d.digits.drop 1 with
      | [] => []
      | rest => '.' :: rest
    d.digits.take 1 ++ fraction ++ 'e' :: exponentText (d.point - 1)

end Shortest

namespace Binary64

/-- How a sign is written. -/
def signText (negative : Bool) : List Char :=
  if negative then ['-'] else []

/-- How a number is written. -/
def text : Binary64 → List Char
  | nan => ['n', 'a', 'n']
  | infinite negative => signText negative ++ ['i', 'n', 'f']
  | finite negative m e =>
    signText negative ++ if m = 0 then ['0', '.', '0'] else (shortest m e).text

end Binary64

end Inlay
