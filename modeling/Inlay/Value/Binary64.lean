/-!
# Double-Precision Numbers

Numbers with a fraction, as the 64-bit binary format keeps them. A number is
represented by its exact value, `mantissa · 2 ^ exponent`, and not by its bit
pattern, so that reading and writing decimals is exact integer arithmetic
throughout.

Of the many ways to write one value, the one with the largest mantissa that
fits is used: it has 53 binary digits, or fewer when the exponent has already
reached its minimum. Zero has a sign.

A decimal is read by `ofDecimal`, which picks the nearest representable
value, and the one with the even mantissa when two are equally near. A
decimal beyond the largest finite value becomes infinite.

## Main definitions

* `Binary64`: Finite values, infinities, and what is not a number.
* `roundDiv`: Division to the nearest integer, ties to even.
* `Binary64.ofDecimal`: The nearest value to a decimal.
-/

namespace Inlay

/-- A number of the 64-bit binary format. -/
inductive Binary64 where
  | nan
  | infinite (negative : Bool)
  /-- The value `mantissa · 2 ^ exponent`, with a sign. -/
  | finite (negative : Bool) (mantissa : Nat) (exponent : Int)
deriving DecidableEq

/-- The integer nearest to a quotient; of two equally near ones, the even. -/
def roundDiv (num den : Nat) : Nat :=
  let q := num / den
  let r := num % den
  if den < 2 * r || (2 * r == den && q % 2 == 1) then q + 1 else q

namespace Binary64

/-- Mantissas are smaller than this. -/
def mantissaBound : Nat := Nat.pow 2 53

/-- The smallest exponent. -/
def minExponent : Int := -1074

/-- The largest exponent. -/
def maxExponent : Int := 971

/-- The number zero, which has a sign. -/
def zero (negative : Bool) : Binary64 :=
  finite negative 0 minExponent

/-- The value nearest to the positive fraction `num / den`. -/
def ofFraction (negative : Bool) (num den : Nat) : Binary64 :=
  -- The quotient lies within a factor of two of `2 ^ magnitude`.
  let magnitude : Int := (num.log2 : Int) - (den.log2 : Int)
  let scaled (e : Int) : Nat × Nat := (num * Nat.pow 2 (-e).toNat, den * Nat.pow 2 e.toNat)
  let low := max (magnitude - 53) minExponent
  let e := if mantissaBound ≤ (scaled low).1 / (scaled low).2 then low + 1 else low
  let m := roundDiv (scaled e).1 (scaled e).2
  -- Rounding up may have reached the bound, where the mantissa is halved.
  let (m, e) := if m = mantissaBound then (m / 2, e + 1) else (m, e)
  if maxExponent < e then infinite negative else finite negative m e

/-- The value nearest to `digits · 10 ^ exponent`. Decimals that are far out
    of range are settled by their number of digits, before any power is
    computed. -/
def ofDecimal (negative : Bool) (digits : Nat) (exponent : Int) : Binary64 :=
  if digits = 0 then zero negative
  else
    let magnitude : Int := exponent + (Nat.toDigits 10 digits).length
    if 310 < magnitude then infinite negative
    else if magnitude < -330 then zero negative
    else ofFraction negative (digits * Nat.pow 10 exponent.toNat) (Nat.pow 10 (-exponent).toNat)

/-- Whether a number is zero, of either sign. -/
def isZero : Binary64 → Bool
  | finite _ m _ => m == 0
  | _ => false

end Binary64

end Inlay
