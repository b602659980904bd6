import Inlay.Text.Quoted

/-!
# Timestamps

A moment by date and time of day, and how it is written. The standard form is
the one that sorts as text; its fraction is left out when it is zero. Any
other form is described by a pattern in which a percent sign and a letter
stand for a part of the moment.

## Main definitions

* `Timestamp`: A moment.
* `Timestamp.iso`: The standard form.
* `Timestamp.format`: A form that a pattern describes.
-/

namespace Inlay

/-- A moment by date and time of day. -/
structure Timestamp where
  year : Nat
  month : Nat
  day : Nat
  hour : Nat := 0
  minute : Nat := 0
  second : Nat := 0
  microsecond : Nat := 0
deriving DecidableEq

namespace Timestamp

/-- A number with zeros in front up to a width. -/
def padded (width n : Nat) : List Char :=
  let digits := Nat.toDigits 10 n
  List.replicate (width - digits.length) '0' ++ digits

/-- The standard form: date, a `T`, time of day, and the fraction of a second
    if there is one. -/
def iso (t : Timestamp) : List Char :=
  padded 4 t.year ++ '-' :: padded 2 t.month ++ '-' :: padded 2 t.day ++ 'T' :: padded 2 t.hour
    ++ ':' :: padded 2 t.minute ++ ':' :: padded 2 t.second
    ++ if t.microsecond = 0 then [] else '.' :: padded 6 t.microsecond

/-- Whether a year has a leap day. -/
def isLeap (year : Nat) : Bool :=
  year % 4 == 0 && (year % 100 != 0 || year % 400 == 0)

/-- The number of days in each month of a year. -/
def monthLengths (year : Nat) : List Nat :=
  [31, if isLeap year then 29 else 28, 31, 30, 31, 30, 31, 31, 30, 31, 30, 31]

/-- The number of a day within its year, counted from one. -/
def dayOfYear (t : Timestamp) : Nat :=
  ((monthLengths t.year).take (t.month - 1)).foldl (· + ·) t.day

/-- The hour on a clock face of twelve. -/
def clockHour (t : Timestamp) : Nat :=
  if t.hour % 12 = 0 then 12 else t.hour % 12

/-- What a letter behind a percent sign stands for, if it stands for a part. -/
def part? (t : Timestamp) (letter : Char) : Option (List Char) :=
  if letter = 'Y' then some (Nat.toDigits 10 t.year)
  else if letter = 'm' then some (padded 2 t.month)
  else if letter = 'd' then some (padded 2 t.day)
  else if letter = 'H' then some (padded 2 t.hour)
  else if letter = 'M' then some (padded 2 t.minute)
  else if letter = 'S' then some (padded 2 t.second)
  else if letter = 'f' then some (padded 6 t.microsecond)
  else if letter = 'y' then some (padded 2 (t.year % 100))
  else if letter = 'I' then some (padded 2 t.clockHour)
  else if letter = 'j' then some (padded 3 t.dayOfYear)
  else if letter = '%' then some ['%']
  else none

/-- A moment in the form that letters behind percent signs describe. What
    stands for no part is written as it is. -/
def fill (t : Timestamp) : List Char → List Char
  | [] => []
  | [c] => [c]
  | c :: letter :: rest =>
    if c = '%' then
      match t.part? letter with
      | some part => part ++ t.fill rest
      | none => c :: letter :: t.fill rest
    else c :: t.fill (letter :: rest)

/-- A moment in the form that a pattern describes. A null character ends the
    pattern, and what is behind it does not count. -/
def format (t : Timestamp) (pattern : List Char) : List Char :=
  t.fill (pattern.takeWhile (· ≠ '\x00'))

end Timestamp

end Inlay
