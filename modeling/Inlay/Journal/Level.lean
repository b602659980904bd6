/-!
# Levels

How much a log record matters. The levels are ordered, and each has a number
ten above the one before it, which leaves room that nobody uses.

A level is looked up by its name in any mixture of cases. Upper case is taken
over all scripts, and beyond ASCII two letters have an ASCII letter as their
upper case, the dotless i and the long s; no letter that becomes several ones
can be part of a level's name.

## Main definitions

* `Level`: The five levels.
* `Level.rank`: The number of a level.
* `Level.ofName?`: The level with a given name.
-/

namespace Inlay

/-- How much a log record matters. -/
inductive Level where
  | debug
  | info
  | warning
  | error
  | critical
deriving DecidableEq

namespace Level

/-- Every level, from the least to the most important. -/
def all : List Level :=
  [debug, info, warning, error, critical]

/-- The name of a level. -/
def name : Level → String
  | debug => "DEBUG"
  | info => "INFO"
  | warning => "WARNING"
  | error => "ERROR"
  | critical => "CRITICAL"

/-- The number by which levels are compared. -/
def rank (l : Level) : Nat :=
  10 * (all.idxOf l + 1)

/-- The upper-case form of a character, as far as it can be part of a name. -/
def upperChar (c : Char) : Char :=
  if c.toNat = 0x0131 then 'I'
  else if c.toNat = 0x017F then 'S'
  else c.toUpper

/-- The level with a given name, in any mixture of cases. -/
def ofName? (name : String) : Option Level :=
  all.find? fun l => l.name.toList == name.toList.map upperChar

/-- Whether a record of level `l` passes a threshold. -/
def passes (l threshold : Level) : Bool :=
  threshold.rank ≤ l.rank

end Level

end Inlay
