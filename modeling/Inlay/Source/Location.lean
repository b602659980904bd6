/-!
# Source Locations

Where a character stands in a source: its line and column, both counted from
zero, and its offset from the start.

The three counters are kept together because every step through a source
moves them together, and in only two ways. Text on one line moves the column
and the offset by its length (`shifted`); a line break moves the line and the
offset and returns to the first column (`nextLine`). They are integers rather
than naturals because a tree can also be put together by hand, and nothing
restricts the numbers written into it.

## Main definitions

* `Location`: Line, column and offset.
* `Location.shifted`: A place further along the same line.
* `Location.nextLine`: The place just behind a line break.
-/

namespace Inlay

/-- Line, column and offset of a place in a source, all counted from zero. -/
structure Location where
  line : Int := 0
  col : Int := 0
  pos : Int := 0
deriving DecidableEq

namespace Location

/-- The place `count` characters further along the same line. -/
def shifted (loc : Location) (count : Int) : Location :=
  { loc with col := loc.col + count, pos := loc.pos + count }

/-- The place just behind a line break found here. -/
def nextLine (loc : Location) : Location :=
  { line := loc.line + 1, col := 0, pos := loc.pos + 1 }

/-- Shifting by nothing stays in place. -/
@[simp] theorem shifted_zero (loc : Location) : loc.shifted 0 = loc := by
  simp only [shifted, Int.add_zero]

/-- Two shifts along a line add up. -/
theorem shifted_shifted (loc : Location) (a b : Int) :
    (loc.shifted a).shifted b = loc.shifted (a + b) := by
  simp only [shifted, Int.add_assoc]

end Location

end Inlay
