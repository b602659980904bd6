/-!
# Blank Characters

Which characters count as blank space between the parts of a tag, and as the
end of a piece of embedded code.

The class is the Unicode white space of a text scanner rather than the short
list of a programming language: it holds the ASCII controls from tab to
carriage return, the four information separators, and the spaces of every
script. The zero-width characters are not in it, since they are invisible
without being space.

## Main definitions

* `blankRanges`: The class as ranges of code points.
* `isBlank`: Membership in the class.
-/

namespace Inlay

namespace Text

/-- The blank characters as inclusive ranges of code points, in order. -/
def blankRanges : List (Nat × Nat) :=
  [(0x0009, 0x000D), (0x001C, 0x0020), (0x0085, 0x0085), (0x00A0, 0x00A0),
   (0x1680, 0x1680), (0x2000, 0x200A), (0x2028, 0x2029), (0x202F, 0x202F),
   (0x205F, 0x205F), (0x3000, 0x3000)]

/-- Whether a code point lies in one of some inclusive ranges. -/
def inRanges (ranges : List (Nat × Nat)) (n : Nat) : Bool :=
  ranges.any fun r => r.1 ≤ n && n ≤ r.2

/-- Whether a character is blank space. -/
def isBlank (c : Char) : Bool :=
  inRanges blankRanges c.toNat

end Text

end Inlay
