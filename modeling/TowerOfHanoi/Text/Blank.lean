/-!
# Blank characters

The characters with the Unicode property `White_Space`, as a table of ranges, and what is built on
them: the first word of a text, and a text without the blanks at its ends.
-/

namespace TowerOfHanoi.Text

/-- The code points with the property `White_Space`, as inclusive ranges in rising order. -/
def blankRanges : List (Nat × Nat) :=
  [(0x09, 0x0D), (0x20, 0x20), (0x85, 0x85), (0xA0, 0xA0), (0x1680, 0x1680), (0x2000, 0x200A),
    (0x2028, 0x2029), (0x202F, 0x202F), (0x205F, 0x205F), (0x3000, 0x3000)]

/-- Is this character blank? -/
def isBlank (c : Char) : Bool :=
  blankRanges.any fun range => range.1 ≤ c.toNat && c.toNat ≤ range.2

/-- The first longest run of characters that are not blank. It is empty only if all are blank. -/
def firstWord (cs : List Char) : List Char :=
  (cs.dropWhile isBlank).takeWhile fun c => !isBlank c

/-- Drops the blanks at both ends. -/
def trim (cs : List Char) : List Char :=
  ((cs.dropWhile isBlank).reverse.dropWhile isBlank).reverse

/-- The table holds 25 characters. -/
example : (blankRanges.map fun range => range.2 + 1 - range.1).sum = 25 := by decide

/-- The ranges rise and leave gaps. -/
example : blankRanges.Pairwise fun r s => r.2 + 1 < s.1 := by decide

end TowerOfHanoi.Text
