/-!
# Blank characters and trimming

The blank characters are those with the White_Space property of Unicode; `trim` drops them at both
ends of a text.
-/

namespace Lighting.Text

/-- Whether `c` has the White_Space property. -/
def isBlank (c : Char) : Bool :=
  let n := c.toNat
  (9 ≤ n && n ≤ 13) || n == 0x20 || n == 0x85 || n == 0xA0 || n == 0x1680 ||
    (0x2000 ≤ n && n ≤ 0x200A) || n == 0x2028 || n == 0x2029 || n == 0x202F || n == 0x205F ||
    n == 0x3000

/-- Drops the characters of class `p` at both ends. -/
def trimBoth (p : Char → Bool) (cs : List Char) : List Char :=
  ((cs.dropWhile p).reverse.dropWhile p).reverse

/-- Drops the blank characters at both ends. -/
def trim (cs : List Char) : List Char := trimBoth isBlank cs

end Lighting.Text
