/-!
# Blank characters at the ends of a text

A character is blank when it has the Unicode property White_Space. Blanks are taken off both ends of a rule's prelude, of a
skipped declaration and of the digits of a hexadecimal color. The blank characters that separate tokens are fewer
(`isSpace`): a no-break space, for one, is a letter of a name.
-/

namespace StyleCheck

/-- The characters with the property White_Space. -/
def isBlank (c : Char) : Bool :=
  let n := c.toNat
  (9 ≤ n && n ≤ 13) || n == 0x20 || n == 0x85 || n == 0xA0 || n == 0x1680 || (0x2000 ≤ n && n ≤ 0x200A) ||
    n == 0x2028 || n == 0x2029 || n == 0x202F || n == 0x205F || n == 0x3000

/-- The characters without the blanks at either end. -/
def trimBlank (cs : List Char) : List Char :=
  ((cs.dropWhile isBlank).reverse.dropWhile isBlank).reverse

end StyleCheck
