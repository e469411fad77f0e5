import Asm6502.Text.Glyph

/-!
# Blanks

A blank is a character with the White_Space property. Stray bytes are never blank.

## Main definitions

- `Text.isBlank`: the blanks.
- `Text.trim`: a text without the blanks at its ends.
- `Text.fields`: the words between blanks.
-/

namespace Asm6502.Text

/-- Whether a character has the White_Space property. -/
def isBlank (c : Char) : Bool :=
  let n := c.toNat
  (0x09 ≤ n && n ≤ 0x0D) || n == 0x20 || n == 0x85 || n == 0xA0 || n == 0x1680 ||
    (0x2000 ≤ n && n ≤ 0x200A) || n == 0x2028 || n == 0x2029 || n == 0x202F || n == 0x205F ||
    n == 0x3000

def trimLeft (t : Text) : Text :=
  t.dropWhile (·.satisfies isBlank)

def trimRight (t : Text) : Text :=
  (trimLeft t.reverse).reverse

def trim (t : Text) : Text :=
  trimRight (trimLeft t)

/-- The maximal runs of characters that are not blank. -/
def fields (t : Text) : List Text :=
  (t.splitOnP (·.satisfies isBlank)).filter (!·.isEmpty)

end Asm6502.Text
