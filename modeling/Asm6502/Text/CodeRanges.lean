/-!
# Ranges of code points

A property of characters is stored as the list of the code point ranges that have it, in increasing
order and both ends included.

## Main definitions

- `Text.CodeRanges`: such a list.
- `Text.CodeRanges.contains`: whether a character lies in one of the ranges.
-/

namespace Asm6502.Text

/-- Code point ranges, each given by its first and its last member. -/
abbrev CodeRanges := List (Nat × Nat)

def CodeRanges.contains (ranges : CodeRanges) (c : Char) : Bool :=
  ranges.any fun (first, last) => decide (first ≤ c.toNat ∧ c.toNat ≤ last)

end Asm6502.Text
