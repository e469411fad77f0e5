import Asm6502.Text.Glyph

/-!
# Cutting texts

## Main definitions

- `Text.cut`, `Text.cutLast?`: the two sides of the first and of the last occurrence of a character.
- `Text.cutBefore`: the text in front of a mark, and the rest from there on.
-/

namespace Asm6502.Text

/-- The text in front of the first `c`, and what follows it. -/
def cut (c : Char) (t : Text) : Text × Option Text :=
  let front := t.takeWhile (!·.is c)
  (front, if front.length < t.length then some (t.drop (front.length + 1)) else none)

/-- The text in front of the last `c`, and what follows it. -/
def cutLast? (c : Char) (t : Text) : Option (Text × Text) :=
  let back := (t.reverse.takeWhile (!·.is c)).reverse
  if back.length < t.length then some (t.take (t.length - back.length - 1), back) else none

/-- The text in front of the first `mark`, and the rest from there on. -/
def cutBefore (mark : Text) : Text → Text × Text
  | [] => ([], [])
  | g :: t =>
    if mark.isPrefixOf (g :: t) then ([], g :: t)
    else
      let (front, back) := cutBefore mark t
      (g :: front, back)

end Asm6502.Text
