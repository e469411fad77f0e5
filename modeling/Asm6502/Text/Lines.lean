import Asm6502.Text.Glyph

/-!
# Lines

Lines as other tools write them: ended by a line feed, which a carriage return may precede.

## Main definitions

- `Text.joinBreaks`: line feeds in place of the pairs of carriage return and line feed.
- `Text.lines`: the lines of a text.
- `Text.unlines`: lines put together with a line feed between them.
-/

namespace Asm6502.Text

/-- A text with every pair of carriage return and line feed replaced by a line feed. -/
def joinBreaks : Text → Text
  | [] => []
  | .char '\r' :: .char '\n' :: t => .char '\n' :: joinBreaks t
  | g :: t => g :: joinBreaks t

/-- The lines of a text. The last one need not be ended, and may be empty. -/
def lines (t : Text) : List Text :=
  (joinBreaks t).splitOn (.char '\n')

/-- The lines with a line feed between each two. -/
def unlines (ls : List Text) : Text :=
  List.intercalate [.char '\n'] ls

end Asm6502.Text
