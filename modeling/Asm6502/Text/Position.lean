import Asm6502.Fault
import Asm6502.Text.Glyph

/-!
# Positions

A position is a line and a column, both counted from zero, the column in UTF-16 code units. A
carriage return, a line feed and the pair of both each end one line.

## Main definitions

- `Position`, `Span`: a place in a text, and the stretch between two places.
- `Position.advance`: the position behind a text that starts at a given position.
- `Range`: a stretch of source bytes together with the position it starts at.
- `Range.span`: the positions at which such a stretch starts and ends.
-/

namespace Asm6502

/-- A line and a column in UTF-16 code units, counted from zero. -/
structure Position where
  line : Int
  char : Int
  deriving DecidableEq, Repr

namespace Position

def origin : Position := ⟨0, 0⟩

def nextLine (p : Position) : Position :=
  ⟨p.line + 1, 0⟩

def right (p : Position) (units : Nat) : Position :=
  ⟨p.line, p.char + units⟩

/-- The position behind `text`, which starts at `p`. -/
def advance (p : Position) : Text → Position
  | [] => p
  | .char '\r' :: .char '\n' :: text => p.nextLine.advance text
  | g :: text => (if g.isBreak then p.nextLine else p.right g.units).advance text

/-- The order of positions: by line, then by column. -/
instance : LE Position where
  le p q := p.line < q.line ∨ p.line = q.line ∧ p.char ≤ q.char

instance (p q : Position) : Decidable (p ≤ q) :=
  inferInstanceAs (Decidable (p.line < q.line ∨ p.line = q.line ∧ p.char ≤ q.char))

def isAfter (p q : Position) : Bool :=
  decide (p.line > q.line) || decide (p.line = q.line) && decide (p.char > q.char)

@[simp] theorem advance_nil (p : Position) : p.advance [] = p := rfl

end Position

/-- The stretch from one position up to, and without, another. -/
structure Span where
  start : Position
  stop : Position
  deriving DecidableEq, Repr

/-- The stretch of `length` source bytes from `offset`, which is at `position`. -/
structure Range where
  offset : Int
  position : Position
  length : Int
  deriving DecidableEq, Repr

/-- The positions at which the range starts and ends, the end found by walking over its text. -/
def Range.span (r : Range) (source : Bytes) : Checked Span := do
  let piece ← Checked.slice source r.offset (r.offset + r.length)
  pure ⟨r.position, r.position.advance (Text.decode piece)⟩

end Asm6502
