import Asm6502.Dialect
import Asm6502.Text.Digit
import Asm6502.Text.Letter

/-!
# Symbol characters

Which characters a name is made of, and which ones open a name or a directive, differs from dialect
to dialect.

## Main definitions

- `Dialect.isSymbol`: the characters inside a name.
- `Dialect.opensName`: the characters at which a name, with its sigil, starts.
- `Dialect.opensDirective`: the character at which a directive starts.
- `Glyph.isDecimal`, `Glyph.isHex`, `Glyph.isBinary`: the digits of number literals.
-/

namespace Asm6502

namespace Glyph

def isDecimal (g : Glyph) : Bool :=
  g.satisfies Char.isDigit

def isHex (g : Glyph) : Bool :=
  g.satisfies fun c => c.isDigit || ('a' ≤ c && c ≤ 'f') || ('A' ≤ c && c ≤ 'F')

def isBinary (g : Glyph) : Bool :=
  g.is '0' || g.is '1'

end Glyph

namespace Dialect

/-- Whether a glyph may stand inside a name. -/
def isSymbol (d : Dialect) (g : Glyph) : Bool :=
  g.is '_' || g.satisfies Text.isLetter || g.satisfies Text.isDigit ||
    d == llvm && (g.is '.' || g.is '$')

/-- Whether a name, or the sigil of a name, starts at `g`, which `next` follows. -/
def opensName (d : Dialect) (g : Glyph) (next : Option Glyph) : Bool :=
  g.is '.' && (d == acme || d == tmpx) ||
    g.is '!' && d == kick ||
    g.is '_' || g.satisfies Text.isLetter ||
    g.is '+' && next.any d.isSymbol ||
    g.is '#' && d == tmpx && next.any d.isSymbol

def opensDirective (d : Dialect) (g : Glyph) : Bool :=
  match d with
  | acme => g.is '!'
  | kick | llvm => g.is '.'
  | tmpx => g.is '#'
  | unknown => false

end Dialect

end Asm6502
