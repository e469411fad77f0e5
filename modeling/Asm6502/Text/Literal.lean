import Asm6502.Text.Glyph
import Asm6502.Text.Hex
import Asm6502.Text.Number

/-!
# Numeric literals

A literal is decimal, hexadecimal behind a dollar sign, or binary behind a percent sign.

## Main definitions

- `Literal.value?`: the value of a literal.
- `Literal.decimal`, `Literal.hexadecimal`, `Literal.binary`: the three ways to write a value.
-/

namespace Asm6502.Literal

/-- The value of a literal, if it fits into 64 bits with a sign. -/
def value? (t : Text) : Option Int :=
  let value := match t.shown.toList with
    | '$' :: digits => Number.parse 16 digits
    | '%' :: digits => Number.parse 2 digits
    | digits => Number.parse 10 digits
  value.toOption

/-- A number with its sign in front of its digits. -/
def signed (digits : Nat → String) (n : Int) : String :=
  if n < 0 then "-" ++ digits n.natAbs else digits n.natAbs

def decimal (n : Int) : String :=
  signed toString n

def hexadecimal (n : Int) : String :=
  "$" ++ signed Text.upperHex n

def binary (n : Int) : String :=
  "%" ++ signed Text.binary n

end Asm6502.Literal
