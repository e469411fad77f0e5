import Asm6502.Text.Glyph
import Asm6502.Text.Hex
import Asm6502.Text.Printable

/-!
# Quoted text

A text between double quotes, on one line and with nothing invisible in it: printable characters
stand for themselves and all others are escaped, stray bytes included.

## Main definitions

- `Text.quoted`: the quoted form of a text.
-/

namespace Asm6502.Text

def hexPadded (width n : Nat) : String :=
  padLeft width '0' (hex n)

/-- The escape of a character that has a letter of its own. -/
def letterEscape? (c : Char) : Option String :=
  match c with
  | '"' => some "\\\""
  | '\\' => some "\\\\"
  | '\x07' => some "\\a"
  | '\x08' => some "\\b"
  | '\x0c' => some "\\f"
  | '\n' => some "\\n"
  | '\r' => some "\\r"
  | '\t' => some "\\t"
  | '\x0b' => some "\\v"
  | _ => none

def quotedGlyph : Glyph → String
  | .stray b => "\\x" ++ hexPadded 2 b.toNat
  | .char c =>
    match letterEscape? c with
    | some s => s
    | none =>
      if isPrintable c then c.toString
      else if c.toNat < 0x80 then "\\x" ++ hexPadded 2 c.toNat
      else if c.toNat < 0x10000 then "\\u" ++ hexPadded 4 c.toNat
      else "\\U" ++ hexPadded 8 c.toNat

def quoted (t : Text) : String :=
  "\"" ++ t.foldl (fun out g => out ++ quotedGlyph g) "" ++ "\""

end Asm6502.Text
