/-!
# Digits of numbers

## Main definitions

- `Text.hex`, `Text.upperHex`, `Text.binary`: a number in base sixteen and two.
- `Text.padLeft`, `Text.padRight`: a string filled up to a width.
-/

namespace Asm6502.Text

/-- A number in hexadecimal, with small letters. -/
def hex (n : Nat) : String :=
  String.ofList (Nat.toDigits 16 n)

/-- A number in hexadecimal, with capital letters. -/
def upperHex (n : Nat) : String :=
  String.ofList ((Nat.toDigits 16 n).map Char.toUpper)

def binary (n : Nat) : String :=
  String.ofList (Nat.toDigits 2 n)

/-- `s` with copies of `c` in front, up to `width` characters. -/
def padLeft (width : Nat) (c : Char) (s : String) : String :=
  String.ofList (List.replicate (width - s.length) c) ++ s

/-- `s` with copies of `c` behind it, up to `width` characters. -/
def padRight (width : Nat) (c : Char) (s : String) : String :=
  s ++ String.ofList (List.replicate (width - s.length) c)

end Asm6502.Text
