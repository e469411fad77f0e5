/-!
# Reading integers

An integer is read digit by digit into 64 bits. The first character that is no digit of the base, or
the first digit that no longer fits, decides why reading fails.

## Main definitions

- `Number.Error`: why a text is no integer.
- `Number.parse`: the integer that a text spells in a base.
-/

namespace Asm6502.Number

inductive Error where
  | syntaxError
  | outOfRange
  deriving DecidableEq, Repr

def Error.message : Error → String
  | syntaxError => "invalid syntax"
  | outOfRange => "value out of range"

/-- The value of a digit, counting letters of either case from ten on. -/
def digitValue? (c : Char) : Option Nat :=
  if c.isDigit then some (c.toNat - '0'.toNat)
  else if c.isLower then some (c.toNat - 'a'.toNat + 10)
  else if c.isUpper then some (c.toNat - 'A'.toNat + 10)
  else none

/-- Reads digits behind those that make up `n`. -/
def parseDigits (base n : Nat) : List Char → Except Error Nat
  | [] => .ok n
  | c :: cs =>
    match digitValue? c with
    | none => .error .syntaxError
    | some d =>
      if base ≤ d then .error .syntaxError
      else if 0x10000000000000000 ≤ n * base + d then .error .outOfRange
      else parseDigits base (n * base + d) cs

/-- The integer of 64 bits that digits, behind an optional sign, spell. -/
def parse (base : Nat) (cs : List Char) : Except Error Int :=
  let (negative, digits) := match cs with
    | '-' :: rest => (true, rest)
    | '+' :: rest => (false, rest)
    | _ => (false, cs)
  if digits.isEmpty then .error .syntaxError
  else match parseDigits base 0 digits with
    | .error e => .error e
    | .ok n =>
      if negative then if n ≤ 0x8000000000000000 then .ok (-n) else .error .outOfRange
      else if n < 0x8000000000000000 then .ok n else .error .outOfRange

end Asm6502.Number
