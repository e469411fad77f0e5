import Asm6502.Text.Cut

/-!
# Addresses in brackets

A host in brackets is an address of eight groups of sixteen bits, written in hexadecimal between
colons. One run of groups that are zero may be left out, and the last two groups may be written as
four octets between dots. A zone may follow behind a percent sign.

## Main definitions

- `Address.groups?`: how many groups a text spells.
- `Address.isAddress`: the texts that spell an address.
-/

namespace Asm6502.Address

def isHexDigit (c : Char) : Bool :=
  c.isDigit || decide ('a' ≤ c ∧ c ≤ 'f') || decide ('A' ≤ c ∧ c ≤ 'F')

/-- Whether a text spells sixteen bits: one to four hexadecimal digits. -/
def isGroup (t : Text) : Bool :=
  !t.isEmpty && decide (t.length ≤ 4) && t.all (·.satisfies isHexDigit)

/-- Whether a text spells eight bits: a decimal number up to 255, without zeros in front. -/
def isOctet (t : Text) : Bool :=
  let digits := t.filterMap Glyph.char?
  !t.isEmpty && decide (t.length ≤ 3) && t.all (·.satisfies Char.isDigit) &&
    (digits.length == 1 || digits.head? != some '0') &&
    decide (Nat.ofDigitChars 10 digits 0 ≤ 255)

/-- Whether a text spells thirty-two bits as four octets. -/
def isQuad (t : Text) : Bool :=
  let fields := t.splitOn (.char '.')
  fields.length == 4 && fields.all isOctet

/-- The number of groups that a text spells, unless something in it is none. Four octets may stand
for the last two if `quad` allows it. -/
def groups? (quad : Bool) (t : Text) : Option Nat :=
  if t.isEmpty then some 0
  else
    let fields := t.splitOn (.char ':')
    if fields.all isGroup then some fields.length
    else if quad && fields.dropLast.all isGroup && fields.getLast?.any isQuad then
      some (fields.length + 1)
    else none

/-- Whether a text spells all groups, or all but those that a pair of colons stands for, of which
there is at least one. -/
def spellsGroups (t : Text) : Bool :=
  match Text.cutBefore [.char ':', .char ':'] t with
  | (front, []) => groups? true front == some 8
  | (front, back) =>
    match groups? false front, groups? true (back.drop 2) with
    | some m, some n => decide (m + n < 8)
    | _, _ => false

/-- Whether a text spells an address. A zone, if announced, is not empty. -/
def isAddress (t : Text) : Bool :=
  match Text.cut '%' t with
  | (front, none) => spellsGroups front
  | (front, some zone) => !zone.isEmpty && spellsGroups front

end Asm6502.Address
