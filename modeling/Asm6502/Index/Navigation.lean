import Asm6502.Index.Basic
import Asm6502.Search

/-!
# Navigation

Questions about an index: which token lies under a position, what a name refers to, where it occurs.

## Main definitions

- `SymbolIndex.lookup`, `SymbolIndex.resolve`: the definition of a symbol.
- `SymbolIndex.occurrences`: the tokens that spell a name.
- `SymbolIndex.tokenAt`, `SymbolIndex.symbolAt`: the token and the symbol under a position.
- `SymbolIndex.lineText`: the line that a token starts on.
- `SymbolIndex.statementAt`: the statement that a token belongs to.
-/

namespace Asm6502.SymbolIndex

def token? (ix : SymbolIndex) (i : Int) : Option Token :=
  if i < 0 then none else ix.tokens[i.toNat]?

/-- The text of the token at index `i`, empty if there is none. -/
def tokenText (ix : SymbolIndex) (i : Int) : Text :=
  ((ix.token? i).map Token.text).getD []

/-- The text of the token that names the symbol or file of a statement. -/
def statementName (ix : SymbolIndex) (s : Statement) : Text :=
  match s.name? with
  | some name => ix.tokenText name
  | none => []

def spanOf (ix : SymbolIndex) (t : Token) : Checked Span :=
  t.range.span ix.source

/-- The token that names the symbol or file of a statement. -/
def nameToken (ix : SymbolIndex) (s : Statement) : Checked Token :=
  match s.name? with
  | some name => Checked.entry ix.tokens name
  | none => .error (.index (-1) ix.tokens.size)

/-! ## Names -/

/-- The statement that defined `name` last. -/
def lookup (ix : SymbolIndex) (name : Text) : Checked (Option Statement) :=
  match ix.definitions.find? name with
  | some i => some <$> Checked.entry ix.statements i
  | none => pure none

/-- The definition that a reference to `name` means. In Kick Assembler a label may be defined with
an exclamation mark in front of its name and referred to without it. -/
def resolve (ix : SymbolIndex) (name : Text) : Checked (Option Statement) := do
  match ← ix.lookup name with
  | some s => pure (some s)
  | none => if ix.dialect = .kick then ix.lookup (.char '!' :: name) else pure none

def occurrences (ix : SymbolIndex) (name : Text) : List Nat :=
  (List.range ix.tokens.size).filter fun i =>
    ix.tokens[i]?.any fun t => t.kind == .identifier && t.text == name

/-! ## Positions -/

/-- The index of the token under `pos`. Of a token that spans several lines only the first one
counts, and that line belongs to it up to its end. -/
def tokenAt (ix : SymbolIndex) (pos : Position) : Checked (Option Nat) := do
  -- tokens do not overlap, so only the last one in front of this index can be the one
  let behind := Search.first ix.tokens (·.position.isAfter pos)
  if behind = 0 then return none
  let t ← Checked.entry ix.tokens ((behind : Int) - 1)
  if t.kind = .lineBreak ∨ t.position.line ≠ pos.line then return none
  let span ← ix.spanOf t
  if span.stop.line = span.start.line ∧ span.stop.char ≤ pos.char then return none
  return some (behind - 1)

/-- The identifier under `pos` and its index. The sigil of a reference stands for the identifier
behind it. -/
def symbolAt (ix : SymbolIndex) (pos : Position) : Checked (Option (Text × Nat)) := do
  match ← ix.tokenAt pos with
  | none => pure none
  | some i =>
    let t ← Checked.entry ix.tokens i
    -- a sigil at the very end has nothing behind it, and stays what it is
    let j := if t.kind = .reference ∧ i + 1 < ix.tokens.size then i + 1 else i
    let t ← Checked.entry ix.tokens j
    pure (if t.kind = .identifier then some (t.text, j) else none)

/-- The statement whose run holds the token at index `i`. -/
def statementAt (ix : SymbolIndex) (i : Nat) : Checked (Option Statement) := do
  let j := Search.first ix.statements (fun s => i < s.start + s.count)
  if j = ix.statements.size then return none
  let s ← Checked.entry ix.statements j
  return if s.start ≤ i then some s else none

def isBreakByte (b : UInt8) : Bool :=
  b == 0x0D || b == 0x0A

/-- The line on which the token at index `i` starts, without its end; empty if there is no such
token. -/
def lineText (ix : SymbolIndex) (i : Int) : Checked Text :=
  match ix.token? i with
  | none => pure []
  | some t => do
    let before ← Checked.slice ix.source 0 t.offset
    let behind ← Checked.slice ix.source t.offset ix.source.length
    let start := (before.reverse.takeWhile (!isBreakByte ·)).reverse
    pure (Text.decode (start ++ behind.takeWhile (!isBreakByte ·)))

end Asm6502.SymbolIndex
