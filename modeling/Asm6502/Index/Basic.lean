import Asm6502.Diagnostic
import Asm6502.Index.Accumulator
import Asm6502.Lexeme

/-!
# The symbol index

Reading a text yields its tokens, the statements they form, the symbols these define, the files they
include, and remarks about all of it. Reading never fails.

## Main definitions

- `SymbolIndex`: the result.
- `SymbolIndex.parse`: the index of a text under a dialect.
- `SymbolIndex.interrupted`: the index of a text whose reading was called off before it began.
-/

namespace Asm6502

structure SymbolIndex where
  source : Bytes
  dialect : Dialect
  tokens : Array Token
  statements : Array Statement
  /-- For each symbol the index of the statement that defined it last. -/
  definitions : Table Text Nat
  /-- The indices of the statements that include a file. -/
  references : Array Nat
  diagnostics : List Diagnostic
  /-- Whether reading was called off, so that the rest is not to be relied on. -/
  incomplete : Bool := false

namespace SymbolIndex

def lexemes (d : Dialect) (source : Bytes) : List Lexeme :=
  Lexeme.scan d true (Text.decode source)

def gather (d : Dialect) (source : Bytes) : Accumulator :=
  ((Lexeme.tokens 0 .origin true (lexemes d source)).foldl Accumulator.emit { dialect := d }).flush

/-- The warning about a redefinition. None is given between two constants, since assembler variables
are meant to be set anew. -/
def redefinitionWarning? (tokens : Array Token) (statements : Array Statement)
    (r : Redefinition) : Option Diagnostic := do
  let previous ← statements[r.previous]?
  let current ← statements[r.current]?
  if previous.definitionKind? = some .constant ∧ current.definitionKind? = some .constant then none
  let previousName ← tokens[← previous.name?]?
  let currentName ← tokens[← current.name?]?
  pure (.redefinition r.name previousName.position.line currentName.span)

def parse (d : Dialect) (source : Bytes) : SymbolIndex :=
  let a := gather d source
  { source, dialect := d
    tokens := a.tokens
    statements := a.statements
    definitions := a.definitions
    references := a.references
    diagnostics :=
      (Lexeme.unclosedSpans .origin (lexemes d source)).map .unterminatedString ++
        a.redefinitions.toList.filterMap (redefinitionWarning? a.tokens a.statements) }

/-- The index of a source text whose reading was called off before it began. An empty text is read
all the same, since there is nothing to stop at. -/
def interrupted (d : Dialect) (filename : Text) (source : Bytes) : SymbolIndex :=
  if source.isEmpty then parse d source
  else
    { source, dialect := d
      tokens := #[], statements := #[], definitions := [], references := #[]
      diagnostics := [.interrupted filename]
      incomplete := true }

end SymbolIndex

end Asm6502
