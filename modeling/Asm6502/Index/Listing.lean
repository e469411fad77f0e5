import Asm6502.Index.Navigation
import Asm6502.Text.Quoted

/-!
# Listings

An index in print: a line per token, then the definitions and inclusions, then the remarks.

## Main definitions

- `SymbolIndex.listing`: what is printed of an index from a given token on.
-/

namespace Asm6502.SymbolIndex

/-- A token: row, column, a mark on the first one of a line, kind and text. -/
def tokenLine (t : Token) : String :=
  let row := Text.padLeft 4 ' ' (toString (t.position.line + 1))
  let column := Text.padRight 3 ' ' (toString t.position.char)
  let mark := if t.first then "^" else " "
  let kind := Text.padRight 12 ' ' t.kind.name
  s!"{row}:{column} {mark} {kind} {Text.quoted t.text}\n"

/-- A definition or inclusion; comments are not listed. -/
def statementLine (ix : SymbolIndex) (s : Statement) : String :=
  let name := Text.quoted (ix.statementName s)
  match s.role with
  | .comment => ""
  | .definition kind _ => s!"{s.role.name} {kind.name} {name}\n"
  | .inclusion _ => s!"{s.role.name} {name}\n"

/-- A remark and the position it starts at, counted from one. -/
def diagnosticLine (d : Diagnostic) : Text :=
  Text.ofString s!"{d.span.start.line + 1}:{d.span.start.char + 1}: " ++ d.message ++
    [.char '\n']

/-- The remarks on the rows from the one of the token at index `start` on, or all remarks if there
is no such token. -/
def listedDiagnostics (ix : SymbolIndex) (start : Nat) : List Diagnostic :=
  -- without such a token the rows count from the first one on
  let row := (ix.tokens[start]?.map (·.position.line)).getD 0
  ix.diagnostics.filter fun d => row ≤ d.span.start.line

/-- The index from the token at index `start` on. -/
def listing (ix : SymbolIndex) (start : Nat) : Text :=
  let tokens := (ix.tokens.toList.drop start).map tokenLine
  let statements :=
    (ix.statements.toList.filter (start ≤ ·.start)).map ix.statementLine
  (tokens ++ statements).flatMap Text.ofString ++
    (ix.listedDiagnostics start).flatMap diagnosticLine

end Asm6502.SymbolIndex
