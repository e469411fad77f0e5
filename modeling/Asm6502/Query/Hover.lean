import Asm6502.Instruction
import Asm6502.Query.Location
import Asm6502.Text.Blank
import Asm6502.Text.Literal

/-!
# Hover texts

What is shown about the token under a position, in Markdown.

## Main definitions

- `Hover`: a text and the stretch it is about.
- `SymbolIndex.hoverAt`: the hover text at a position.
-/

namespace Asm6502

structure Hover where
  text : Text
  span : Span
  deriving DecidableEq, Repr

namespace Hover

def code (t : Text) : Text :=
  .char '`' :: t ++ [.char '`']

def mnemonic (name : Text) : Text :=
  let key := Text.lowercase name.shown
  Text.ofString s!"`{key.map Char.toUpper}` {Instruction.describe key}"

def directive (d : Dialect) (text : Text) : Text :=
  Text.ofString "Directive " ++ code text ++ Text.ofString s!" ({d.name})"

def preprocessor (keyword : Text) : Text :=
  Text.ofString "Preprocessor directive " ++ code keyword

/-- A number in the three ways to write it. -/
def number (text : Text) (value : Int) : Text :=
  let forms := [Literal.decimal value, Literal.hexadecimal value, Literal.binary value]
  Text.ofString "Integer Literal " ++ code text ++ Text.ofString "\n\n" ++
    List.intercalate (Text.ofString " | ") (forms.map fun form => code (Text.ofString form))

def inclusion (name : Text) : Text :=
  Text.ofString "Includes " ++ code name

/-- A symbol that is defined nowhere in the document. -/
def unresolved (name : Text) : Text :=
  Text.ofString "Reference to " ++ code name

/-- A symbol that is defined on the given row, counted from zero, which reads `line`. -/
def definition (kind : DefinitionKind) (name : Text) (row : Int) (line : Text) : Text :=
  Text.ofString s!"{kind.name} " ++ code name ++
    Text.ofString s!"\n\nDefined on line {row + 1}:\n\n```\n" ++ line ++ Text.ofString "\n```"

end Hover

namespace SymbolIndex

def describeDefinition (ix : SymbolIndex) (s : Statement) : Checked Text := do
  let name ← ix.nameToken s
  let line ← ix.lineText ((s.name?.map Int.ofNat).getD (-1))
  return Hover.definition (s.definitionKind?.getD .label) (ix.statementName s) name.position.line
    (Text.trim line)

def describeSymbol (ix : SymbolIndex) (name : Text) : Checked Text := do
  if ix.dialect.isMnemonic name then return Hover.mnemonic name
  match ← ix.resolve name with
  | some s => ix.describeDefinition s
  | none => return Hover.unresolved name

/-- The keyword of a preprocessor line. -/
def preprocessorKeyword (text : Text) : Checked Text :=
  Checked.entry (Text.fields text).toArray 0

/-- What is said about the token at index `i`, which is no part of a symbol. -/
def describeToken (ix : SymbolIndex) (i : Nat) (t : Token) : Checked (Option Text) := do
  match t.kind with
  | .directive =>
    let isSigil (g : Glyph) : Bool := g.is '!' || g.is '.' || g.is '#'
    return if ix.dialect.isDirective (t.text.dropWhile isSigil) then
      some (Hover.directive ix.dialect t.text) else none
  | .preprocessor => return some (Hover.preprocessor (← preprocessorKeyword t.text))
  | .number => return (Literal.value? t.text).map (Hover.number t.text)
  | .string => return if ← ix.namesFile i then some (Hover.inclusion t.text) else none
  | _ => return none

def hoverAt (ix : SymbolIndex) (pos : Position) : Checked (Option Hover) := do
  let some i ← ix.tokenAt pos | return none
  let t ← Checked.entry ix.tokens i
  let span ← ix.spanOf t
  if t.kind = .identifier ∨ t.kind = .reference then
    let some (name, j) ← ix.symbolAt pos | return none
    let span ← ix.spanOf (← Checked.entry ix.tokens j)
    return some ⟨← ix.describeSymbol name, span⟩
  return (← ix.describeToken i t).map (⟨·, span⟩)

end SymbolIndex

end Asm6502
