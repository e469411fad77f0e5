import Asm6502.Index.Navigation

/-!
# Highlighting

Every token but a line break is highlighted, a token that spans several lines on its first line
only. The highlights are sent as one list of numbers, five for each, in which positions are relative
to the highlight before.

## Main definitions

- `HighlightKind`, `Highlight`: a highlighted stretch of a line.
- `SymbolIndex.highlights`: the highlights of a document.
- `Highlight.encode`: highlights as numbers.
-/

namespace Asm6502

inductive HighlightKind where
  | comment
  | directive
  | symbol
  | keyword
  | string
  | number
  | operator
  | function
  deriving DecidableEq, Repr

namespace HighlightKind

def all : List HighlightKind :=
  [comment, directive, symbol, keyword, string, number, operator, function]

def name : HighlightKind → String
  | comment => "comment"
  | directive => "macro"
  | symbol => "variable"
  | keyword => "keyword"
  | string => "string"
  | number => "number"
  | operator => "operator"
  | function => "function"

def code : HighlightKind → UInt32
  | comment => 0
  | directive => 1
  | symbol => 2
  | keyword => 3
  | string => 4
  | number => 5
  | operator => 6
  | function => 7

end HighlightKind

/-- A stretch of a line, of `length` UTF-16 units, to be shown as `kind`. -/
structure Highlight where
  position : Position
  length : Nat
  kind : HighlightKind
  /-- Whether a symbol is defined here. -/
  declares : Bool
  deriving DecidableEq, Repr

namespace Highlight

def modifierNames : List String := ["declaration"]

/-- The numbers of a highlight that follows one at `previous`. The character counts from the
previous one if that is on the same line. -/
def numbers (previous : Position) (h : Highlight) : List UInt32 :=
  let line := h.position.line - previous.line
  let char := if h.position.line = previous.line then h.position.char - previous.char
    else h.position.char
  [.ofInt line, .ofInt char, .ofNat h.length, h.kind.code, if h.declares then 1 else 0]

/-- The numbers of highlights that follow one at `previous`. -/
def encodeFrom (previous : Position) : List Highlight → List UInt32
  | [] => []
  | h :: hs => h.numbers previous ++ encodeFrom h.position hs

def encode (hs : List Highlight) : List UInt32 :=
  encodeFrom .origin hs

end Highlight

namespace SymbolIndex

def nameHighlight (ix : SymbolIndex) (name : Text) : Checked HighlightKind := do
  if ix.dialect.isMnemonic name then return .keyword
  let s? ← ix.resolve name
  return if s?.any (·.definitionKind? = some .macroDef) then .function else .symbol

def highlightKind? (ix : SymbolIndex) (t : Token) : Checked (Option HighlightKind) :=
  match t.kind with
  | .lineBreak => pure none
  | .comment => pure (some .comment)
  | .preprocessor => pure (some .directive)
  | .directive => pure (some .directive)
  | .string => pure (some .string)
  | .number => pure (some .number)
  | .reference => pure (some .operator)
  | .operator => pure (some .operator)
  | .identifier => some <$> ix.nameHighlight t.text

/-- The part of a text on its first line. -/
def firstLine (t : Text) : Text :=
  t.takeWhile (!·.isBreak)

/-- The indices of the tokens that name a defined symbol. -/
def declaredNames (ix : SymbolIndex) : List Nat :=
  ix.statements.toList.filterMap fun s => if s.isDefinition then s.name? else none

/-- The highlight of the token `t` at index `i`, where `declared` are the tokens that name a defined
symbol. -/
def highlight? (ix : SymbolIndex) (declared : List Nat) (t : Token) (i : Nat) :
    Checked (Option Highlight) := do
  let some kind ← ix.highlightKind? t | return none
  -- a string may open with a line end, and then there is nothing on its first line
  let length := (firstLine t.text).units
  return if length = 0 then none
    else some { position := t.position, length, kind, declares := declared.contains i }

def highlights (ix : SymbolIndex) : Checked (List Highlight) := do
  let declared := ix.declaredNames
  let hs ← ix.tokens.toList.zipIdx.mapM fun (t, i) => ix.highlight? declared t i
  return hs.reduceOption

end SymbolIndex

end Asm6502
