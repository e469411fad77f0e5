import Asm6502.Text.Position

/-!
# Tokens

A token is a stretch of source text with a kind. It keeps its text beside its place, so that
nothing has to be cut out of the source again to read it.

## Main definitions

- `TokenKind`, `Token`: the kinds, and a token.
- `Token.range`, `Token.span`: where the token lies in the source.
-/

namespace Asm6502

inductive TokenKind where
  | lineBreak
  | comment
  | preprocessor
  | identifier
  | reference
  | directive
  | string
  | number
  | operator
  deriving DecidableEq, Repr

namespace TokenKind

def name : TokenKind → String
  | lineBreak => "LineBreak"
  | comment => "Comment"
  | preprocessor => "Preprocessor"
  | identifier => "Identifier"
  | reference => "Reference"
  | directive => "Macro"
  | string => "String"
  | number => "Number"
  | operator => "Operator"

def all : List TokenKind :=
  [lineBreak, comment, preprocessor, identifier, reference, directive, string, number, operator]

/-- The name of the kind with the given number, in the order of `all`. -/
def nameOfCode (n : Int) : String :=
  if n < 0 then "Unknown" else (all.map name).getD n.toNat "Unknown"

end TokenKind

structure Token where
  kind : TokenKind
  /-- The number of source bytes in front of the token. -/
  offset : Nat
  position : Position
  text : Text
  /-- Whether the token opens its line. -/
  first : Bool
  deriving DecidableEq, Repr

namespace Token

def length (t : Token) : Nat :=
  t.text.size

def stop (t : Token) : Nat :=
  t.offset + t.length

def range (t : Token) : Range :=
  ⟨t.offset, t.position, t.length⟩

def span (t : Token) : Span :=
  ⟨t.position, t.position.advance t.text⟩

end Token

end Asm6502
