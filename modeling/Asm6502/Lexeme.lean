import Asm6502.Directive
import Asm6502.Symbol
import Asm6502.Token

/-!
# Lexemes

A text is cut into lexemes: tokens, and the pieces between them that carry no meaning. Together the
lexemes are the whole text. What a character opens depends on the dialect, on the characters behind
it, and on whether a token has been seen on its line.

## Main definitions

- `Lexeme`: a token without its place, or a piece passed over.
- `Lexeme.next`: the lexemes that the first character of a text opens.
- `Lexeme.scan`: all lexemes of a text.
- `Lexeme.tokens`: the tokens among the lexemes, with their places.
- `Lexeme.unclosedSpans`: the string literals that no quote closes.
-/

namespace Asm6502

inductive Lexeme where
  | token (kind : TokenKind) (text : Text)
  | skipped (text : Text)
  /-- The content of a string literal that reaches the end of the input. It is a string token
  unless it is empty. -/
  | unclosed (content : Text)
  deriving DecidableEq, Repr

namespace Lexeme

def text : Lexeme → Text
  | token _ t => t
  | skipped t => t
  | unclosed t => t

/-- The kind of the token that the lexeme is, if it is one. -/
def kind? : Lexeme → Option TokenKind
  | token k _ => some k
  | skipped _ => none
  | unclosed [] => none
  | unclosed _ => some .string

/-- Whether the line is still without a token behind the lexeme, given whether it was so in front of
it. -/
def fresh (before : Bool) (l : Lexeme) : Bool :=
  match l.kind? with
  | some k => k == .lineBreak
  | none => before

def texts (ls : List Lexeme) : Text :=
  ls.flatMap text

/-! ## What a character opens -/

/-- The rest of the line from `c` on. -/
def restOfLine (c : Glyph) (rest : Text) : Text :=
  c :: rest.takeWhile (!·.isBreak)

/-- A name that starts at `c`. The sigil of a reference becomes a token of its own: a plus sign in
front of the first token of a line, a number sign in TMPx, and an exclamation mark in Kick Assembler
unless it opens the line. A plus sign elsewhere is an operator and is passed over. -/
def name (d : Dialect) (fresh : Bool) (c : Glyph) (rest : Text) : List Lexeme :=
  let run := rest.takeWhile d.isSymbol
  if c.is '+' then
    [if fresh then token .reference [c] else skipped [c], token .identifier run]
  else if c.is '#' then
    [token .reference [c], token .identifier run]
  else if c.is '!' && rest.head?.any d.isSymbol && !fresh then
    [token .reference [c], token .identifier run]
  else if d == .tmpx && c.is '.' && d.isDirective run then
    [token .directive (c :: run)]
  else
    [token .identifier (c :: run)]

/-- A string literal with the quote `q`. Only its content is a token, and only if there is some. -/
def stringLiteral (q : Glyph) (rest : Text) : List Lexeme :=
  let content := rest.takeWhile (· != q)
  -- a quote is left over only if the literal is closed
  if content.length < rest.length then
    if content.isEmpty then [skipped [q], skipped [q]]
    else [skipped [q], token .string content, skipped [q]]
  else [skipped [q], unclosed content]

/-- The lexemes that `c`, followed by `rest`, opens. -/
def next (d : Dialect) (fresh : Bool) (c : Glyph) (rest : Text) : List Lexeme :=
  let follows (p : Glyph → Bool) : Bool := rest.head?.any p
  if c.isBreak then
    [token .lineBreak (if c.is '\r' && follows (·.is '\n') then c :: rest.take 1 else [c])]
  else if c.is '*' && follows (·.is '=') || c.is ';' || c.is '/' && follows (·.is '/') then
    [token .comment (restOfLine c rest)]
  else if c.is '#' && follows (fun g => g.is '<' || g.is '>') then
    [skipped (c :: rest.take 1)]
  else if c.is '#' && d == .kick then
    [token .preprocessor (restOfLine c rest)]
  else if c.is '+' && follows (·.is '+') && d == .acme then
    [skipped (c :: rest.take 1)]
  else if d.opensName c rest.head? then
    name d fresh c rest
  else if d.opensDirective c then
    [token .directive (c :: rest.takeWhile d.isSymbol)]
  else if c.is '\'' || c.is '"' then
    stringLiteral c rest
  else if c.isDecimal then
    [token .number (c :: rest.takeWhile (·.isDecimal))]
  else if c.is '$' && follows (·.isHex) then
    [token .number (c :: rest.takeWhile (·.isHex))]
  else if c.is '%' && follows (·.isBinary) then
    [token .number (c :: rest.takeWhile (·.isBinary))]
  else if c.is '=' then
    [token .operator [c]]
  else
    [skipped [c]]

/-- The lexemes of a text. `fresh` says whether its first line is still without a token. -/
def scan (d : Dialect) (fresh : Bool) : Text → List Lexeme
  | [] => []
  | c :: rest =>
    let here := next d fresh c rest
    -- `next` takes `c` itself, so the text gets shorter
    here ++ scan d (here.foldl Lexeme.fresh fresh) (rest.drop ((texts here).length - 1))
termination_by text => text.length
decreasing_by
  simp only [List.length_cons, List.length_drop]
  omega

/-! ## Places -/

/-- The tokens among the lexemes, which start at `offset` and `position`. -/
def tokens (offset : Nat) (position : Position) (fresh : Bool) : List Lexeme → List Token
  | [] => []
  | l :: ls =>
    let behind := tokens (offset + l.text.size) (position.advance l.text) (l.fresh fresh) ls
    match l.kind? with
    | some k => ⟨k, offset, position, l.text, fresh && k != .lineBreak⟩ :: behind
    | none => behind

/-- The stretches covered by string literals that were never closed. -/
def unclosedSpans (position : Position) : List Lexeme → List Span
  | [] => []
  | l :: ls =>
    let stop := position.advance l.text
    match l with
    | unclosed _ => ⟨position, stop⟩ :: unclosedSpans stop ls
    | _ => unclosedSpans stop ls

end Lexeme

end Asm6502
