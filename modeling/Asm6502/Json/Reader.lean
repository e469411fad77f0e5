import Asm6502.Json.Basic
import Asm6502.Text.Glyph

/-!
# Reading JSON

A reader consumes a text one character at a time. It keeps what the characters since the last
complete lexical element have built, and a stack of the arrays and objects that are still open, so
that nesting costs no recursion.

The grammar is strict: no comments, no trailing commas, no leading zeros, no raw control characters
inside strings, and nothing but blanks around the value. Containers nest at most ten thousand deep.
Inside strings a stray byte and half a surrogate pair read as the replacement character.

## Main definitions

- `Json.Reader`: the state between two characters.
- `Json.Reader.step`: the next character is read.
- `Json.parse`: the value that a text spells.
-/

namespace Asm6502.Json

/-- A piece of a string literal: a character, or a UTF-16 code unit given by an escape. -/
inductive Piece where
  | char (c : Char)
  | unit (code : Nat)
  deriving Repr

/-- The characters that pieces stand for. A surrogate that does not pair with the unit behind it is
replaced. -/
def Piece.combine : List Piece → List Char
  | [] => []
  | .unit high :: .unit low :: rest =>
    if 0xD800 ≤ high ∧ high < 0xDC00 ∧ 0xDC00 ≤ low ∧ low < 0xE000 then
      Char.ofNat (0x10000 + (high - 0xD800) * 0x400 + (low - 0xDC00)) :: combine rest
    else if 0xD800 ≤ high ∧ high < 0xE000 then '\uFFFD' :: combine (.unit low :: rest)
    else Char.ofNat high :: combine (.unit low :: rest)
  | .unit code :: rest =>
    (if 0xD800 ≤ code ∧ code < 0xE000 then '\uFFFD' else Char.ofNat code) :: combine rest
  | .char c :: rest => c :: combine rest

/-! ## Numbers -/

/-- The text behind a run of at least one digit. -/
def afterDigits? (cs : List Char) : Option (List Char) :=
  if cs.head?.any Char.isDigit then some (cs.dropWhile Char.isDigit) else none

def afterInteger? : List Char → Option (List Char)
  | '0' :: cs => some cs
  | cs => afterDigits? cs

def afterFraction? : List Char → Option (List Char)
  | '.' :: cs => afterDigits? cs
  | cs => some cs

def afterExponent? : List Char → Option (List Char)
  | c :: cs =>
    if c == 'e' || c == 'E' then
      match cs with
      | '+' :: cs => afterDigits? cs
      | '-' :: cs => afterDigits? cs
      | cs => afterDigits? cs
    else some (c :: cs)
  | [] => some []

def isNumber (cs : List Char) : Bool :=
  let unsigned := if cs.head? == some '-' then cs.drop 1 else cs
  (do
    let rest ← afterInteger? unsigned
    let rest ← afterFraction? rest
    afterExponent? rest) == some []

/-- The value of a word: one of the three names, or a number. -/
def ofWord? (cs : List Char) : Option Json :=
  let word := String.ofList cs
  if word == "null" then some null
  else if word == "true" then some (bool true)
  else if word == "false" then some (bool false)
  else if isNumber cs then some (number word)
  else none

/-! ## The reader -/

/-- An array or object that is still open, its last item first. `key` is the name of the member
whose value is being read. -/
inductive Frame where
  | array (items : List Json)
  | object (members : List (String × Json)) (key : String)
  deriving Repr

inductive Expect where
  | value
  | itemOrEnd
  | name
  | nameOrEnd
  | colon
  | commaOrEnd
  /-- Nothing: the value is complete. -/
  | nothing (value : Json)
  deriving Repr

/-- What the characters since the last complete element have built, the latest first. -/
inductive Partial where
  | blank
  | word (chars : List Char)
  | string (pieces : List Piece)
  | escape (pieces : List Piece)
  /-- An escape by number, `count` digits of which have been read. -/
  | hex (pieces : List Piece) (count code : Nat)
  deriving Repr

structure Reader where
  current : Partial := .blank
  stack : List Frame := []
  expect : Expect := .value
  deriving Repr

namespace Reader

def maxDepth : Nat := 10000

def close (stack : List Frame) (v : Json) : Reader :=
  match stack with
  | [] => { expect := .nothing v }
  | .array items :: outer => { stack := .array (v :: items) :: outer, expect := .commaOrEnd }
  | .object members key :: outer =>
    { stack := .object ((key, v) :: members) key :: outer, expect := .commaOrEnd }

/-- A value of one lexical element is read. A string may also be the name of a member. -/
def scalar (r : Reader) (v : Json) : Option Reader :=
  match r.expect, v, r.stack with
  | .value, _, stack => some (close stack v)
  | .itemOrEnd, _, stack => some (close stack v)
  | .name, .string key, .object members _ :: outer =>
    some { stack := .object members key :: outer, expect := .colon }
  | .nameOrEnd, .string key, .object members _ :: outer =>
    some { stack := .object members key :: outer, expect := .colon }
  | _, _, _ => none

def openFrame (r : Reader) (frame : Frame) (expect : Expect) : Option Reader :=
  match r.expect with
  | .value | .itemOrEnd =>
    if r.stack.length < maxDepth then some { stack := frame :: r.stack, expect } else none
  | _ => none

def punctuation (r : Reader) (c : Char) : Option Reader :=
  match c, r.expect, r.stack with
  | '[', _, _ => r.openFrame (.array []) .itemOrEnd
  | '\x7b', _, _ => r.openFrame (.object [] "") .nameOrEnd
  | ']', .itemOrEnd, .array items :: outer => some (close outer (.array items.reverse))
  | ']', .commaOrEnd, .array items :: outer => some (close outer (.array items.reverse))
  | '\x7d', .nameOrEnd, .object members _ :: outer => some (close outer (.object members.reverse))
  | '\x7d', .commaOrEnd, .object members _ :: outer => some (close outer (.object members.reverse))
  | ',', .commaOrEnd, .array items :: outer =>
    some { stack := .array items :: outer, expect := .value }
  | ',', .commaOrEnd, .object members key :: outer =>
    some { stack := .object members key :: outer, expect := .name }
  | ':', .colon, stack => some { stack, expect := .value }
  | _, _, _ => none

/-- The word that is being read, if any, is complete. -/
def endWord (r : Reader) : Option Reader :=
  match r.current with
  | .blank => some r
  | .word chars => do
    let v ← ofWord? chars.reverse
    { r with current := .blank }.scalar v
  | _ => none

def outside (r : Reader) (c : Char) : Option Reader :=
  if c == ' ' || c == '\t' || c == '\n' || c == '\r' then r.endWord
  else if c == '"' then do
    let r ← r.endWord
    pure { r with current := .string [] }
  else if c == '[' || c == ']' || c == '\x7b' || c == '\x7d' || c == ',' || c == ':' then do
    let r ← r.endWord
    r.punctuation c
  else match r.current with
    | .word chars => some { r with current := .word (c :: chars) }
    | _ => some { r with current := .word [c] }

def escaped? (c : Char) : Option Char :=
  match c with
  | '"' => some '"'
  | '\\' => some '\\'
  | '/' => some '/'
  | 'b' => some '\x08'
  | 'f' => some '\x0c'
  | 'n' => some '\n'
  | 'r' => some '\r'
  | 't' => some '\t'
  | _ => none

def hexValue? (c : Char) : Option Nat :=
  if c.isDigit then some (c.toNat - '0'.toNat)
  else if 'a' ≤ c ∧ c ≤ 'f' then some (c.toNat - 'a'.toNat + 10)
  else if 'A' ≤ c ∧ c ≤ 'F' then some (c.toNat - 'A'.toNat + 10)
  else none

def step (r : Reader) (g : Glyph) : Option Reader :=
  match r.current with
  | .string pieces =>
    let c := g.shown
    if c == '"' then
      { r with current := .blank }.scalar (.string (String.ofList (Piece.combine pieces.reverse)))
    else if c == '\\' then some { r with current := .escape pieces }
    else if c.toNat < 0x20 then none
    else some { r with current := .string (.char c :: pieces) }
  | .escape pieces =>
    if g.is 'u' then some { r with current := .hex pieces 0 0 }
    else do
      let c ← escaped? (← g.char?)
      pure { r with current := .string (.char c :: pieces) }
  | .hex pieces count code => do
    let digit ← hexValue? (← g.char?)
    let code := code * 16 + digit
    if count < 3 then pure { r with current := .hex pieces (count + 1) code }
    else pure { r with current := .string (.unit code :: pieces) }
  | _ => do r.outside (← g.char?)

end Reader

def parse (t : Text) : Option Json := do
  let r ← t.foldlM Reader.step {}
  match (← r.endWord).expect with
  | .nothing v => some v
  | _ => none

end Asm6502.Json
