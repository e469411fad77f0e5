import Asm6502.Json.Basic

/-!
# Decoding JSON into records

A decoder reads a JSON value over an earlier value of the wanted type. Members that are not known
are passed over, a member that comes twice is read twice, and `null` leaves what was there. A value
of the wrong type anywhere makes the whole decoding fail.

## Main definitions

- `Json.Decoder`: a decoder for a type.
- `Json.Decoder.string`, `Json.Decoder.int`, `Json.Decoder.bool`: plain values.
- `Json.Decoder.list`, `Json.Decoder.map`, `Json.Decoder.optional`, `Json.Decoder.record`:
  containers.
-/

namespace Asm6502.Json

/-- Reads a JSON value over an earlier value. -/
def Decoder (α : Type) := α → Json → Option α

namespace Decoder

def string : Decoder String
  | old, .null => some old
  | _, .string s => some s
  | _, _ => none

def bool : Decoder Bool
  | old, .null => some old
  | _, .bool b => some b
  | _, _ => none

def integer? (literal : String) : Option Int :=
  match literal.toList with
  | '-' :: digits =>
    if digits.all Char.isDigit then some (-Int.ofNat (Nat.ofDigitChars 10 digits 0)) else none
  | digits => if digits.all Char.isDigit then some (Nat.ofDigitChars 10 digits 0) else none

def int : Decoder Int
  | old, .null => some old
  | _, .number literal => do
    let n ← integer? literal
    if -0x8000000000000000 ≤ n ∧ n < 0x8000000000000000 then some n else none
  | _, _ => none

/-- A list that was read, and what longer readings before it left behind its end. -/
structure Slots (α : Type) where
  items : List α := []
  spare : List α := []

/-- Reads items over the earlier ones in their places, and over `zero` behind them. The second part
is the earlier items that are left over. -/
def items {α : Type} (zero : α) (item : Decoder α) : List α → List Json → Option (List α × List α)
  | old, [] => some ([], old)
  | old, j :: js => do
    let a ← item (old.headD zero) j
    let (as, spare) ← items zero item old.tail js
    pure (a :: as, spare)

/-- A list. Items are read over the earlier items in their places, also those behind the end of an
earlier list; `null` and the empty list leave nothing. -/
def list {α : Type} (zero : α) (item : Decoder α) : Decoder (Slots α)
  | _, .null => some {}
  | _, .array [] => some {}
  | old, .array js => do
    let (items, spare) ← items zero item (old.items ++ old.spare) js
    pure { items, spare }
  | _, _ => none

/-- A record that may be absent; `null` takes it away. -/
def optional {α : Type} (zero : α) (value : Decoder α) : Decoder (Option α)
  | _, .null => some none
  | old, j => some <$> value (old.getD zero) j

/-! ## Records -/

/-- A character with the difference of upper and lower case taken away. Besides the ASCII letters
the long s and the Kelvin sign are forms of an ASCII letter. -/
def foldCase (c : Char) : Char :=
  if c == '\u017F' then 'S' else if c == '\u212A' then 'K' else c.toUpper

def sameName (a b : String) : Bool :=
  a.toList.map foldCase == b.toList.map foldCase

def part {σ α : Type} (get : σ → α) (set : σ → α → σ) (value : Decoder α) : Decoder σ :=
  fun s j => (value (get s) j).map (set s)

/-- The decoder for the member `name`: the one of exactly that name, or else one whose name differs
in case only. -/
def select? {σ : Type} (parts : List (String × Decoder σ)) (name : String) : Option (Decoder σ) :=
  (parts.find? (·.1 == name) <|> parts.find? (sameName ·.1 name)).map Prod.snd

def record {σ : Type} (parts : List (String × Decoder σ)) : Decoder σ
  | old, .null => some old
  | old, .object members =>
    -- of members with the same name each is read over the one before it
    members.foldlM (fun s (name, j) =>
      match select? parts name with
      | some decoder => decoder s j
      | none => some s) old
  | _, _ => none

/-- A map from names to values. Entries are added to the earlier ones, each read over `zero`; `null`
empties the map. -/
def map {α : Type} (zero : α) (value : Decoder α)
    (insert : List (String × α) → String → α → List (String × α)) : Decoder (List (String × α))
  | _, .null => some []
  | old, .object members =>
    members.foldlM (fun entries (name, j) => (value zero j).map (insert entries name)) old
  | _, _ => none

end Decoder

end Asm6502.Json
