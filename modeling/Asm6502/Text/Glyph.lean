/-!
# Glyphs

Source text reaches the library as bytes that need not be well-formed UTF-8. A `Glyph` is one
character of such a text: a Unicode scalar value, or a single byte that takes part in no
well-formed sequence. Decoding loses nothing, so a text can be taken apart by characters and put
together again byte for byte.

## Main definitions

- `Glyph`, `Text`: a character, and a text as the list of its characters.
- `Glyph.width`, `Glyph.units`: the size of a character in bytes and in UTF-16 code units.
- `Text.decode`, `Text.bytes`: from bytes to characters and back.
- `Text.startsWith`, `Text.precedes`: the beginning and the order of texts, by their bytes.
-/

namespace Asm6502

/-- The contents of a file or of a section. -/
abbrev Bytes := List UInt8

/-- One character of a text: a scalar value, or a byte outside every well-formed sequence. -/
inductive Glyph where
  | char (c : Char)
  | stray (byte : UInt8)
  deriving DecidableEq, Repr

abbrev Text := List Glyph

namespace Glyph

/-- The bytes that stand for the character in the source. -/
def bytes : Glyph → Bytes
  | char c => String.utf8EncodeChar c
  | stray b => [b]

def width : Glyph → Nat
  | char c => c.utf8Size
  | stray _ => 1

/-- The number of UTF-16 code units. A stray byte shows as one replacement character. -/
def units : Glyph → Nat
  | char c => if c.toNat < 0x10000 then 1 else 2
  | stray _ => 1

def char? : Glyph → Option Char
  | char c => some c
  | stray _ => none

/-- The character, with the replacement character for a stray byte. -/
def shown : Glyph → Char
  | char c => c
  | stray _ => '\uFFFD'

/-- Whether the glyph is a character with property `p`. -/
def satisfies (p : Char → Bool) : Glyph → Bool
  | char c => p c
  | stray _ => false

def is (c : Char) (g : Glyph) : Bool :=
  g == char c

/-- Whether the glyph is a carriage return or a line feed. -/
def isBreak (g : Glyph) : Bool :=
  g.is '\r' || g.is '\n'

theorem width_pos (g : Glyph) : 0 < g.width := by
  cases g with
  | char c => exact Char.utf8Size_pos c
  | stray b => exact Nat.one_pos

@[simp] theorem length_bytes (g : Glyph) : g.bytes.length = g.width := by
  cases g <;> simp [bytes, width]

@[simp] theorem is_char (c d : Char) : (char d).is c = (d == c) := by
  simp [is, BEq.beq]

@[simp] theorem is_stray (c : Char) (b : UInt8) : (stray b).is c = false := by
  simp [is]

end Glyph

namespace Text

def ofString (s : String) : Text :=
  s.toList.map .char

def bytes (t : Text) : Bytes :=
  t.flatMap Glyph.bytes

def size (t : Text) : Nat :=
  t.foldr (fun g n => g.width + n) 0

def units (t : Text) : Nat :=
  t.foldr (fun g n => g.units + n) 0

/-- Whether the bytes of `t` start with those of `front`. -/
def startsWith (t front : Text) : Bool :=
  front.bytes.isPrefixOf t.bytes

/-- Whether `s` comes before `t` in the order of their bytes. -/
def precedes (s t : Text) : Bool :=
  decide (s.bytes < t.bytes)

/-! ## Decoding -/

/-- The scalar value `code`, unless it is a surrogate, too large, or less than `least`, the first
value that needs as many bytes. -/
def scalar? (least code : Nat) : Option Char :=
  if least ≤ code ∧ (code < 0xD800 ∨ 0xDFFF < code ∧ code < 0x110000) then some (Char.ofNat code)
  else none

/-- The six bits that a continuation byte carries. -/
def tailBits? (b : UInt8) : Option Nat :=
  if 0x80 ≤ b.toNat ∧ b.toNat < 0xC0 then some (b.toNat - 0x80) else none

/-- The character whose UTF-8 form is `lead` followed by the first bytes of `rest`. -/
def sequence? (lead : UInt8) (rest : Bytes) : Option Char :=
  let n := lead.toNat
  if n < 0x80 then some (Char.ofNat n)
  else if n < 0xC0 then none
  else if n < 0xE0 then
    match rest with
    | b :: _ => do
      let x ← tailBits? b
      scalar? 0x80 ((n - 0xC0) * 0x40 + x)
    | _ => none
  else if n < 0xF0 then
    match rest with
    | b :: c :: _ => do
      let x ← tailBits? b
      let y ← tailBits? c
      scalar? 0x800 ((n - 0xE0) * 0x1000 + x * 0x40 + y)
    | _ => none
  else if n < 0xF8 then
    match rest with
    | b :: c :: d :: _ => do
      let x ← tailBits? b
      let y ← tailBits? c
      let z ← tailBits? d
      scalar? 0x10000 ((n - 0xF0) * 0x40000 + x * 0x1000 + y * 0x40 + z)
    | _ => none
  else none

/-- The characters of a byte string. A byte at which no well-formed sequence starts is a character
of its own. -/
def decode : Bytes → Text
  | [] => []
  | lead :: rest =>
    match sequence? lead rest with
    | some c => .char c :: decode (rest.drop (c.utf8Size - 1))
    | none => .stray lead :: decode rest
termination_by bytes => bytes.length
decreasing_by
  all_goals
    simp only [List.length_cons, List.length_drop]
    omega

/-- The text as a string, if every glyph is a character. -/
def string? (t : Text) : Option String :=
  (t.mapM Glyph.char?).map String.ofList

/-- The text as a string, with the replacement character for every stray byte. -/
def shown (t : Text) : String :=
  String.ofList (t.map Glyph.shown)

@[simp] theorem bytes_nil : bytes [] = [] := rfl

@[simp] theorem bytes_cons (g : Glyph) (t : Text) : bytes (g :: t) = g.bytes ++ bytes t := rfl

@[simp] theorem bytes_append (s t : Text) : bytes (s ++ t) = bytes s ++ bytes t := by
  simp [bytes]

@[simp] theorem size_nil : size [] = 0 := rfl

@[simp] theorem size_cons (g : Glyph) (t : Text) : size (g :: t) = g.width + size t := rfl

@[simp] theorem size_append (s t : Text) : size (s ++ t) = size s + size t := by
  induction s with
  | nil => simp
  | cons g s ih => simp [ih, Nat.add_assoc]

@[simp] theorem length_bytes (t : Text) : (bytes t).length = size t := by
  induction t with
  | nil => rfl
  | cons g t ih => simp [ih]

@[simp] theorem decode_nil : decode [] = [] := by
  rw [decode]

end Text

end Asm6502
