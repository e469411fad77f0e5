import Asm6502.Proofs.TokenShapes

/-!
# Tokens that start with a digit

A digit opens a number, unless it is the first character of a string. Directly behind the sign of a
reference or a plus sign it opens a name, since what follows such a sign is read as a run of symbol
characters, and digits are among these.

## Main definitions

- `Dialect.Sigil`: the signs that a name may follow directly.

## Main statements

- `Lexeme.Opens.sigil_of_leading_digit`: the production of a name that starts with a digit.
- `TokenKind.Shape.kind_of_leading_digit`: the kinds of tokens that can start with a digit.
-/

namespace Asm6502

/-- The signs that a name may follow directly: a plus sign, in TMPx a number sign, and in Kick
Assembler an exclamation mark. -/
def Dialect.Sigil (d : Dialect) (g : Glyph) : Prop :=
  g = .char '+' ∨ g = .char '#' ∧ d = .tmpx ∨ g = .char '!' ∧ d = .kick

theorem Text.isLetter_of_isDigit {c : Char} (h : c.isDigit = true) : Text.isLetter c = false := by
  have hc : 48 ≤ c.toNat ∧ c.toNat ≤ 57 := by
    simpa [Char.isDigit, UInt32.le_iff_toNat_le] using h
  have hascii : c.toNat < 0x80 := by omega
  rw [Text.isLetter, if_pos hascii]
  simp [Char.isAlpha, Char.isUpper, Char.isLower, UInt32.le_iff_toNat_le]
  omega

theorem Glyph.isLetter_of_isDecimal {g : Glyph} (h : g.isDecimal = true) :
    g.satisfies Text.isLetter = false := by
  cases g with
  | char c => exact Text.isLetter_of_isDigit h
  | stray b => rfl

variable {d : Dialect} {fresh : Bool}

/-- A name that starts with a digit is read together with the sign in front of it. -/
theorem Lexeme.Opens.sigil_of_leading_digit {text name back : Text} {inner behind : List Lexeme}
    (h : Opens d fresh text (inner ++ token .identifier name :: behind) back)
    (hdigit : name.head?.any Glyph.isDecimal = true) :
    inner.foldl Lexeme.fresh fresh = false ∧ ∃ g, texts inner = [g] ∧ d.Sigil g := by
  generalize hhere : inner ++ token .identifier name :: behind = here at h
  cases h with
  | reference c run back longest nonempty sigil =>
    obtain rfl : inner = [token .reference [c]] := by
      rcases inner with _ | ⟨x, _ | ⟨y, inner⟩⟩ <;> simp_all
    refine ⟨rfl, c, rfl, ?_⟩
    rcases sigil with ⟨rfl, -⟩ | ⟨rfl, hd⟩ | ⟨rfl, hd, -⟩
    · exact .inl rfl
    · exact .inr (.inl ⟨rfl, hd⟩)
    · exact .inr (.inr ⟨rfl, hd⟩)
  | operand run back longest nonempty inside =>
    obtain rfl : inner = [skipped [.char '+']] := by
      rcases inner with _ | ⟨x, _ | ⟨y, inner⟩⟩ <;> simp_all
    exact ⟨inside, .char '+', rfl, .inl rfl⟩
  | name c run back longest lead =>
    -- the first character of such a name is its own, and no digit
    obtain rfl : name = c :: run := by
      rcases inner with _ | ⟨x, inner⟩ <;> simp_all
    have hc : c.isDecimal = true := hdigit
    rcases lead with rfl | hletter | ⟨rfl, -⟩ | ⟨rfl, -⟩
    · cases hc
    · simp [Glyph.isLetter_of_isDecimal hc] at hletter
    · cases hc
    · cases hc
  | _ => rcases inner with _ | ⟨x, _ | ⟨y, _ | ⟨z, inner⟩⟩⟩ <;> simp at hhere

theorem TokenKind.Shape.kind_of_leading_digit {k : TokenKind} {front text back : Text}
    (h : k.Shape d front text back) (hdigit : text.head?.any Glyph.isDecimal = true) :
    k = .number ∨ k = .string ∨ k = .identifier := by
  cases k with
  | number => exact .inl rfl
  | string => exact .inr (.inl rfl)
  | identifier => exact .inr (.inr rfl)
  | lineBreak => rcases h with rfl | rfl | ⟨rfl, -⟩ <;> cases hdigit
  | comment => obtain ⟨-, more, rfl | rfl | rfl⟩ := h <;> cases hdigit
  | preprocessor =>
    obtain ⟨-, -, more, rfl, -⟩ := h
    cases hdigit
  | reference => obtain ⟨-, rfl | ⟨rfl, -⟩ | ⟨rfl, -⟩⟩ := h <;> cases hdigit
  | directive =>
    obtain ⟨run, -, ⟨rfl, -⟩ | ⟨rfl, -⟩ | ⟨rfl, -⟩ | ⟨rfl, -⟩⟩ := h <;> cases hdigit
  | operator =>
    obtain rfl : text = [.char '='] := h
    cases hdigit

namespace SymbolIndex

/-- A token that starts with a digit is a number or a string, unless it stands directly behind one
of the signs. Then it may be a name, which never opens its line. -/
theorem leading_digit_of_mem_tokens (d : Dialect) (source : Bytes) (t : Token)
    (h : t ∈ (parse d source).tokens.toList) (hdigit : t.text.head?.any Glyph.isDecimal = true) :
    t.kind = .number ∨ t.kind = .string ∨
      t.kind = .identifier ∧ t.first = false ∧ ∃ (front back : Text) (g : Glyph),
        Text.decode source = front ++ g :: (t.text ++ back) ∧ t.offset = front.size + g.width ∧
          d.Sigil g := by
  obtain ⟨_, _, _, -, -, -, shape⟩ := exists_shaped_lexeme h
  rcases shape.kind_of_leading_digit hdigit with hkind | hkind | hkind
  · exact .inl hkind
  · exact .inr (.inl hkind)
  refine .inr (.inr ⟨hkind, ?_⟩)
  rw [tokens_parse] at h
  obtain ⟨before, l, after, hls, ht⟩ := Lexeme.mem_tokens_iff.1 h
  obtain ⟨k, hk, rfl⟩ := Option.map_eq_some_iff.1 ht
  obtain rfl : k = .identifier := hkind
  obtain ⟨name, rfl⟩ := Lexeme.eq_token_of_kind? hk (by decide)
  have scans : Lexeme.Scans d true (Text.decode source)
      (before ++ .token .identifier name :: after) :=
    hls ▸ Lexeme.scans_scan d true (Text.decode source)
  have hsource := scans.texts_eq
  obtain ⟨outer, inner, behind, later, text, back, rfl, rfl, opens⟩ := scans.exists_production
  obtain ⟨hfresh, g, hinner, sigil⟩ := opens.sigil_of_leading_digit hdigit
  refine ⟨?_, Lexeme.texts outer, Lexeme.texts (behind ++ later), g, ?_, ?_, sigil⟩
  · simp [List.foldl_append, hfresh]
  · simp [← hsource, hinner]
  · simp [hinner]

/-- An instruction of TMPx with its operand. -/
theorem lexemes_immediate : lexemes .tmpx [0x6C, 0x64, 0x61, 0x20, 0x23, 0x31, 0x30] =
    [.token .identifier [.char 'l', .char 'd', .char 'a'], .skipped [.char ' '],
      .token .reference [.char '#'], .token .identifier [.char '1', .char '0']] := by
  cbv

theorem lexemes_sum : lexemes .acme [0x31, 0x2B, 0x32] =
    [.token .number [.char '1'], .skipped [.char '+'], .token .identifier [.char '2']] := by
  cbv

/-- Of two summands the first is a number. The second is a name, behind the plus sign. -/
theorem leading_digit_of_summands :
    let source : Bytes := [0x31, 0x2B, 0x32]
    let one : Token := ⟨.number, 0, ⟨0, 0⟩, [.char '1'], true⟩
    let two : Token := ⟨.identifier, 2, ⟨0, 2⟩, [.char '2'], false⟩
    (parse .acme source).tokens.toList = [one, two] ∧
      one.text.head?.any Glyph.isDecimal = true ∧ two.text.head?.any Glyph.isDecimal = true ∧
      two.first = false ∧ ∃ (front back : Text) (g : Glyph),
        Text.decode source = front ++ g :: (two.text ++ back) ∧ 2 = front.size + g.width ∧
          Dialect.acme.Sigil g := by
  intro source one two
  have htokens : (parse .acme source).tokens.toList = [one, two] := by
    rw [tokens_parse, lexemes_sum]
    rfl
  refine ⟨htokens, rfl, rfl, ?_⟩
  rcases leading_digit_of_mem_tokens .acme source two (by simp [htokens]) rfl with h | h | h
  · cases h
  · cases h
  · exact h.2

/-- A number behind a sign is read as a name: in TMPx behind a number sign, and in every dialect
behind a plus sign. -/
theorem digit_opens_identifier :
    (¬ ∀ t ∈ (parse .tmpx [0x6C, 0x64, 0x61, 0x20, 0x23, 0x31, 0x30]).tokens.toList,
      t.kind = .identifier → t.text.head?.any Glyph.isDecimal = false) ∧
    ¬ ∀ t ∈ (parse .acme [0x31, 0x2B, 0x32]).tokens.toList,
      t.kind = .identifier → t.text.head?.any Glyph.isDecimal = false := by
  rw [tokens_parse, tokens_parse, lexemes_immediate, lexemes_sum]
  constructor <;> decide

end SymbolIndex

end Asm6502
