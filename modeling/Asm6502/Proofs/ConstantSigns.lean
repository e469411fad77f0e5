import Asm6502.Proofs.ExactTables
import Asm6502.Proofs.TokenShapes

/-!
# The sign of a constant

A line that opens with a name defines a constant if the text of the next token is an equals sign.
Two kinds of tokens have this text. One is the sign itself, and the other is a string that holds
nothing else, since the quotes are not part of its text.

## Main definitions

- `Text.QuotesSign`: an equals sign in quotes.

## Main statements

- `TokenKind.Shape.kind_of_equals`: the kinds of tokens that read as an equals sign.
- `Statement.constant_iff_of_mem_ofTokens`: what tells a constant from a label.
-/

namespace Asm6502

/-- The text has an equals sign at `offset` that is all there is in a string. The string may be
without its closing quote at the end of the text. -/
def Text.QuotesSign (text : Text) (offset : Nat) : Prop :=
  ∃ (front : Text) (q : Glyph) (back : Text),
    text = front ++ q :: .char '=' :: back ∧ offset = front.size + 1 ∧
    (q = .char '\'' ∨ q = .char '"') ∧ (back = [] ∨ back.head? = some q)

/-! ## Tokens that read as an equals sign -/

theorem Dialect.not_isSymbol_equals (d : Dialect) : d.isSymbol (.char '=') = false := by
  cases d <;> decide

/-- An equals sign is the text of the sign, or of a string. -/
theorem TokenKind.Shape.kind_of_equals {d : Dialect} {k : TokenKind} {front back : Text}
    (h : k.Shape d front [.char '='] back) : k = .operator ∨ k = .string := by
  cases k with
  | operator => exact .inl rfl
  | string => exact .inr rfl
  | identifier =>
    obtain ⟨run, longest, ⟨rfl, -⟩ | ⟨htext, -⟩ | ⟨htext, -⟩⟩ := h
    · have := longest.all (.char '=') List.mem_cons_self
      simp [d.not_isSymbol_equals] at this
    · simp at htext
    · simp at htext
  | number =>
    rcases h with ⟨-, longest⟩ | ⟨digits, -, ⟨htext, -⟩ | ⟨htext, -⟩⟩
    · exact absurd (longest.all (.char '=') List.mem_cons_self) (by decide)
    · simp at htext
    · simp at htext
  | _ => simp [TokenKind.Shape] at h

/-- The token is the sign, or it stands in quotes. -/
theorem SymbolIndex.operator_or_quotesSign {d : Dialect} {source : Bytes} {t : Token}
    (h : t ∈ (parse d source).tokens.toList) (htext : t.text = [.char '=']) :
    t.kind = .operator ∨ t.kind = .string ∧ (Text.decode source).QuotesSign t.offset := by
  obtain ⟨before, l, after, hls, hl, hoffset, shape⟩ := exists_shaped_lexeme h
  rw [htext] at shape hl
  refine shape.kind_of_equals.imp_right fun hkind => ⟨hkind, ?_⟩
  rw [hkind] at shape
  obtain ⟨-, q, quote, hq, -, hback⟩ := shape
  obtain ⟨front, hfront⟩ := List.getLast?_eq_some_iff.1 hq
  refine ⟨front, q, Lexeme.texts after, ?_, ?_, quote, hback⟩
  · have hsource : Text.decode source = Lexeme.texts (lexemes d source) :=
      (Lexeme.texts_scan d true _).symm
    rw [hsource, hls, Lexeme.texts_append, Lexeme.texts_cons, hfront, hl]
    simp
  · rw [hoffset, hfront, Text.size_append]
    rcases quote with rfl | rfl <;> rfl

namespace Statement

/-! ## Constants and labels -/

variable {d : Dialect} {kind : DefinitionKind}

theorem constant_iff_of_nameRole? {start n : Nat} {first : Token} {others : List Token}
    (h : nameRole? d start first others = some (.definition kind n)) :
    kind = .constant ↔ ∃ t, others.head? = some t ∧ t.text = [.char '='] := by
  have hsign : others.head?.any (·.text == [.char '=']) = true ↔
      ∃ t, others.head? = some t ∧ t.text = [.char '='] := by
    simp [Option.any_eq_true]
  rw [← hsign]
  unfold nameRole? at h
  grind

theorem constant_iff_of_ofRun? {start : Nat} {run : List Token} {s : Statement}
    (h : ofRun? d start run = some s) (hrole : s.role = .definition kind s.start) :
    kind = .constant ↔ ∃ t, run[1]? = some t ∧ t.text = [.char '='] := by
  cases run with
  | nil => simp [ofRun?] at h
  | cons first others =>
    obtain ⟨role, hfirst, rfl⟩ := Option.map_eq_some_iff.1 h
    obtain rfl : role = .definition kind start := hrole
    rw [List.getElem?_cons_succ, ← List.head?_eq_getElem?]
    split at hfirst
    · cases hfirst
    · exact constant_iff_of_nameRole? hfirst
    · -- the name that a directive defines comes behind it
      obtain ⟨-, ⟨_, hbehind⟩ | hbehind⟩ := eq_of_directiveRole? hfirst
      · simp at hbehind
      · cases hbehind
    · cases hfirst

/-- A line that opens with the name that it defines makes it a constant if an equals sign comes
next. -/
theorem constant_iff_of_mem_ofTokens {ts : List Token} {s : Statement} (h : s ∈ ofTokens d ts)
    (hrole : s.role = .definition kind s.start) :
    kind = .constant ↔
      1 < s.count ∧ ∃ t, ts[s.start + 1]? = some t ∧ t.text = [.char '='] := by
  rcases mem_ofTokens_iff.1 h with ⟨-, -, -, hcomment, -⟩ | ⟨-, hrun⟩
  · cases hrole.symm.trans hcomment
  · rw [constant_iff_of_ofRun? hrun hrole, List.getElem?_take, List.getElem?_drop]
    split <;> simp_all

end Statement

namespace SymbolIndex

/-- A line that opens with the name that it defines makes it a constant exactly if the next token of
the line is an equals sign, or a string that holds one and nothing else. Where no such string is in
the text, the token is the sign. -/
theorem constant_iff_sign_follows (d : Dialect) (source : Bytes) (s : Statement)
    (kind : DefinitionKind) (hs : s ∈ (parse d source).statements.toList)
    (named : s.role = .definition kind s.start) :
    (kind = .constant ↔ 1 < s.count ∧ ∃ t, (parse d source).tokens[s.start + 1]? = some t ∧
      t.text = [.char '='] ∧
      (t.kind = .operator ∨ t.kind = .string ∧ (Text.decode source).QuotesSign t.offset)) ∧
    ((∀ offset, ¬ (Text.decode source).QuotesSign offset) → kind = .constant →
      1 < s.count ∧ ∃ t, (parse d source).tokens[s.start + 1]? = some t ∧
        t.text = [.char '='] ∧ t.kind = .operator) := by
  rw [statements_parse] at hs
  have sign := Statement.constant_iff_of_mem_ofTokens hs named
  rw [Array.getElem?_toList] at sign
  have follows : kind = .constant ↔ 1 < s.count ∧
      ∃ t, (parse d source).tokens[s.start + 1]? = some t ∧ t.text = [.char '='] ∧
        (t.kind = .operator ∨ t.kind = .string ∧ (Text.decode source).QuotesSign t.offset) := by
    rw [sign]
    refine and_congr_right fun _ => exists_congr fun t => and_congr_right fun ht => ?_
    exact ⟨fun htext => ⟨htext, operator_or_quotesSign (mem_tokens_of_getElem? ht) htext⟩, And.left⟩
  refine ⟨follows, fun unquoted constant => ?_⟩
  obtain ⟨hcount, t, ht, htext, hkind⟩ := follows.1 constant
  exact ⟨hcount, t, ht, htext, hkind.resolve_right fun quoted => unquoted _ quoted.2⟩

/-- The name `a` is a constant, and the token behind it is the sign. -/
theorem constant_iff_sign_follows_operator :
    let ix := parse .acme [0x61, 0x3D]
    ⟨.definition .constant 0, 0, 2⟩ ∈ ix.statements.toList ∧
    ∃ t, ix.tokens[1]? = some t ∧ t.text = [.char '='] ∧ t.kind = .operator := by
  intro ix
  have hlexemes : lexemes .acme [0x61, 0x3D] =
      [.token .identifier [.char 'a'], .token .operator [.char '=']] := by
    cbv
  have hs : ⟨.definition .constant 0, 0, 2⟩ ∈ ix.statements.toList := by
    simp only [ix, statements_parse, tokens_parse, hlexemes]
    decide
  have hdecode : Text.decode [0x61, 0x3D] = [.char 'a', .char '='] := by cbv
  have unquoted (offset : Nat) : ¬ (Text.decode [0x61, 0x3D]).QuotesSign offset := by
    rw [hdecode]
    rintro ⟨front, q, back, htext, -, quote, -⟩
    have hq : q ∈ [Glyph.char 'a', .char '='] := by simp [htext]
    rcases quote with rfl | rfl <;> simp at hq
  obtain ⟨-, t, ht⟩ :=
    (constant_iff_sign_follows .acme [0x61, 0x3D] _ .constant hs rfl).2 unquoted rfl
  exact ⟨hs, t, ht⟩

/-- A string that follows a name makes it a constant if it holds an equals sign. -/
theorem constant_without_sign :
    let ix := parse .acme [0x61, 0x22, 0x3D, 0x22]
    ⟨.definition .constant 0, 0, 2⟩ ∈ ix.statements.toList ∧
    ∃ t, ix.tokens[1]? = some t ∧ t.kind = .string := by
  intro ix
  have hlexemes : lexemes .acme [0x61, 0x22, 0x3D, 0x22] =
      [.token .identifier [.char 'a'], .skipped [.char '"'], .token .string [.char '='],
        .skipped [.char '"']] := by
    cbv
  refine ⟨?_, ⟨.string, 2, ⟨0, 2⟩, [.char '='], false⟩, ?_, rfl⟩
  · simp only [ix, statements_parse, tokens_parse, hlexemes]
    decide
  · rw [← Array.getElem?_toList, tokens_parse, hlexemes]
    rfl

end SymbolIndex

end Asm6502
