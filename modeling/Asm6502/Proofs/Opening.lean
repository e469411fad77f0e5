import Asm6502.Lexeme
import Asm6502.Proofs.LinePosition

/-!
# The productions of the scanner

`Lexeme.next` decides by a chain of tests what the first character of a text opens. `Lexeme.Opens`
says the same as a grammar, one production for each shape of outcome: the text is taken apart into
what the lexemes cover and what is left behind them, and every run of characters is the longest one.

## Main definitions

- `Glyph.isSignificant`: the characters that always belong to a token.
- `Text.Longest`: a run of characters that cannot be made longer.
- `Lexeme.Opens`: the productions.

## Main statements

- `Lexeme.exists_opens`: what a character opens follows one of the productions.
- `Lexeme.Opens.texts_append`: the lexemes and the text behind them are the whole text.
-/

namespace Asm6502

theorem Glyph.is_iff {c : Char} {g : Glyph} : g.is c = true ↔ g = .char c := by
  simp [Glyph.is]

/-- A class of characters without the two line ends. -/
theorem Glyph.not_isBreak_of {p : Glyph → Bool} (hr : p (.char '\r') = false)
    (hl : p (.char '\n') = false) {g : Glyph} (h : p g = true) : g.isBreak = false := by
  rw [← Bool.not_eq_true, Glyph.isBreak_iff]
  rintro (rfl | rfl) <;> simp_all

/-- The characters that always belong to a token: letters, underscores, ASCII digits, equals signs,
semicolons and line ends. -/
def Glyph.isSignificant (g : Glyph) : Bool :=
  g.satisfies Text.isLetter || g.is '_' || g.isDecimal || g.is '=' || g.is ';' || g.isBreak

/-- All of `run` satisfies `p`, and `back` behind it does not go on with a character that does. -/
structure Text.Longest (p : Glyph → Bool) (run back : Text) : Prop where
  all : ∀ g ∈ run, p g = true
  stops : ∀ g, back.head? = some g → p g = false

namespace Text

theorem exists_longest (p : Glyph → Bool) (t : Text) :
    ∃ run back, t = run ++ back ∧ t.takeWhile p = run ∧ Longest p run back := by
  refine ⟨t.takeWhile p, t.dropWhile p, List.takeWhile_append_dropWhile.symm, rfl, ?_, ?_⟩
  · exact List.all_eq_true.1 List.all_takeWhile
  · intro g hg
    have := List.head?_dropWhile_not p t
    simpa [hg] using this

theorem Longest.ne_nil_iff {p : Glyph → Bool} {run back : Text} (h : Longest p run back) :
    run ≠ [] ↔ (run ++ back).head?.any p = true := by
  cases run with
  | nil =>
    cases hb : back.head? with
    | none => simp [hb]
    | some g => simp [hb, h.stops g hb]
  | cons g run => simp [h.all g List.mem_cons_self]

theorem Longest.not_isBreak {p : Glyph → Bool} {run back : Text} (h : Longest p run back)
    (hr : p (.char '\r') = false) (hl : p (.char '\n') = false) :
    ∀ g ∈ run, g.isBreak = false :=
  fun g hg => Glyph.not_isBreak_of hr hl (h.all g hg)

theorem any_head?_is_iff {c : Char} {t : Text} :
    t.head?.any (·.is c) = true ↔ t.head? = some (.char c) := by
  cases t.head? <;> simp [Glyph.is_iff]

end Text

namespace Lexeme

/-- The lexemes that open a text, and the text behind them. `fresh` says whether the line is still
without a token. -/
inductive Opens (d : Dialect) (fresh : Bool) : Text → List Lexeme → Text → Prop where
  | pairBreak (back : Text) :
      Opens d fresh (.char '\r' :: .char '\n' :: back)
        [token .lineBreak [.char '\r', .char '\n']] back
  | lineBreak (c : Glyph) (back : Text) (isBreak : c.isBreak = true)
      (alone : Text.CleanCut [c] back) :
      Opens d fresh (c :: back) [token .lineBreak [c]] back
  | comment (c : Glyph) (run back : Text) (longest : Text.Longest (!·.isBreak) run back)
      (lead : c = .char ';' ∨ c = .char '*' ∧ (run ++ back).head? = some (.char '=') ∨
        c = .char '/' ∧ (run ++ back).head? = some (.char '/')) :
      Opens d fresh (c :: (run ++ back)) [token .comment (c :: run)] back
  | byteOperator (g : Glyph) (back : Text) (half : g = .char '<' ∨ g = .char '>') :
      Opens d fresh (.char '#' :: g :: back) [skipped [.char '#', g]] back
  | preprocessor (run back : Text) (longest : Text.Longest (!·.isBreak) run back)
      (dialect : d = .kick)
      (whole : (run ++ back).head? ≠ some (.char '<') ∧ (run ++ back).head? ≠ some (.char '>')) :
      Opens d fresh (.char '#' :: (run ++ back)) [token .preprocessor (.char '#' :: run)] back
  | anonymousLabel (back : Text) (dialect : d = .acme) :
      Opens d fresh (.char '+' :: .char '+' :: back) [skipped [.char '+', .char '+']] back
  | reference (c : Glyph) (run back : Text) (longest : Text.Longest d.isSymbol run back)
      (nonempty : run ≠ [])
      (sigil : c = .char '+' ∧ fresh = true ∨ c = .char '#' ∧ d = .tmpx ∨
        c = .char '!' ∧ d = .kick ∧ fresh = false) :
      Opens d fresh (c :: (run ++ back)) [token .reference [c], token .identifier run] back
  | operand (run back : Text) (longest : Text.Longest d.isSymbol run back) (nonempty : run ≠ [])
      (inside : fresh = false) :
      Opens d fresh (.char '+' :: (run ++ back)) [skipped [.char '+'], token .identifier run] back
  | dotDirective (run back : Text) (longest : Text.Longest d.isSymbol run back)
      (dialect : d = .tmpx) (known : d.isDirective run = true) :
      Opens d fresh (.char '.' :: (run ++ back)) [token .directive (.char '.' :: run)] back
  | name (c : Glyph) (run back : Text) (longest : Text.Longest d.isSymbol run back)
      (lead : c = .char '_' ∨ c.satisfies Text.isLetter = true ∨
        c = .char '.' ∧ (d = .acme ∨ d = .tmpx ∧ d.isDirective run = false) ∨
        c = .char '!' ∧ d = .kick ∧ (run ≠ [] → fresh = true)) :
      Opens d fresh (c :: (run ++ back)) [token .identifier (c :: run)] back
  | directive (c : Glyph) (run back : Text) (longest : Text.Longest d.isSymbol run back)
      (lead : d.opensDirective c = true) (bare : d = .tmpx → run = []) :
      Opens d fresh (c :: (run ++ back)) [token .directive (c :: run)] back
  | emptyString (q : Glyph) (back : Text) (quote : q = .char '\'' ∨ q = .char '"') :
      Opens d fresh (q :: q :: back) [skipped [q], skipped [q]] back
  | string (q : Glyph) (content back : Text) (quote : q = .char '\'' ∨ q = .char '"')
      (nonempty : content ≠ []) (inside : q ∉ content) :
      Opens d fresh (q :: (content ++ q :: back))
        [skipped [q], token .string content, skipped [q]] back
  | unclosed (q : Glyph) (content : Text) (quote : q = .char '\'' ∨ q = .char '"')
      (inside : q ∉ content) :
      Opens d fresh (q :: content) [skipped [q], unclosed content] []
  | decimal (c : Glyph) (run back : Text) (longest : Text.Longest Glyph.isDecimal run back)
      (lead : c.isDecimal = true) :
      Opens d fresh (c :: (run ++ back)) [token .number (c :: run)] back
  | hexadecimal (run back : Text) (longest : Text.Longest Glyph.isHex run back)
      (nonempty : run ≠ []) :
      Opens d fresh (.char '$' :: (run ++ back)) [token .number (.char '$' :: run)] back
  | binary (run back : Text) (longest : Text.Longest Glyph.isBinary run back)
      (nonempty : run ≠ []) :
      Opens d fresh (.char '%' :: (run ++ back)) [token .number (.char '%' :: run)] back
  | operator (back : Text) :
      Opens d fresh (.char '=' :: back) [token .operator [.char '=']] back
  | other (c : Glyph) (back : Text) (quiet : c.isSignificant = false) :
      Opens d fresh (c :: back) [skipped [c]] back

/-- The lexemes and the text behind them are the whole text. -/
theorem Opens.texts_append {d : Dialect} {fresh : Bool} {t back : Text} {here : List Lexeme}
    (h : Opens d fresh t here back) : t = texts here ++ back := by
  cases h <;> simp [texts, text]

theorem exists_opens_name {d : Dialect} {c : Glyph} {rest : Text} (fresh : Bool)
    (h : d.opensName c rest.head? = true) :
    ∃ back, Opens d fresh (c :: rest) (name d fresh c rest) back := by
  obtain ⟨run, back, rfl, hrun, longest⟩ := Text.exists_longest d.isSymbol rest
  refine ⟨back, ?_⟩
  simp only [name, hrun]
  simp only [Dialect.opensName, Bool.or_eq_true, Bool.and_eq_true, Glyph.is_iff, beq_iff_eq,
    ← longest.ne_nil_iff] at h
  split
  · rename_i hc
    obtain rfl := Glyph.is_iff.1 hc
    have nonempty : run ≠ [] := by
      simpa [Glyph.satisfies, (by decide : Text.isLetter '+' = false)] using h
    cases fresh with
    | true => exact .reference _ run back longest nonempty (.inl ⟨rfl, rfl⟩)
    | false => exact .operand run back longest nonempty rfl
  split
  · rename_i hc
    obtain rfl := Glyph.is_iff.1 hc
    have hd : d = .tmpx ∧ run ≠ [] := by
      simpa [Glyph.satisfies, (by decide : Text.isLetter '#' = false)] using h
    exact .reference _ run back longest hd.2 (.inr (.inl ⟨rfl, hd.1⟩))
  split
  · rename_i hc
    simp only [Bool.and_eq_true, Glyph.is_iff, ← longest.ne_nil_iff, Bool.not_eq_true'] at hc
    obtain ⟨⟨rfl, nonempty⟩, hf⟩ := hc
    have hd : d = .kick := by
      simpa [Glyph.satisfies, (by decide : Text.isLetter '!' = false)] using h
    exact .reference _ run back longest nonempty (.inr (.inr ⟨rfl, hd, hf⟩))
  split
  · rename_i hc
    simp only [Bool.and_eq_true, Glyph.is_iff, beq_iff_eq] at hc
    obtain ⟨⟨hd, rfl⟩, known⟩ := hc
    exact .dotDirective run back longest hd known
  · rename_i hplus hsign hmark hdot
    refine .name c run back longest ?_
    simp only [Bool.and_eq_true, Glyph.is_iff, ← longest.ne_nil_iff, Bool.not_eq_true', beq_iff_eq,
      not_and, Bool.not_eq_true, Bool.not_eq_false] at hplus hsign hmark hdot
    grind

theorem exists_opens_stringLiteral {q : Glyph} (d : Dialect) (fresh : Bool)
    (quote : q = .char '\'' ∨ q = .char '"') (rest : Text) :
    ∃ back, Opens d fresh (q :: rest) (stringLiteral q rest) back := by
  obtain ⟨content, back, rfl, hcontent, longest⟩ := Text.exists_longest (· != q) rest
  have inside : q ∉ content := fun hq => by simpa using longest.all q hq
  simp only [stringLiteral, hcontent]
  cases back with
  | nil =>
    refine ⟨[], ?_⟩
    rw [if_neg (by simp), List.append_nil]
    exact .unclosed q content quote inside
  | cons g back =>
    obtain rfl : g = q := by simpa using longest.stops g rfl
    refine ⟨back, ?_⟩
    rw [if_pos (by simp)]
    cases content with
    | nil => exact .emptyString g back quote
    | cons x content => exact .string g (x :: content) back quote (by simp) inside

theorem exists_opens_lineBreak {c : Glyph} (d : Dialect) (fresh : Bool) (isBreak : c.isBreak = true)
    (rest : Text) :
    ∃ back, Opens d fresh (c :: rest) [token .lineBreak
      (if c.is '\r' && rest.head?.any (·.is '\n') then c :: rest.take 1 else [c])] back := by
  split <;> rename_i pair <;>
    simp only [Bool.and_eq_true, Glyph.is_iff, Text.any_head?_is_iff] at pair
  · obtain ⟨rfl, hhead⟩ := pair
    obtain ⟨back, rfl⟩ := List.head?_eq_some_iff.1 hhead
    exact ⟨back, .pairBreak back⟩
  · refine ⟨rest, .lineBreak c rest isBreak ?_⟩
    rintro ⟨hc, hrest⟩
    exact pair ⟨by simpa using hc, hrest⟩

/-- Productions whose token is a character and the longest run behind it. -/
theorem exists_opens_run {d : Dialect} {fresh : Bool} {c : Glyph} {kind : TokenKind}
    (p : Glyph → Bool) (rest : Text)
    (opens : ∀ run back, rest = run ++ back → Text.Longest p run back →
      Opens d fresh (c :: (run ++ back)) [token kind (c :: run)] back) :
    ∃ back, Opens d fresh (c :: rest) [token kind (c :: rest.takeWhile p)] back := by
  obtain ⟨run, back, rfl, hrun, longest⟩ := Text.exists_longest p rest
  rw [hrun]
  exact ⟨back, opens run back rfl longest⟩

/-- What a character opens follows one of the productions. -/
theorem exists_opens (d : Dialect) (fresh : Bool) (c : Glyph) (rest : Text) :
    ∃ back, Opens d fresh (c :: rest) (next d fresh c rest) back := by
  simp only [next]
  by_cases isBreak : c.isBreak = true
  · rw [if_pos isBreak]
    exact exists_opens_lineBreak d fresh isBreak rest
  rw [if_neg isBreak]
  by_cases comment : (c.is '*' && rest.head?.any (·.is '=') || c.is ';' ||
      c.is '/' && rest.head?.any (·.is '/')) = true
  · rw [if_pos comment]
    simp only [Bool.or_eq_true, Bool.and_eq_true, Glyph.is_iff, Text.any_head?_is_iff] at comment
    refine exists_opens_run _ rest fun run back hrest longest => .comment c run back longest ?_
    grind
  rw [if_neg comment]
  by_cases half : (c.is '#' && rest.head?.any fun g => g.is '<' || g.is '>') = true
  · rw [if_pos half]
    cases rest with
    | nil => simp at half
    | cons g back =>
      simp only [List.head?_cons, Option.any_some, Bool.and_eq_true, Bool.or_eq_true,
        Glyph.is_iff] at half
      obtain ⟨rfl, half⟩ := half
      exact ⟨back, .byteOperator g back half⟩
  rw [if_neg half]
  by_cases preprocessor : (c.is '#' && d == .kick) = true
  · rw [if_pos preprocessor]
    simp only [Bool.and_eq_true, Glyph.is_iff, beq_iff_eq] at preprocessor
    obtain ⟨rfl, dialect⟩ := preprocessor
    refine exists_opens_run _ rest fun run back hrest longest =>
      .preprocessor run back longest dialect ?_
    constructor <;> intro hhead <;> simp [hrest, hhead] at half
  rw [if_neg preprocessor]
  by_cases label : (c.is '+' && rest.head?.any (·.is '+') && d == .acme) = true
  · rw [if_pos label]
    simp only [Bool.and_eq_true, Glyph.is_iff, Text.any_head?_is_iff, beq_iff_eq] at label
    obtain ⟨⟨rfl, hhead⟩, dialect⟩ := label
    obtain ⟨back, rfl⟩ := List.head?_eq_some_iff.1 hhead
    exact ⟨back, .anonymousLabel back dialect⟩
  rw [if_neg label]
  by_cases name : d.opensName c rest.head? = true
  · rw [if_pos name]
    exact exists_opens_name fresh name
  rw [if_neg name]
  by_cases directive : d.opensDirective c = true
  · rw [if_pos directive]
    refine exists_opens_run _ rest fun run back hrest longest =>
      .directive c run back longest directive ?_
    rintro rfl
    have hc : c.is '#' = true := directive
    -- a number sign in front of a symbol would have opened a name
    refine Decidable.not_not.1 fun nonempty => name ?_
    rw [hrest, Dialect.opensName, hc, longest.ne_nil_iff.1 nonempty]
    simp
  rw [if_neg directive]
  by_cases quote : (c.is '\'' || c.is '"') = true
  · rw [if_pos quote]
    simp only [Bool.or_eq_true, Glyph.is_iff] at quote
    exact exists_opens_stringLiteral d fresh quote rest
  rw [if_neg quote]
  by_cases decimal : c.isDecimal = true
  · rw [if_pos decimal]
    exact exists_opens_run _ rest fun run back _ longest => .decimal c run back longest decimal
  rw [if_neg decimal]
  by_cases hexadecimal : (c.is '$' && rest.head?.any (·.isHex)) = true
  · rw [if_pos hexadecimal]
    simp only [Bool.and_eq_true, Glyph.is_iff] at hexadecimal
    obtain ⟨rfl, nonempty⟩ := hexadecimal
    exact exists_opens_run _ rest fun run back hrest longest =>
      .hexadecimal run back longest (longest.ne_nil_iff.2 (hrest ▸ nonempty))
  rw [if_neg hexadecimal]
  by_cases binary : (c.is '%' && rest.head?.any (·.isBinary)) = true
  · rw [if_pos binary]
    simp only [Bool.and_eq_true, Glyph.is_iff] at binary
    obtain ⟨rfl, nonempty⟩ := binary
    exact exists_opens_run _ rest fun run back hrest longest =>
      .binary run back longest (longest.ne_nil_iff.2 (hrest ▸ nonempty))
  rw [if_neg binary]
  by_cases operator : c.is '=' = true
  · rw [if_pos operator]
    obtain rfl := Glyph.is_iff.1 operator
    exact ⟨rest, .operator rest⟩
  rw [if_neg operator]
  -- a significant character has passed one of the tests above
  refine ⟨rest, .other c rest ?_⟩
  simp only [Dialect.opensName, Bool.or_eq_true, not_or, Bool.not_eq_true] at comment name
  simp [Glyph.isSignificant, isBreak, comment, name, decimal, operator]

end Lexeme

end Asm6502
