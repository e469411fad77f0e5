import Asm6502.Proofs.TokenPlaces

/-!
# The shapes of tokens

Each kind of token has its own spelling, which ends where it cannot go on. What a token may look
like depends on its kind, on the dialect, and on the characters next to it.

## Main definitions

- `TokenKind.Shape`: the texts that tokens of a kind have.
- `Lexeme.Shaped`: lexemes that have the shapes of their kinds.

## Main statements

- `Lexeme.Opens.shaped`, `Lexeme.Scans.shaped`: one production, and a whole scan.
-/

namespace Asm6502

/-- The text of a token that stands between `front` and `back`. It has the spelling of its kind, and
`back` does not go on with it. -/
def TokenKind.Shape (d : Dialect) (front text back : Text) : TokenKind → Prop
  | .lineBreak =>
    text = [.char '\r', .char '\n'] ∨ text = [.char '\n'] ∨
      text = [.char '\r'] ∧ back.head? ≠ some (.char '\n')
  | .comment =>
    Text.Longest (!·.isBreak) text back ∧
      ∃ more, text = .char ';' :: more ∨ text = .char '/' :: .char '/' :: more ∨
        text = .char '*' :: .char '=' :: more
  | .preprocessor =>
    d = .kick ∧ Text.Longest (!·.isBreak) text back ∧
      ∃ more, text = .char '#' :: more ∧
        (more ++ back).head? ≠ some (.char '<') ∧ (more ++ back).head? ≠ some (.char '>')
  | .identifier =>
    ∃ run, Text.Longest d.isSymbol run back ∧
      (text = run ∧ run ≠ [] ∨
        text = .char '.' :: run ∧ (d = .acme ∨ d = .tmpx ∧ d.isDirective run = false) ∨
        text = .char '!' :: run ∧ d = .kick)
  | .reference =>
    back.head?.any d.isSymbol = true ∧
      (text = [.char '+'] ∨ text = [.char '#'] ∧ d = .tmpx ∨ text = [.char '!'] ∧ d = .kick)
  | .directive =>
    ∃ run, Text.Longest d.isSymbol run back ∧
      (text = .char '!' :: run ∧ d = .acme ∨
        text = .char '.' :: run ∧ (d = .kick ∨ d = .llvm) ∨
        text = .char '#' :: run ∧ d = .tmpx ∨
        text = .char '.' :: run ∧ d = .tmpx ∧ d.isDirective run = true)
  | .string =>
    text ≠ [] ∧ ∃ q, (q = .char '\'' ∨ q = .char '"') ∧ front.getLast? = some q ∧ q ∉ text ∧
      (back = [] ∨ back.head? = some q)
  | .number =>
    text ≠ [] ∧ Text.Longest Glyph.isDecimal text back ∨
      ∃ digits, digits ≠ [] ∧
        (text = .char '$' :: digits ∧ Text.Longest Glyph.isHex digits back ∨
          text = .char '%' :: digits ∧ Text.Longest Glyph.isBinary digits back)
  | .operator => text = [.char '=']

theorem Text.Longest.cons {p : Glyph → Bool} {g : Glyph} {run back : Text} (h : Longest p run back)
    (hg : p g = true) : Longest p (g :: run) back :=
  ⟨List.forall_mem_cons.2 ⟨hg, h.all⟩, h.stops⟩

/-- A character of the class that comes next belongs to the run. -/
theorem Text.Longest.exists_cons {p : Glyph → Bool} {g : Glyph} {run back : Text}
    (h : Longest p run back) (hhead : (run ++ back).head? = some g) (hg : p g = true) :
    ∃ more, run = g :: more := by
  cases run with
  | nil => simp [h.stops g hhead] at hg
  | cons g' more =>
    obtain rfl : g' = g := by simpa using hhead
    exact ⟨more, rfl⟩

namespace Lexeme

/-- The lexemes between `front` and `back` have the shapes of their kinds. -/
def Shaped (d : Dialect) (front back : Text) : List Lexeme → Prop
  | [] => True
  | l :: ls =>
    (∀ k, l.kind? = some k → k.Shape d front l.text (texts ls ++ back)) ∧
      Shaped d (front ++ l.text) back ls

variable {d : Dialect} {fresh : Bool} {front t back : Text} {here ls : List Lexeme}

theorem Shaped.append {ls' : List Lexeme} (h : Shaped d front (texts ls' ++ back) ls)
    (h' : Shaped d (front ++ texts ls) back ls') : Shaped d front back (ls ++ ls') := by
  induction ls generalizing front with
  | nil => simpa using h'
  | cons l ls ih =>
    refine ⟨fun k hk => ?_, ih h.2 (by simpa using h')⟩
    simpa using h.1 k hk

theorem Shaped.shape {before after : List Lexeme} {l : Lexeme} {k : TokenKind}
    (h : Shaped d front back (before ++ l :: after)) (hk : l.kind? = some k) :
    k.Shape d (front ++ texts before) l.text (texts after ++ back) := by
  induction before generalizing front with
  | nil => simpa using h.1 k hk
  | cons l' before ih => simpa using ih h.2

theorem shaped_singleton {k : TokenKind} {text : Text} (h : k.Shape d front text back) :
    Shaped d front back [token k text] := by
  refine ⟨?_, trivial⟩
  rintro _ ⟨⟩
  exact h

theorem Opens.shaped (h : Opens d fresh t here back) (front : Text) :
    Shaped d front back here := by
  cases h with
  | pairBreak => exact shaped_singleton (.inl rfl)
  | lineBreak c back isBreak alone =>
    refine shaped_singleton ?_
    rcases Glyph.isBreak_iff.1 isBreak with rfl | rfl
    · exact .inr (.inr ⟨rfl, fun hhead => alone ⟨rfl, hhead⟩⟩)
    · exact .inr (.inl rfl)
  | comment c run back longest lead =>
    have hc : c.isBreak = false := by
      rcases lead with rfl | ⟨rfl, -⟩ | ⟨rfl, -⟩ <;> decide
    refine shaped_singleton ⟨longest.cons (by simp [hc]), ?_⟩
    rcases lead with rfl | ⟨rfl, hhead⟩ | ⟨rfl, hhead⟩
    · exact ⟨run, .inl rfl⟩
    · obtain ⟨more, rfl⟩ := longest.exists_cons hhead rfl
      exact ⟨more, .inr (.inr rfl)⟩
    · obtain ⟨more, rfl⟩ := longest.exists_cons hhead rfl
      exact ⟨more, .inr (.inl rfl)⟩
  | preprocessor run back longest dialect whole =>
    exact shaped_singleton ⟨dialect, longest.cons rfl, run, rfl, whole⟩
  | reference c run back longest nonempty sigil =>
    refine ⟨?_, shaped_singleton ⟨run, longest, .inl ⟨rfl, nonempty⟩⟩⟩
    rintro _ ⟨⟩
    refine ⟨by simpa [text] using longest.ne_nil_iff.1 nonempty, ?_⟩
    rcases sigil with ⟨rfl, -⟩ | ⟨rfl, hd⟩ | ⟨rfl, hd, -⟩
    · exact .inl rfl
    · exact .inr (.inl ⟨rfl, hd⟩)
    · exact .inr (.inr ⟨rfl, hd⟩)
  | operand run back longest nonempty =>
    exact ⟨by simp, shaped_singleton ⟨run, longest, .inl ⟨rfl, nonempty⟩⟩⟩
  | dotDirective run back longest dialect known =>
    exact shaped_singleton ⟨run, longest, .inr (.inr (.inr ⟨rfl, dialect, known⟩))⟩
  | name c run back longest lead =>
    refine shaped_singleton ?_
    rcases lead with rfl | hc | ⟨rfl, hd⟩ | ⟨rfl, hd, -⟩
    · exact ⟨_, longest.cons (by simp [Dialect.isSymbol]), .inl ⟨rfl, by simp⟩⟩
    · exact ⟨_, longest.cons (by simp [Dialect.isSymbol, hc]), .inl ⟨rfl, by simp⟩⟩
    · exact ⟨run, longest, .inr (.inl ⟨rfl, hd⟩)⟩
    · exact ⟨run, longest, .inr (.inr ⟨rfl, hd⟩)⟩
  | directive c run back longest lead =>
    refine shaped_singleton ⟨run, longest, ?_⟩
    cases d with
    | acme => exact .inl ⟨by rw [Glyph.is_iff.1 lead], rfl⟩
    | kick => exact .inr (.inl ⟨by rw [Glyph.is_iff.1 lead], .inl rfl⟩)
    | llvm => exact .inr (.inl ⟨by rw [Glyph.is_iff.1 lead], .inr rfl⟩)
    | tmpx => exact .inr (.inr (.inl ⟨by rw [Glyph.is_iff.1 lead], rfl⟩))
    | unknown => cases lead
  | string q content back quote nonempty inside =>
    refine ⟨by simp, ?_, by simp, trivial⟩
    rintro _ ⟨⟩
    exact ⟨nonempty, q, quote, by simp [text], inside, .inr rfl⟩
  | unclosed q content quote inside =>
    refine ⟨by simp, fun k hk => ?_, trivial⟩
    cases content with
    | nil => cases hk
    | cons g content =>
      obtain rfl : TokenKind.string = k := Option.some.inj hk
      exact ⟨by simp [text], q, quote, by simp [text], inside, .inl rfl⟩
  | decimal c run back longest lead =>
    exact shaped_singleton (.inl ⟨by simp, longest.cons lead⟩)
  | hexadecimal run back longest nonempty =>
    exact shaped_singleton (.inr ⟨run, nonempty, .inl ⟨rfl, longest⟩⟩)
  | binary run back longest nonempty =>
    exact shaped_singleton (.inr ⟨run, nonempty, .inr ⟨rfl, longest⟩⟩)
  | operator => exact shaped_singleton rfl
  | byteOperator | anonymousLabel | emptyString | other => simp [Shaped]

theorem Scans.shaped (h : Scans d fresh t ls) (front : Text) : Shaped d front [] ls := by
  induction h generalizing front with
  | nil => trivial
  | step opens scans ih =>
    refine Shaped.append ?_ (ih _)
    rw [List.append_nil, scans.texts_eq]
    exact opens.shaped front

end Lexeme

namespace SymbolIndex

/-- The lexeme that a token stands for has the shape of its kind. -/
theorem exists_shaped_lexeme {d : Dialect} {source : Bytes} {t : Token}
    (h : t ∈ (parse d source).tokens.toList) : ∃ before l after,
    lexemes d source = before ++ l :: after ∧ l.text = t.text ∧
      t.offset = Text.size (Lexeme.texts before) ∧
      t.kind.Shape d (Lexeme.texts before) t.text (Lexeme.texts after) := by
  rw [tokens_parse] at h
  obtain ⟨before, l, after, hls, ht⟩ := Lexeme.mem_tokens_iff.1 h
  obtain ⟨k, hk, rfl⟩ := Option.map_eq_some_iff.1 ht
  have shaped : Lexeme.Shaped d [] [] (before ++ l :: after) := by
    rw [← hls]
    exact (Lexeme.scans_scan d true _).shaped []
  exact ⟨before, l, after, hls, rfl, by simp, by simpa using shaped.shape hk⟩

/-- The text of every token has the shape of its kind, between what stands in front of it and behind
it. -/
theorem shape_of_mem_tokens (d : Dialect) (source : Bytes) (t : Token)
    (h : t ∈ (parse d source).tokens.toList) : ∃ front back : Text,
    Text.decode source = front ++ (t.text ++ back) ∧ t.offset = front.size ∧
      t.kind.Shape d front t.text back := by
  obtain ⟨before, l, after, hls, htext, hoffset, shape⟩ := exists_shaped_lexeme h
  have hsource : Text.decode source = Lexeme.texts (lexemes d source) :=
    (Lexeme.texts_scan d true _).symm
  refine ⟨Lexeme.texts before, Lexeme.texts after, ?_, hoffset, shape⟩
  rw [hsource, hls, Lexeme.texts_append, Lexeme.texts_cons, htext]

/-- A directive of TMPx behind its dot, and a string that nothing closes. -/
theorem shape_of_dot_directive_and_open_string :
    let source : Bytes := [0x2E, 0x65, 0x6E, 0x64, 0x20, 0x27, 0x0D, 0xFF]
    let directive : Token :=
      ⟨.directive, 0, ⟨0, 0⟩, [.char '.', .char 'e', .char 'n', .char 'd'], true⟩
    let content : Token := ⟨.string, 6, ⟨0, 6⟩, [.char '\r', .stray 0xFF], false⟩
    (parse .tmpx source).tokens.toList = [directive, content] ∧
      (∃ front back : Text, Text.decode source = front ++ (directive.text ++ back) ∧
        0 = front.size ∧ TokenKind.directive.Shape .tmpx front directive.text back) ∧
      ∃ front back : Text, Text.decode source = front ++ (content.text ++ back) ∧
        6 = front.size ∧ TokenKind.string.Shape .tmpx front content.text back := by
  intro source directive content
  have hlexemes : lexemes .tmpx source =
      [.token .directive directive.text, .skipped [.char ' '], .skipped [.char '\''],
        .unclosed content.text] := by
    cbv
  have htokens : (parse .tmpx source).tokens.toList = [directive, content] := by
    rw [tokens_parse, hlexemes]
    rfl
  exact ⟨htokens, shape_of_mem_tokens .tmpx source directive (by simp [htokens]),
    shape_of_mem_tokens .tmpx source content (by simp [htokens])⟩

end SymbolIndex

end Asm6502
