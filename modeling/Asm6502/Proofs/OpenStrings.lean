import Asm6502.Proofs.LineConcatenation

/-!
# String literals that are left open

A string literal that no quote closes reaches to the end of the text, so there is at most one, and
it is the last thing in the text. Scanning takes up again at its opening quote, whatever is
appended; if that is the quote, the literal is closed and nothing else changes.

## Main definitions

- `Lexeme.LeavesOpen`: the last literal of a text is left open.

## Main statements

- `Lexeme.next_append_of_ne_nil`: what a character opens is settled once something is left behind
  it.
- `Lexeme.closed_or_leavesOpen`: a text closes its literals, or leaves the last one open.
- `Lexeme.Scans.exists_quotes`: a string token stands between the quotes of its literal.
- `SymbolIndex.gather_close_of_leavesOpen`: closing the last literal changes nothing that is
  gathered.
-/

namespace Asm6502

namespace Lexeme

variable {d : Dialect} {fresh : Bool} {t : Text}

/-! ## Resuming a scan -/

/-- A literal that is left open is the whole text. -/
theorem Opens.closed_or_open {back : Text} {here : List Lexeme} (h : Opens d fresh t here back) :
    (∀ content, .unclosed content ∉ here) ∨ ∃ q content, (q = .char '\'' ∨ q = .char '"') ∧
      q ∉ content ∧ t = q :: content ∧ back = [] := by
  cases h with
  | unclosed q content quote inside => exact .inr ⟨q, content, quote, inside, rfl, rfl⟩
  | _ => exact .inl (by simp)

/-- What a character opens is settled once something is left behind it. -/
theorem next_append_of_ne_nil {c : Glyph} {rest back : Text}
    (opens : Opens d fresh (c :: rest) (next d fresh c rest) back) (hback : back ≠ [])
    (more : Text) : next d fresh c (rest ++ more) = next d fresh c rest := by
  have split := congrArg List.length opens.texts_append
  have behind := List.length_pos_of_ne_nil hback
  rw [List.length_append, List.length_cons] at split
  have closed := opens.closed_or_open.resolve_right fun ⟨_, _, _, _, _, hnil⟩ => hback hnil
  cases rest with
  | nil =>
    have here := List.length_pos_of_ne_nil opens.texts_ne_nil
    simp only [List.length_nil] at split
    omega
  | cons g rest =>
    refine next_append (fun _ _ => rfl) (fun _ => rfl) (fun p _ htexts => ?_) closed
    -- a run that stops short of the end of the text does not reach into what is appended
    have shorter : (List.takeWhile p (g :: rest)).length < (g :: rest).length := by
      rw [htexts, List.length_cons (a := c)] at split
      omega
    rw [List.takeWhile_append, if_neg shorter.ne]

/-- Whatever is appended, a scan goes on behind a production that does not reach the end. -/
theorem scan_cons_append_of_ne_nil {c : Glyph} {rest back : Text}
    (opens : Opens d fresh (c :: rest) (next d fresh c rest) back) (hback : back ≠ [])
    (more : Text) : scan d fresh (c :: rest ++ more) = next d fresh c rest ++
      scan d ((next d fresh c rest).foldl Lexeme.fresh fresh) (back ++ more) := by
  have same := next_append_of_ne_nil opens hback more
  have hmore : (rest ++ more).drop ((texts (next d fresh c rest)).length - 1) = back ++ more := by
    rw [← same]
    refine drop_texts_next ?_
    rw [same, ← List.append_assoc, ← opens.texts_append, List.cons_append]
  rw [List.cons_append, scan, same, hmore]

/-- The text opens a literal with the quote `q` behind the lexemes `front`, and `content`, which is
all that follows, does not close it. Whatever is appended, the scan takes up again at the quote. -/
structure LeavesOpen (d : Dialect) (fresh : Bool) (t : Text) (front : List Lexeme) (q : Glyph)
    (content : Text) : Prop where
  quote : q = .char '\'' ∨ q = .char '"'
  inside : q ∉ content
  text_eq : t = texts front ++ q :: content
  closed : ∀ content', unclosed content' ∉ front
  resume : ∀ more, scan d fresh (t ++ more) =
    front ++ scan d (front.foldl Lexeme.fresh fresh) (q :: (content ++ more))

/-- A text closes all its literals, or leaves the last one open. -/
theorem closed_or_leavesOpen (d : Dialect) (fresh : Bool) (t : Text) :
    (∀ content, unclosed content ∉ scan d fresh t) ∨
      ∃ front q content, LeavesOpen d fresh t front q content := by
  fun_induction scan d fresh t with
  | case1 fresh => exact .inl (by simp)
  | case2 fresh c rest here ih =>
    obtain ⟨back, opens⟩ := exists_opens d fresh c rest
    have split : c :: rest = texts here ++ back := opens.texts_append
    rw [drop_texts_next split] at ih ⊢
    rcases opens.closed_or_open with closed | ⟨q, content, quote, inside, hcons, rfl⟩
    · rcases ih with closed' | ⟨front, q, content, left⟩
      · refine .inl fun content hmem => ?_
        rcases List.mem_append.1 hmem with hmem | hmem
        · exact closed content hmem
        · exact closed' content hmem
      · -- the literal is opened further on, so there is something behind this production
        have hback : back ≠ [] := by simp [left.text_eq]
        refine .inr ⟨here ++ front, q, content, left.quote, left.inside, ?_, ?_, fun more => ?_⟩
        · rw [split, left.text_eq, texts_append, List.append_assoc]
        · intro content' hmem
          rcases List.mem_append.1 hmem with hmem | hmem
          · exact closed content' hmem
          · exact left.closed content' hmem
        · rw [scan_cons_append_of_ne_nil opens hback, left.resume, List.foldl_append,
            List.append_assoc]
    · obtain ⟨rfl, rfl⟩ := List.cons.inj hcons
      exact .inr ⟨[], c, rest, quote, inside, rfl, by simp, fun _ => rfl⟩

/-! ## Literals at the end of a text -/

variable {q : Glyph} {content : Text}

theorem next_quote (quote : q = .char '\'' ∨ q = .char '"') (rest : Text) :
    next d fresh q rest = stringLiteral q rest := by
  rcases quote with rfl | rfl <;> cases d <;> rfl

theorem takeWhile_ne (inside : q ∉ content) (back : Text) :
    (content ++ back).takeWhile (· != q) = content ++ back.takeWhile (· != q) := by
  refine List.takeWhile_append_of_pos fun g hg => ?_
  exact bne_iff_ne.2 fun heq => inside (heq ▸ hg)

theorem takeWhile_ne_eq_self (inside : q ∉ content) : content.takeWhile (· != q) = content := by
  simpa using takeWhile_ne inside []

theorem stringLiteral_open (inside : q ∉ content) :
    stringLiteral q content = [skipped [q], unclosed content] := by
  simp [stringLiteral, takeWhile_ne_eq_self inside]

/-- The lexemes of a literal that is closed at the end of the text. -/
theorem stringLiteral_closed (inside : q ∉ content) :
    stringLiteral q (content ++ [q]) = if content = [] then [skipped [q], skipped [q]]
      else [skipped [q], token .string content, skipped [q]] := by
  have run := takeWhile_ne inside [q]
  simp [stringLiteral, run]

/-- A literal that is left open makes the same tokens as one that is closed at the end. -/
theorem tokens_stringLiteral_closed (inside : q ∉ content) (offset : Nat) (p : Position)
    (fresh : Bool) :
    tokens offset p fresh (stringLiteral q (content ++ [q])) =
      tokens offset p fresh (stringLiteral q content) := by
  rw [stringLiteral_closed inside, stringLiteral_open inside]
  cases content with
  | nil => rfl
  | cons g content => rfl

theorem scan_quote (quote : q = .char '\'' ∨ q = .char '"')
    (h : texts (stringLiteral q t) = q :: t) : scan d fresh (q :: t) = stringLiteral q t := by
  have done : t.drop ((texts (stringLiteral q t)).length - 1) = [] := by simp [h]
  rw [scan, next_quote quote, done, scan, List.append_nil]

namespace LeavesOpen

variable {front : List Lexeme}

theorem scan_eq (h : LeavesOpen d fresh t front q content) :
    scan d fresh t = front ++ stringLiteral q content := by
  have whole := h.resume []
  rw [List.append_nil, List.append_nil] at whole
  rw [whole, scan_quote h.quote]
  rw [stringLiteral_open h.inside]
  simp [text]

theorem scan_close (h : LeavesOpen d fresh t front q content) :
    scan d fresh (t ++ [q]) = front ++ stringLiteral q (content ++ [q]) := by
  rw [h.resume, scan_quote h.quote]
  rw [stringLiteral_closed h.inside]
  split <;> simp_all [text]

end LeavesOpen

/-! ## Literals that are closed -/

theorem Opens.eq_of_mem_string {here : List Lexeme} {back text : Text}
    (h : Opens d fresh t here back) (hmem : token .string text ∈ here) :
    ∃ q, (q = .char '\'' ∨ q = .char '"') ∧ q ∉ text ∧
      here = [skipped [q], token .string text, skipped [q]] := by
  cases h with
  | string q content back quote nonempty inside =>
    obtain rfl : text = content := by simpa using hmem
    exact ⟨q, quote, inside, rfl⟩
  | _ => simp at hmem

/-- A string token stands between the quotes of its literal. -/
theorem Scans.exists_quotes {before after : List Lexeme} {text : Text}
    (h : Scans d fresh t (before ++ token .string text :: after)) :
    ∃ front q back, (q = .char '\'' ∨ q = .char '"') ∧ q ∉ text ∧
      before = front ++ [skipped [q]] ∧ after = skipped [q] :: back := by
  obtain ⟨outer, inner, behind, later, _, _, rfl, rfl, opens⟩ := h.exists_production
  have hmem : token .string text ∈ inner ++ token .string text :: behind := by simp
  obtain ⟨q, quote, inside, hhere⟩ := opens.eq_of_mem_string hmem
  obtain ⟨rfl, rfl⟩ : inner = [skipped [q]] ∧ behind = [skipped [q]] := by
    -- the production has one token only, so it divides the production where `inner` ends
    clear h opens hmem
    rcases inner with _ | ⟨x, _ | ⟨y, inner⟩⟩ <;> simp_all [List.append_eq_singleton_iff]
  exact ⟨outer, q, later, quote, inside, rfl, rfl⟩

/-! ## Spans of open literals -/

theorem unclosedSpans_append (p : Position) (ls more : List Lexeme) :
    unclosedSpans p (ls ++ more) = unclosedSpans p ls ++ unclosedSpans (walk p ls) more := by
  induction ls generalizing p with
  | nil => rfl
  | cons l ls ih => cases l <;> simp [unclosedSpans, ih, walk]

theorem unclosedSpans_eq_nil {ls : List Lexeme} (h : ∀ content, unclosed content ∉ ls)
    (p : Position) : unclosedSpans p ls = [] := by
  induction ls generalizing p with
  | nil => rfl
  | cons l ls ih =>
    have behind := ih (fun content hmem => h content (List.mem_cons_of_mem l hmem))
    cases l with
    | unclosed content => exact absurd List.mem_cons_self (h content)
    | _ => exact behind _

end Lexeme

namespace SymbolIndex

variable {d : Dialect} {source : Bytes}

/-! ## Remarks -/

/-- The warnings about the redefinitions that have been gathered. -/
def warningsOf (a : Accumulator) : List Diagnostic :=
  a.redefinitions.toList.filterMap (redefinitionWarning? a.tokens a.statements)

theorem diagnostics_parse (d : Dialect) (source : Bytes) : (parse d source).diagnostics =
    (Lexeme.unclosedSpans .origin (lexemes d source)).map .unterminatedString ++
      warningsOf (gather d source) := rfl

/-- The warning about a redefinition lies on a token. -/
theorem exists_eq_redefinition {ts : Array Token} {ss : Array Statement} {r : Redefinition}
    {w : Diagnostic} (h : redefinitionWarning? ts ss r = some w) :
    ∃ t ∈ ts.toList, ∃ row, w = .redefinition r.name row t.span := by
  simp only [redefinitionWarning?, Option.bind_eq_bind, Option.bind_eq_some_iff,
    Option.pure_def] at h
  obtain ⟨previous, -, current, -, h⟩ := h
  split at h
  · cases h
  · simp only [Option.bind_eq_some_iff, Option.some.injEq] at h
    obtain ⟨_, -, _, -, _, -, t, ht, rfl⟩ := h
    exact ⟨t, Array.mem_toList_iff.2 (Array.mem_of_getElem? ht), _, rfl⟩

theorem unterminatedString_notMem_warningsOf (a : Accumulator) (span : Span) :
    .unterminatedString span ∉ warningsOf a := by
  intro hmem
  obtain ⟨r, -, hr⟩ := List.mem_filterMap.1 hmem
  obtain ⟨t, -, row, heq⟩ := exists_eq_redefinition hr
  cases congrArg Diagnostic.severity heq

theorem diagnostics_of_closed (closed : ∀ content, .unclosed content ∉ lexemes d source) :
    (parse d source).diagnostics = warningsOf (gather d source) := by
  rw [diagnostics_parse, Lexeme.unclosedSpans_eq_nil closed]
  rfl

/-! ## Texts that leave a literal open -/

theorem decode_append_quote {q : Glyph} (quote : q = .char '\'' ∨ q = .char '"') (source : Bytes) :
    Text.decode (source ++ Text.bytes [q]) = Text.decode source ++ [q] := by
  have byte : ∃ b : UInt8, Text.bytes [q] = [b] ∧ Text.tailBits? b = none ∧ b.toNat < 0x80 ∧
      Glyph.char (Char.ofNat b.toNat) = q := by
    rcases quote with rfl | rfl
    · exact ⟨0x27, by decide⟩
    · exact ⟨0x22, by decide⟩
  obtain ⟨b, hbytes, htail, hlt, hq⟩ := byte
  rw [hbytes, Text.decode_append_cons htail, Text.decode_cons_of_lt hlt, Text.decode_nil, hq]

section LeavesOpen

variable {front : List Lexeme} {q : Glyph} {content : Text}

theorem lexemes_of_leavesOpen
    (h : Lexeme.LeavesOpen d true (Text.decode source) front q content) :
    lexemes d source = (front ++ [.skipped [q]]) ++ [.unclosed content] := by
  rw [lexemes, h.scan_eq, Lexeme.stringLiteral_open h.inside]
  simp

theorem walk_of_leavesOpen
    (h : Lexeme.LeavesOpen d true (Text.decode source) front q content) :
    Lexeme.walk .origin (front ++ [.skipped [q]]) =
      Position.behind (source.take (Lexeme.texts front ++ [q]).size) := by
  have htexts : Lexeme.texts (front ++ [.skipped [q]]) = Lexeme.texts front ++ [q] := by
    simp [Lexeme.text]
  have hsplit : Text.decode source = (Lexeme.texts front ++ [q]) ++ content := by
    rw [h.text_eq, List.append_assoc, List.singleton_append]
  rw [Lexeme.walk_eq_advance (lexemes_of_leavesOpen h), htexts,
    Position.advance_origin_eq_behind hsplit]

/-- The literal that is left open is remarked on, from its first character to the end. -/
theorem unclosedSpans_of_leavesOpen
    (h : Lexeme.LeavesOpen d true (Text.decode source) front q content) :
    Lexeme.unclosedSpans .origin (lexemes d source) =
      [⟨Position.behind (source.take (Lexeme.texts front ++ [q]).size),
        Position.behind source⟩] := by
  have closed : ∀ content', .unclosed content' ∉ front ++ [.skipped [q]] := by
    simpa using h.closed
  have stop : (Lexeme.walk .origin (front ++ [.skipped [q]])).advance content =
      Position.behind source := by
    rw [← walk_lexemes d source, lexemes_of_leavesOpen h]
    simp [Lexeme.walk, Lexeme.text]
  rw [lexemes_of_leavesOpen h, Lexeme.unclosedSpans_append, Lexeme.unclosedSpans_eq_nil closed,
    ← walk_of_leavesOpen h, ← stop]
  rfl

theorem diagnostics_of_leavesOpen
    (h : Lexeme.LeavesOpen d true (Text.decode source) front q content) :
    (parse d source).diagnostics = .unterminatedString
      ⟨Position.behind (source.take (Lexeme.texts front ++ [q]).size), Position.behind source⟩ ::
        warningsOf (gather d source) := by
  rw [diagnostics_parse, unclosedSpans_of_leavesOpen h]
  rfl

/-- The tokens of a text that leaves a literal open: behind those in front of the literal there is
its content, unless that is empty. -/
theorem tokens_of_leavesOpen
    (h : Lexeme.LeavesOpen d true (Text.decode source) front q content) :
    (parse d source).tokens.toList = Lexeme.tokens 0 .origin true front ++
      if content = [] then [] else
        [⟨.string, (Lexeme.texts front ++ [q]).size,
          Position.behind (source.take (Lexeme.texts front ++ [q]).size), content,
          front.foldl Lexeme.fresh true⟩] := by
  rw [tokens_parse, lexemes_of_leavesOpen h, Lexeme.tokens_append, walk_of_leavesOpen h,
    Lexeme.tokens_append]
  cases content <;> simp [Lexeme.tokens, Lexeme.text, Lexeme.kind?, Lexeme.fresh]

/-- Closing the literal changes no token. -/
theorem tokens_close_of_leavesOpen
    (h : Lexeme.LeavesOpen d true (Text.decode source) front q content) :
    Lexeme.tokens 0 .origin true (lexemes d (source ++ Text.bytes [q])) =
      Lexeme.tokens 0 .origin true (lexemes d source) := by
  rw [lexemes, lexemes, decode_append_quote h.quote, h.scan_close, h.scan_eq,
    Lexeme.tokens_append, Lexeme.tokens_append, Lexeme.tokens_stringLiteral_closed h.inside]

theorem gather_close_of_leavesOpen
    (h : Lexeme.LeavesOpen d true (Text.decode source) front q content) :
    gather d (source ++ Text.bytes [q]) = gather d source := by
  rw [gather, gather, tokens_close_of_leavesOpen h]

/-- Closing the literal takes the remark on it away. -/
theorem diagnostics_close_of_leavesOpen
    (h : Lexeme.LeavesOpen d true (Text.decode source) front q content) :
    (parse d (source ++ Text.bytes [q])).diagnostics = warningsOf (gather d source) := by
  have closed : ∀ content', .unclosed content' ∉ lexemes d (source ++ Text.bytes [q]) := by
    intro content' hmem
    rw [lexemes, decode_append_quote h.quote, h.scan_close, Lexeme.stringLiteral_closed h.inside,
      List.mem_append] at hmem
    refine hmem.elim (h.closed content') fun hmem => ?_
    split at hmem <;> simp at hmem
  rw [diagnostics_of_closed closed, gather_close_of_leavesOpen h]

end LeavesOpen

theorem stop_le_of_mem_tokens {ls : List Lexeme} {t : Token}
    (h : t ∈ Lexeme.tokens 0 .origin true ls) : t.stop ≤ (Lexeme.texts ls).size := by
  obtain ⟨before, l, after, rfl, ht⟩ := Lexeme.mem_tokens_iff.1 h
  obtain ⟨k, -, rfl⟩ := Option.map_eq_some_iff.1 ht
  simp only [Token.stop, Token.length, Lexeme.texts_append, Lexeme.texts_cons, Text.size_append]
  omega

/-- If no literal is left open, a string token stands between two quotes. -/
theorem exists_quotes_of_string (closed : ∀ content, .unclosed content ∉ lexemes d source)
    {t : Token} (ht : t ∈ (parse d source).tokens.toList) (hkind : t.kind = .string) :
    ∃ front q back, Text.decode source = front ++ q :: (t.text ++ q :: back) ∧
      (q = .char '\'' ∨ q = .char '"') ∧ q ∉ t.text ∧ t.offset = Text.size (front ++ [q]) := by
  rw [tokens_parse] at ht
  obtain ⟨before, l, after, hls, htoken⟩ := Lexeme.mem_tokens_iff.1 ht
  obtain ⟨k, hk, rfl⟩ := Option.map_eq_some_iff.1 htoken
  obtain rfl : k = .string := hkind
  cases l with
  | skipped text => cases hk
  | unclosed content => exact absurd (by simp [hls]) (closed content)
  | token k text =>
    obtain rfl : k = .string := Option.some.inj hk
    have scans : Lexeme.Scans d true (Text.decode source)
        (before ++ .token .string text :: after) := hls ▸ Lexeme.scans_scan d true _
    obtain ⟨front, q, back, quote, inside, rfl, rfl⟩ := scans.exists_quotes
    refine ⟨Lexeme.texts front, q, Lexeme.texts back, ?_, quote, inside, ?_⟩
    · rw [← scans.texts_eq]
      simp [Lexeme.text]
    · simp [Lexeme.text]

/-- At most one literal is left open, which is the first thing remarked on. It reaches from behind
its opening quote to the end of the text, is a string token unless it is empty, and would be closed
by that quote without any other change. If none is left open, every string token is followed by its
opening quote. -/
theorem open_string_exact (d : Dialect) (source : Bytes) :
    let ix := parse d source
    (∀ i span, ix.diagnostics[i]? = some (.unterminatedString span) → i = 0) ∧
    (∀ span, .unterminatedString span ∈ ix.diagnostics →
      ∃ (front : Text) (q : Glyph) (content : Text),
        Text.decode source = front ++ q :: content ∧ (q = .char '\'' ∨ q = .char '"') ∧
        q ∉ content ∧
        let start := (front ++ [q]).size
        let closed := parse d (source ++ Text.bytes [q])
        span = ⟨Position.behind (source.take start), Position.behind source⟩ ∧
        (∃ ts first, (∀ t ∈ ts, t.stop ≤ front.size) ∧ ix.tokens.toList =
          ts ++ if content = [] then [] else [⟨.string, start, span.start, content, first⟩]) ∧
        (∀ span', .unterminatedString span' ∉ closed.diagnostics) ∧
        ix.diagnostics = .unterminatedString span :: closed.diagnostics ∧
        closed.tokens = ix.tokens ∧ closed.statements = ix.statements ∧
        closed.definitions = ix.definitions) ∧
    ((∀ span, .unterminatedString span ∉ ix.diagnostics) →
      ∀ t ∈ ix.tokens.toList, t.kind = .string →
        ∃ (front : Text) (q : Glyph) (back : Text),
          Text.decode source = front ++ q :: (t.text ++ q :: back) ∧
          (q = .char '\'' ∨ q = .char '"') ∧ q ∉ t.text ∧ t.offset = (front ++ [q]).size) := by
  intro ix
  have warning := unterminatedString_notMem_warningsOf (gather d source)
  rcases Lexeme.closed_or_leavesOpen d true (Text.decode source) with
    closed | ⟨front, q, content, left⟩
  · have remarks : ix.diagnostics = warningsOf (gather d source) := diagnostics_of_closed closed
    refine ⟨fun i span hi => ?_, fun span hmem => ?_, fun _ t ht => ?_⟩
    · rw [remarks] at hi
      exact absurd (List.mem_of_getElem? hi) (warning span)
    · rw [remarks] at hmem
      exact absurd hmem (warning span)
    · exact exists_quotes_of_string closed ht
  · have remarks : ix.diagnostics = _ := diagnostics_of_leavesOpen left
    refine ⟨fun i span hi => ?_, fun span hmem => ?_, fun absent => ?_⟩
    · rw [remarks] at hi
      cases i with
      | zero => rfl
      | succ i =>
        rw [List.getElem?_cons_succ] at hi
        exact absurd (List.mem_of_getElem? hi) (warning span)
    · rw [remarks] at hmem
      have gathered := gather_close_of_leavesOpen left
      have closing := diagnostics_close_of_leavesOpen left
      obtain hspan := (List.mem_cons.1 hmem).resolve_right (warning span)
      obtain rfl := (Diagnostic.mk.inj hspan).1
      refine ⟨Lexeme.texts front, q, content, left.text_eq, left.quote, left.inside, rfl,
        ⟨_, _, fun t ht => stop_le_of_mem_tokens ht, tokens_of_leavesOpen left⟩, ?_, ?_, ?_, ?_, ?_⟩
      · rw [closing]
        exact warning
      · rw [closing, remarks]
      · exact (congrArg Accumulator.tokens gathered :)
      · exact (congrArg Accumulator.statements gathered :)
      · exact (congrArg Accumulator.definitions gathered :)
    · exact absurd (remarks ▸ List.mem_cons_self) (absent _)

/-- A literal over two lines, in which the text breaks off within a character, behind a label that
is defined twice; and a literal that holds the other quote. -/
theorem open_string_exact_broken_off_character :
    let source : Bytes := [0x61, 0x0A, 0x61, 0x0A, 0x22, 0x62, 0x0A, 0xC3]
    let span : Span := ⟨⟨2, 1⟩, ⟨3, 1⟩⟩
    let warning : Diagnostic := .redefinition [.char 'a'] 0 ⟨⟨1, 0⟩, ⟨1, 1⟩⟩
    let enclosed : Bytes := [0x27, 0x22, 0x27]
    let content : Token := ⟨.string, 1, ⟨0, 1⟩, [.char '"'], true⟩
    (parse .acme source).diagnostics = [.unterminatedString span, warning] ∧
      (∀ i span', (parse .acme source).diagnostics[i]? = some (.unterminatedString span') →
        i = 0) ∧
      (∃ (front : Text) (q : Glyph) (content : Text), Text.decode source = front ++ q :: content ∧
        q ∉ content ∧ (parse .acme (source ++ Text.bytes [q])).diagnostics = [warning] ∧
        (parse .acme (source ++ Text.bytes [q])).tokens = (parse .acme source).tokens) ∧
      (parse .acme enclosed).diagnostics = [] ∧ (parse .acme enclosed).tokens.toList = [content] ∧
      ∃ (front : Text) (q : Glyph) (back : Text),
        Text.decode enclosed = front ++ q :: (content.text ++ q :: back) ∧
        (q = .char '\'' ∨ q = .char '"') ∧ q ∉ content.text ∧
        content.offset = (front ++ [q]).size := by
  intro source span warning enclosed string
  have hlexemes : lexemes .acme source =
      [.token .identifier [.char 'a'], .token .lineBreak [.char '\n'],
        .token .identifier [.char 'a'], .token .lineBreak [.char '\n'], .skipped [.char '"'],
        .unclosed [.char 'b', .char '\n', .stray 0xC3]] := by
    cbv
  have henclosed : lexemes .acme enclosed =
      [.skipped [.char '\''], .token .string [.char '"'], .skipped [.char '\'']] := by
    cbv
  have present : (parse .acme source).diagnostics = [.unterminatedString span, warning] := by
    simp only [parse, gather, hlexemes]
    rfl
  have absent : (parse .acme enclosed).diagnostics = [] := by
    simp only [parse, gather, henclosed]
    rfl
  have tokens : (parse .acme enclosed).tokens.toList = [string] := by
    rw [tokens_parse, henclosed]
    rfl
  obtain ⟨first, reported, -⟩ := open_string_exact .acme source
  obtain ⟨front, q, content, split, -, inside, -, -, -, remarks, same, -⟩ :=
    reported span (by simp [present])
  rw [present] at remarks
  obtain ⟨-, -, enclosing⟩ := open_string_exact .acme enclosed
  exact ⟨present, first, ⟨front, q, content, split, inside, (List.cons.inj remarks).2.symm, same⟩,
    absent, tokens, enclosing (by simp [absent]) string (by simp [tokens]) rfl⟩

end SymbolIndex

end Asm6502
