import Asm6502.Proofs.OpenStrings

/-!
# Texts that grow by lines

A text of whole lines is read the same way whatever is appended to it, but for a string literal that
it leaves open: that literal is the last token, and it grows up to the next quote of its kind. All
other tokens of the longer text start behind the shorter one.

## Main definitions

- `WholeLines`: a source without a line that is broken off.
- `SymbolIndex.EndsOpen`: the last token is a literal that is left open.

## Main statements

- `Lexeme.scan_append_of_closed`: a text of whole lines that closes its literals is scanned the same
  way whatever is appended.
- `SymbolIndex.EndsOpen.exists_leavesOpen`, `SymbolIndex.closed_or_endsOpen`: the literal that is
  left open, as the tokens show it.
- `SymbolIndex.tokens_append_of_closed`, `SymbolIndex.EndsOpen.exists_tokens_append`: the tokens of
  a text that has grown.
-/

namespace Asm6502

/-- The source is empty or ends with a line feed. -/
def WholeLines (source : Bytes) : Prop :=
  ∀ b, source.getLast? = some b → b = 0x0A

theorem wholeLines_nil : WholeLines [] := by
  simp [WholeLines]

theorem wholeLines_append_line (source line : Bytes) :
    WholeLines (source ++ (line ++ [0x0A])) := by
  simp [WholeLines]

namespace WholeLines

variable {source : Bytes}

theorem eq_nil_or_concat (h : WholeLines source) : source = [] ∨ ∃ s, source = s ++ [0x0A] := by
  rcases List.eq_nil_or_concat' source with rfl | ⟨s, b, rfl⟩
  · exact .inl rfl
  · obtain rfl : b = 0x0A := h b (by simp)
    exact .inr ⟨s, rfl⟩

/-- What follows whole lines is decoded apart from them. -/
theorem decode_append (h : WholeLines source) (more : Bytes) :
    Text.decode (source ++ more) = Text.decode source ++ Text.decode more := by
  rcases h.eq_nil_or_concat with rfl | ⟨s, rfl⟩
  · simp
  · rw [List.append_assoc, List.singleton_append, SymbolIndex.decode_append_lineFeed,
      SymbolIndex.decode_append_lineFeed]
    simp

theorem eq_lineFeed_of_getLast? (h : WholeLines source) {g : Glyph}
    (hg : (Text.decode source).getLast? = some g) : g = .char '\n' := by
  rcases h.eq_nil_or_concat with rfl | ⟨s, rfl⟩
  · simp at hg
  · rw [SymbolIndex.decode_append_lineFeed] at hg
    simpa [eq_comm] using hg

end WholeLines

namespace Lexeme

variable {d : Dialect} {fresh : Bool} {t : Text}

/-! ## Scanning whole lines -/

/-- A production that ends the text with a line feed is a line end, unless it leaves a literal
open. -/
theorem Opens.eq_lineBreak {here : List Lexeme} (opens : Opens d fresh t here [])
    (closed : ∀ content, .unclosed content ∉ here) (hlast : t.getLast? = some (.char '\n')) :
    here = [token .lineBreak t] ∧ (t = [.char '\n'] ∨ t = [.char '\r', .char '\n']) := by
  have breaks : ∃ l ∈ here, l.kind? = some .lineBreak ∨ l.kind? = some .string := by
    by_contra! other
    have hmem : .char '\n' ∈ texts here := by
      rw [← List.append_nil (texts here), ← opens.texts_append]
      exact List.mem_of_getLast? hlast
    obtain ⟨l, hl, hg⟩ := List.mem_flatMap.1 hmem
    have := opens.not_isBreak_of_kind l hl (other l hl).1 (other l hl).2 _ hg
    simp [Glyph.isBreak] at this
  cases opens with
  | pairBreak => simp
  | lineBreak c => simp_all
  | string q content _ quote =>
    -- the quote comes last, and it is no line feed
    rcases quote with rfl | rfl <;> simp [List.getLast?_cons] at hlast
  | unclosed q content => simp at closed
  | _ => simp at breaks

/-- A text of whole lines that closes its literals is scanned the same way whatever is appended. -/
theorem scan_append_of_closed (closed : ∀ content, unclosed content ∉ scan d fresh t)
    (whole : ∀ g, t.getLast? = some g → g = .char '\n') (more : Text) :
    scan d fresh (t ++ more) =
      scan d fresh t ++ scan d ((scan d fresh t).foldl Lexeme.fresh fresh) more := by
  fun_induction scan d fresh t with
  | case1 fresh => rfl
  | case2 fresh c rest here ih =>
    obtain ⟨back, opens⟩ := exists_opens d fresh c rest
    have split : c :: rest = texts here ++ back := opens.texts_append
    rw [drop_texts_next split] at closed ih ⊢
    cases back with
    | nil =>
      have closed' : ∀ content, unclosed content ∉ here := fun content hmem =>
        closed content (List.mem_append_left _ hmem)
      obtain ⟨g, hlast⟩ : ∃ g, (c :: rest).getLast? = some g := ⟨_, List.getLast?_cons⟩
      obtain rfl := whole g hlast
      obtain ⟨hhere, hbreak⟩ := opens.eq_lineBreak closed' hlast
      have hhere : here = [token .lineBreak (c :: rest)] := hhere
      rw [hhere, scan]
      -- a line feed closes the line end, so nothing that follows can belong to it
      rcases hbreak with hbreak | hbreak <;> obtain ⟨rfl, rfl⟩ := List.cons.inj hbreak
      · rw [List.cons_append, scan]
        rfl
      · rw [List.cons_append, scan]
        rfl
    | cons g back =>
      have whole' : ∀ g', (g :: back).getLast? = some g' → g' = .char '\n' := by
        intro g' hg'
        exact whole g' (by simp [split, List.getLast?_append, hg'])
      rw [scan_cons_append_of_ne_nil opens (List.cons_ne_nil g back),
        ih (fun content hmem => closed content (List.mem_append_right _ hmem)) whole',
        List.foldl_append, List.append_assoc]

variable {q : Glyph} {content : Text}

/-- A literal whose first part is known goes on up to the next quote of its kind. -/
theorem exists_scan_quote (d : Dialect) (fresh : Bool) (quote : q = .char '\'' ∨ q = .char '"')
    (inside : q ∉ content) (nonempty : content ≠ []) (more : Text) : ∃ l later,
      scan d fresh (q :: (content ++ more)) = skipped [q] :: l :: later ∧
      l.kind? = some .string ∧ l.text = content ++ more.takeWhile (· != q) ∧
      (q ∉ more → later = []) := by
  have run := takeWhile_ne inside more
  by_cases hq : q ∈ more
  · have shorter : (more.takeWhile (· != q)).length < more.length := by
      by_contra! h
      have all := (List.takeWhile_sublist _).eq_of_length_le h
      simpa using List.takeWhile_eq_self_iff.1 all q hq
    have literal : stringLiteral q (content ++ more) =
        [skipped [q], token .string (content ++ more.takeWhile (· != q)), skipped [q]] := by
      simp [stringLiteral, run, shorter, nonempty]
    rw [scan, next_quote quote, literal]
    exact ⟨_, _, rfl, rfl, rfl, fun absent => absurd hq absent⟩
  · have inside' : q ∉ content ++ more := by simp [inside, hq]
    refine ⟨unclosed (content ++ more), [], ?_, ?_, ?_, fun _ => rfl⟩
    · rw [scan_quote quote, stringLiteral_open inside']
      simp [stringLiteral_open inside', text]
    · simp [kind?, nonempty]
    · rw [takeWhile_ne_eq_self hq]
      rfl

end Lexeme

namespace SymbolIndex

variable {d : Dialect} {source : Bytes} {ts : List Token} {t : Token} {q : Glyph}

/-! ## The literal that is left open -/

/-- The last token is a string literal, opened by the quote `q`, that the source does not close. -/
structure EndsOpen (ix : SymbolIndex) (ts : List Token) (t : Token) (q : Glyph) : Prop where
  tokens : ix.tokens.toList = ts ++ [t]
  kind : t.kind = .string
  quote : q = .char '\'' ∨ q = .char '"'
  inside : q ∉ t.text
  source : ∃ front, Text.decode ix.source = front ++ q :: t.text ∧ t.offset = (front ++ [q]).size

theorem EndsOpen.mem {ix : SymbolIndex} (h : ix.EndsOpen ts t q) : t ∈ ix.tokens.toList := by
  simp [h.tokens]

/-- A literal that is left open ends with the source. -/
theorem EndsOpen.stop_eq {ix : SymbolIndex} (h : ix.EndsOpen ts t q) :
    t.stop = ix.source.length := by
  obtain ⟨front, hsource, hoffset⟩ := h.source
  rw [Token.stop, Token.length, hoffset, ← Text.size_decode, hsource]
  simp [Nat.add_assoc]

theorem EndsOpen.unique {ix : SymbolIndex} {ts' : List Token} {t' : Token} {q' : Glyph}
    (h : ix.EndsOpen ts t q) (h' : ix.EndsOpen ts' t' q') : ts = ts' ∧ t = t' ∧ q = q' := by
  obtain ⟨rfl, ht⟩ := List.append_inj' (h.tokens.symm.trans h'.tokens) rfl
  obtain rfl := List.singleton_inj.1 ht
  obtain ⟨front, hsource, -⟩ := h.source
  obtain ⟨front', hsource', -⟩ := h'.source
  have hfront : front ++ [q] = front' ++ [q'] :=
    (List.append_left_inj t.text).1 (by simpa using hsource.symm.trans hsource')
  exact ⟨rfl, rfl, List.singleton_inj.1 (List.append_inj' hfront rfl).2⟩

theorem endsOpen_of_leavesOpen {front : List Lexeme} {content : Text}
    (left : Lexeme.LeavesOpen d true (Text.decode source) front q content)
    (nonempty : content ≠ []) :
    (parse d source).EndsOpen (Lexeme.tokens 0 .origin true front)
      ⟨.string, (Lexeme.texts front ++ [q]).size,
        Position.behind (source.take (Lexeme.texts front ++ [q]).size), content,
        front.foldl Lexeme.fresh true⟩ q := by
  have htokens := tokens_of_leavesOpen left
  rw [if_neg nonempty] at htokens
  exact ⟨htokens, rfl, left.quote, left.inside, Lexeme.texts front, left.text_eq, rfl⟩

theorem EndsOpen.exists_leavesOpen (h : (parse d source).EndsOpen ts t q) : ∃ front,
    Lexeme.LeavesOpen d true (Text.decode source) front q t.text ∧
      ts = Lexeme.tokens 0 .origin true front ∧
      t = ⟨.string, (Lexeme.texts front ++ [q]).size,
        Position.behind (source.take (Lexeme.texts front ++ [q]).size), t.text,
        front.foldl Lexeme.fresh true⟩ := by
  have hstop : t.stop = (Text.decode source).size := by
    rw [h.stop_eq, Text.size_decode]
    rfl
  rcases Lexeme.closed_or_leavesOpen d true (Text.decode source) with
    closed | ⟨front', q', content, left⟩
  · -- a closed literal is followed by its quote
    obtain ⟨front', q', back, hsource, -, -, hoffset⟩ := exists_quotes_of_string closed h.mem h.kind
    have hquote := q'.width_pos
    simp [hsource, Token.stop, Token.length, hoffset] at hstop
    omega
  · by_cases hcontent : content = []
    · -- an empty literal is no token, and no other token ends with the source
      have hmem := h.mem
      rw [tokens_of_leavesOpen left, if_pos hcontent, List.append_nil] at hmem
      have hle := stop_le_of_mem_tokens hmem
      have hquote := q'.width_pos
      rw [hstop, left.text_eq, Text.size_append, Text.size_cons] at hle
      omega
    · obtain ⟨rfl, rfl, rfl⟩ := h.unique (endsOpen_of_leavesOpen left hcontent)
      exact ⟨front', left, rfl, rfl⟩

/-- A text of whole lines closes its literals, or its last token is left open. -/
theorem closed_or_endsOpen (whole : WholeLines source) :
    (∀ content, .unclosed content ∉ lexemes d source) ∨
      ∃ ts t q, (parse d source).EndsOpen ts t q := by
  refine (Lexeme.closed_or_leavesOpen d true (Text.decode source)).imp_right ?_
  rintro ⟨front, q, content, left⟩
  have nonempty : content ≠ [] := by
    rintro rfl
    -- the quote would be the line feed at the end
    obtain rfl : q = .char '\n' := whole.eq_lineFeed_of_getLast? (by simp [left.text_eq])
    exact absurd left.quote (by decide)
  exact ⟨_, _, q, endsOpen_of_leavesOpen left nonempty⟩

/-! ## Tokens of a longer text -/

theorem tokens_append_of_closed (whole : WholeLines source)
    (closed : ∀ content, .unclosed content ∉ lexemes d source) (more : Bytes) :
    ∃ later, (parse d (source ++ more)).tokens.toList = (parse d source).tokens.toList ++ later ∧
      ∀ u ∈ later, source.length ≤ u.offset := by
  have hlexemes := Lexeme.scan_append_of_closed closed
    (fun g hg => whole.eq_lineFeed_of_getLast? hg) (Text.decode more)
  rw [← whole.decode_append] at hlexemes
  refine ⟨_, by rw [tokens_parse, tokens_parse, lexemes, hlexemes, Lexeme.tokens_append]; rfl,
    fun u hu => ?_⟩
  have hle := Lexeme.le_offset_of_mem_tokens hu
  rwa [Nat.zero_add, Lexeme.texts_scan, Text.size_decode] at hle

/-- A literal that is left open grows up to the next quote of its kind. -/
theorem EndsOpen.exists_tokens_append (h : (parse d source).EndsOpen ts t q)
    (whole : WholeLines source) (more : Bytes) : ∃ later,
      (parse d (source ++ more)).tokens.toList =
        ts ++ { t with text := t.text ++ (Text.decode more).takeWhile (· != q) } :: later ∧
      (∀ u ∈ later, source.length ≤ u.offset) ∧ (q ∉ Text.decode more → later = []) := by
  obtain ⟨front, left, rfl, ht⟩ := h.exists_leavesOpen
  obtain ⟨-, -, -, -, -, nonempty, -⟩ := exists_cut h.mem
  obtain ⟨l, later, hscan, hkind, htext, hnil⟩ := Lexeme.exists_scan_quote d
    (front.foldl Lexeme.fresh true) h.quote h.inside nonempty (Text.decode more)
  have hlexemes : lexemes d (source ++ more) = (front ++ [.skipped [q]]) ++ l :: later := by
    rw [lexemes, whole.decode_append, left.resume, hscan]
    simp
  have hfront : Lexeme.tokens 0 .origin true (front ++ [.skipped [q]]) =
      Lexeme.tokens 0 .origin true front := by
    rw [Lexeme.tokens_append]
    exact List.append_nil _
  have hfresh : (front ++ [Lexeme.skipped [q]]).foldl Lexeme.fresh true = t.first := by
    rw [List.foldl_append, ht]
    rfl
  have hoffset : 0 + (Lexeme.texts (front ++ [.skipped [q]])).size = t.offset := by
    rw [ht]
    simp [Lexeme.text]
  have hposition : Lexeme.walk .origin (front ++ [.skipped [q]]) = t.position := by
    rw [walk_of_leavesOpen left, ht]
  have htoken : Lexeme.token? t.offset t.position t.first l =
      some { t with text := t.text ++ (Text.decode more).takeWhile (· != q) } := by
    rw [Lexeme.token?, hkind, ← htext, h.kind]
    simp
  have htokens := tokens_parse d (source ++ more)
  rw [hlexemes, Lexeme.tokens_append, Lexeme.tokens_cons, hfront, hfresh, hoffset, hposition,
    htoken] at htokens
  refine ⟨_, htokens, fun u hu => ?_, fun absent => ?_⟩
  · have hle := Lexeme.le_offset_of_mem_tokens hu
    have hstop : t.offset + t.text.size = source.length := h.stop_eq
    rw [htext, Text.size_append] at hle
    omega
  · rw [hnil absent]
    rfl

theorem offset_lt_length (h : t ∈ (parse d source).tokens.toList) : t.offset < source.length := by
  obtain ⟨-, -, -, -, -, nonempty, -⟩ := exists_cut h
  have hsize := Text.size_pos nonempty
  have hstop := stop_le_length h
  rw [Token.stop, Token.length] at hstop
  omega

/-- As a text of whole lines grows, the tokens at the old indices still start in the old text, and
all others start behind it. -/
theorem exists_tokens_append (d : Dialect) (whole : WholeLines source) (more : Bytes) :
    ∃ old later, (parse d (source ++ more)).tokens.toList = old ++ later ∧
      old.length = (parse d source).tokens.size ∧
      (∀ u ∈ old, u.offset < source.length) ∧ ∀ u ∈ later, source.length ≤ u.offset := by
  rcases closed_or_endsOpen whole with closed | ⟨ts, t, q, ends⟩
  · obtain ⟨later, htokens, hlater⟩ := tokens_append_of_closed whole closed more
    exact ⟨_, later, htokens, rfl, fun u hu => offset_lt_length hu, hlater⟩
  · obtain ⟨later, htokens, hlater, -⟩ := ends.exists_tokens_append whole more
    rw [List.append_cons] at htokens
    refine ⟨_, later, htokens, ?_, fun u hu => ?_, hlater⟩
    · simp [← Array.length_toList, ends.tokens]
    · rcases List.mem_append.1 hu with hu | hu
      · exact offset_lt_length (ends.tokens ▸ List.mem_append_left [t] hu)
      · obtain rfl := List.mem_singleton.1 hu
        exact (offset_lt_length ends.mem :)

/-- If no literal is left open, the old tokens stay as they are. -/
theorem take_tokens_append (whole : WholeLines source)
    (closed : ∀ ts t q, ¬ (parse d source).EndsOpen ts t q) (more : Bytes) :
    (parse d (source ++ more)).tokens.toList.take (parse d source).tokens.size =
      (parse d source).tokens.toList := by
  have closed := (closed_or_endsOpen whole).resolve_right fun ⟨ts, t, q, ends⟩ => closed ts t q ends
  obtain ⟨later, htokens, -⟩ := tokens_append_of_closed whole closed more
  rw [htokens]
  exact List.take_left

/-- Otherwise the last one of them may grow. -/
theorem EndsOpen.take_tokens_append (h : (parse d source).EndsOpen ts t q)
    (whole : WholeLines source) (more : Bytes) :
    (parse d (source ++ more)).tokens.toList.take (parse d source).tokens.size =
      ts ++ [{ t with text := t.text ++ (Text.decode more).takeWhile (· != q) }] := by
  obtain ⟨later, htokens, -⟩ := h.exists_tokens_append whole more
  rw [htokens, List.append_cons]
  exact List.take_left' (by simp [← Array.length_toList, h.tokens])

/-! ## Tokens of another line -/

/-- A literal that is left open swallows all that does not close it. -/
theorem EndsOpen.append (h : (parse d source).EndsOpen ts t q) (whole : WholeLines source)
    {more : Bytes} (absent : q ∉ Text.decode more) :
    (parse d (source ++ more)).EndsOpen ts { t with text := t.text ++ Text.decode more } q := by
  obtain ⟨later, htokens, -, hnil⟩ := h.exists_tokens_append whole more
  rw [hnil absent, Lexeme.takeWhile_ne_eq_self absent] at htokens
  refine ⟨htokens, h.kind, h.quote, by simp [h.inside, absent], ?_⟩
  obtain ⟨front, hsource, hoffset⟩ := h.source
  refine ⟨front, ?_, hoffset⟩
  calc Text.decode (source ++ more)
    _ = Text.decode source ++ Text.decode more := whole.decode_append more
    _ = (front ++ q :: t.text) ++ Text.decode more := congrArg (· ++ _) hsource
    _ = front ++ q :: (t.text ++ Text.decode more) := by simp

theorem size_takeWhile_lt {more : Text} (h : q ∈ more) :
    Text.size (more.takeWhile (· != q)) < more.size := by
  have rest : more.dropWhile (· != q) ≠ [] := by
    intro hnil
    simpa using List.dropWhile_eq_nil_iff.1 hnil q h
  have hsize := congrArg Text.size (List.takeWhile_append_dropWhile (p := (· != q)) (l := more))
  have hpos := Text.size_pos rest
  rw [Text.size_append] at hsize
  omega

/-- Another line has a token of its own, unless a literal swallows it. -/
theorem exists_token_of_line (whole : WholeLines source) (line : Bytes)
    (reached : ∀ ts t q, (parse d source).EndsOpen ts t q → q ∈ Text.decode (line ++ [0x0A])) :
    ∃ u ∈ (parse d (source ++ (line ++ [0x0A]))).tokens.toList, source.length ≤ u.offset := by
  have hdecode : Text.decode (source ++ (line ++ [0x0A])) =
      Text.decode (source ++ line) ++ [.char '\n'] := by
    rw [← List.append_assoc, decode_append_lineFeed, Text.decode_nil]
  -- the token that covers the line feed at the end
  obtain ⟨u, hu, -, hstop⟩ := (exists_token_or_quiet (d := d) hdecode).resolve_right (by decide)
  refine ⟨u, hu, ?_⟩
  by_contra! hlt
  have hend : source.length + (line.length + 1) ≤ u.stop := by
    have hwidth : (Glyph.char '\n').width = 1 := rfl
    rwa [Text.size_decode, List.length_append, hwidth, Nat.add_assoc] at hstop
  rcases closed_or_endsOpen whole with closed | ⟨ts, t, q, ends⟩
  · obtain ⟨later, htokens, hlater⟩ := tokens_append_of_closed whole closed (line ++ [0x0A])
    rcases List.mem_append.1 (htokens ▸ hu) with hold | hnew
    · exact absurd (stop_le_length hold) (by omega)
    · exact absurd (hlater u hnew) (by omega)
  · obtain ⟨later, htokens, hlater, -⟩ := ends.exists_tokens_append whole (line ++ [0x0A])
    rcases List.mem_append.1 (htokens ▸ hu) with hold | hnew
    · have hmem : u ∈ (parse d source).tokens.toList := by simp [ends.tokens, hold]
      exact absurd (stop_le_length hmem) (by omega)
    · rcases List.mem_cons.1 hnew with rfl | hnew
      · have hrun := size_takeWhile_lt (reached ts t q ends)
        have hstop : t.offset + t.text.size = source.length := ends.stop_eq
        rw [Text.size_decode, List.length_append, List.length_singleton] at hrun
        change _ ≤ t.offset + Text.size (t.text ++ _) at hend
        rw [Text.size_append] at hend
        omega
      · exact absurd (hlater u hnew) (by omega)

end SymbolIndex

end Asm6502
