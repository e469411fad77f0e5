import Asm6502.Index.Navigation
import Asm6502.Proofs.Gathering
import Asm6502.Proofs.Scan

/-!
# Where tokens lie

Every token is a stretch of the source between two places where characters meet. The tokens follow
each other without overlapping, and what lies between them is not significant. The position kept
with a token is the one that counting line ends and columns in front of it would give.

## Main definitions

- `Lexeme.token?`, `Lexeme.walk`: the token that a lexeme is, and the position behind several.
- `Text.Boundary`: the offsets at which two characters meet and no line end is taken apart.

## Main statements

- `Lexeme.tokens_append`, `Lexeme.exists_of_getElem?_tokens`: tokens through the lexemes in front of
  them.
- `SymbolIndex.exists_cut`: the text in front of a token, at it and behind it.
- `SymbolIndex.exists_token_or_quiet`: a character is covered by a token, or it is not significant.
- `SymbolIndex.spanOf_eq_span`: the text kept with a token is what its range covers.
-/

namespace Asm6502

namespace Text

theorem size_pos {t : Text} (h : t ≠ []) : 0 < t.size := by
  obtain ⟨g, t, rfl⟩ := List.exists_cons_of_ne_nil h
  have := g.width_pos
  rw [size_cons]
  omega

theorem CleanCut.left {s t u : Text} (h : s.CleanCut (t ++ u)) : s.CleanCut t := by
  rintro ⟨hlast, hhead⟩
  exact h ⟨hlast, by simp [List.head?_append, hhead]⟩

/-- Two characters meet at offset `n`, and no line end is taken apart there. -/
def Boundary (t : Text) (n : Nat) : Prop :=
  ∃ front back, t = front ++ back ∧ front.size = n ∧ front.CleanCut back

end Text

namespace Checked

variable {α : Type} {xs : List α} {n : Nat}

theorem slice_take (h : n ≤ xs.length) : slice xs 0 n = .ok (xs.take n) := by
  rw [slice_eq_ok (by omega) (by omega) (by omega)]
  simp

theorem slice_drop (h : n ≤ xs.length) : slice xs n xs.length = .ok (xs.drop n) := by
  rw [slice_eq_ok (by omega) (by omega) (by omega), List.take_of_length_le (by simp),
    Int.toNat_natCast]

end Checked

namespace Lexeme

/-! ## Tokens among lexemes -/

/-- The token that the lexeme is, if it is one. -/
def token? (offset : Nat) (position : Position) (fresh : Bool) (l : Lexeme) : Option Token :=
  l.kind?.map fun k => ⟨k, offset, position, l.text, fresh && k != .lineBreak⟩

/-- The position behind the lexemes, the first of which starts at `p`. -/
def walk (p : Position) (ls : List Lexeme) : Position :=
  ls.foldl (fun p l => p.advance l.text) p

theorem tokens_cons (offset : Nat) (p : Position) (fresh : Bool) (l : Lexeme) (ls : List Lexeme) :
    tokens offset p fresh (l :: ls) = (token? offset p fresh l).toList ++
      tokens (offset + l.text.size) (p.advance l.text) (l.fresh fresh) ls := by
  rw [tokens, token?]
  cases l.kind? <;> rfl

theorem tokens_append (offset : Nat) (p : Position) (fresh : Bool) (ls more : List Lexeme) :
    tokens offset p fresh (ls ++ more) = tokens offset p fresh ls ++
      tokens (offset + (texts ls).size) (walk p ls) (ls.foldl Lexeme.fresh fresh) more := by
  induction ls generalizing offset p fresh with
  | nil => simp [tokens, walk]
  | cons l ls ih => simp [tokens_cons, ih, walk, Nat.add_assoc]

/-- The lexeme that the token at some index stands for. -/
theorem exists_of_getElem?_tokens {offset i : Nat} {p : Position} {fresh : Bool}
    {ls : List Lexeme} {t : Token} (h : (tokens offset p fresh ls)[i]? = some t) :
    ∃ front l back, ls = front ++ l :: back ∧
      (tokens offset p fresh front).length = i ∧
      token? (offset + (texts front).size) (walk p front) (front.foldl Lexeme.fresh fresh) l =
        some t := by
  induction ls generalizing offset p fresh i with
  | nil => simp [tokens] at h
  | cons l ls ih =>
    rw [tokens_cons] at h
    cases hl : token? offset p fresh l with
    | none =>
      rw [hl, Option.toList_none, List.nil_append] at h
      obtain ⟨front, l', back, rfl, hlength, ht⟩ := ih h
      refine ⟨l :: front, l', back, rfl, ?_, by simpa [walk, Nat.add_assoc] using ht⟩
      rw [tokens_cons, hl, Option.toList_none, List.nil_append, hlength]
    | some u =>
      rw [hl, Option.toList_some, List.singleton_append] at h
      cases i with
      | zero => exact ⟨[], l, ls, rfl, rfl, by simpa [walk, hl] using h⟩
      | succ i =>
        obtain ⟨front, l', back, rfl, hlength, ht⟩ := ih h
        refine ⟨l :: front, l', back, rfl, ?_, by simpa [walk, Nat.add_assoc] using ht⟩
        rw [tokens_cons, hl, Option.toList_some, List.singleton_append, List.length_cons, hlength]

theorem mem_tokens_iff {offset : Nat} {p : Position} {fresh : Bool} {ls : List Lexeme} {t : Token} :
    t ∈ tokens offset p fresh ls ↔ ∃ front l back, ls = front ++ l :: back ∧
      token? (offset + (texts front).size) (walk p front) (front.foldl Lexeme.fresh fresh) l =
        some t := by
  constructor
  · intro h
    obtain ⟨i, hi⟩ := List.getElem?_of_mem h
    obtain ⟨front, l, back, hls, -, ht⟩ := exists_of_getElem?_tokens hi
    exact ⟨front, l, back, hls, ht⟩
  · rintro ⟨front, l, back, rfl, ht⟩
    rw [tokens_append, tokens_cons, ht]
    simp

/-- Walking over the lexemes of a text one after the other leads where their text does. -/
theorem walk_eq_advance {d : Dialect} {fresh : Bool} {t : Text} {front back : List Lexeme}
    (h : scan d fresh t = front ++ back) (p : Position) :
    walk p front = p.advance (texts front) := by
  -- from behind, so that the cut to be crossed is one of the scan
  induction front using List.reverseRecOn generalizing back with
  | nil => rfl
  | append_singleton front l ih =>
    rw [List.append_assoc, List.singleton_append] at h
    have clean : (texts front).CleanCut l.text := (cleanCut_of_scan h).left
    have step : walk p (front ++ [l]) = (walk p front).advance l.text := by simp [walk]
    rw [step, ih h, ← Position.advance_append clean]
    simp

/-- A character of the text of some lexemes belongs to one of them. -/
theorem exists_lexeme_of_texts {ls : List Lexeme} {front back : Text} {g : Glyph}
    (h : texts ls = front ++ g :: back) : ∃ before l after u v, ls = before ++ l :: after ∧
      l.text = u ++ g :: v ∧ front = texts before ++ u := by
  induction ls generalizing front with
  | nil => simp at h
  | cons l ls ih =>
    rw [texts_cons] at h
    rcases List.append_eq_append_iff.1 h with ⟨u, rfl, hu⟩ | ⟨v, hv, hback⟩
    · obtain ⟨before, l', after, u', v, rfl, hl', rfl⟩ := ih hu
      exact ⟨l :: before, l', after, u', v, rfl, hl', by simp⟩
    · cases v with
      | nil =>
        -- the first lexeme ends where `front` does
        have hls : texts ls = [] ++ g :: back := hback.symm
        obtain ⟨before, l', after, u', v, rfl, hl', hu'⟩ := ih hls
        refine ⟨l :: before, l', after, u', v, rfl, hl', ?_⟩
        simp [hv, ← hu']
      | cons g' v =>
        obtain ⟨rfl, rfl⟩ := List.cons.inj hback
        exact ⟨[], l, ls, front, v, rfl, hv, by simp⟩

/-! ## Order -/

theorem le_offset_of_mem_tokens {offset : Nat} {p : Position} {fresh : Bool} {ls : List Lexeme}
    {t : Token} (h : t ∈ tokens offset p fresh ls) : offset ≤ t.offset := by
  obtain ⟨front, l, back, -, ht⟩ := mem_tokens_iff.1 h
  obtain ⟨k, -, rfl⟩ := Option.map_eq_some_iff.1 ht
  exact Nat.le_add_right offset _

theorem pairwise_tokens {ls : List Lexeme} (h : ∀ l ∈ ls, l.kind? ≠ none → l.text ≠ [])
    (offset : Nat) (p : Position) (fresh : Bool) :
    (tokens offset p fresh ls).Pairwise fun s t => s.offset < t.offset ∧ s.stop ≤ t.offset := by
  induction ls generalizing offset p fresh with
  | nil => exact .nil
  | cons l ls ih =>
    rw [tokens_cons]
    refine List.pairwise_append.2
      ⟨?_, ih (fun x hx => h x (List.mem_cons_of_mem l hx)) _ _ _, fun s hs t ht => ?_⟩
    · cases token? offset p fresh l <;> simp
    · have behind := le_offset_of_mem_tokens ht
      obtain ⟨k, hk, rfl⟩ := Option.map_eq_some_iff.1 (Option.mem_toList.1 hs)
      have pos : 0 < l.text.size := Text.size_pos (h l List.mem_cons_self (by simp [hk]))
      simp only [Token.stop, Token.length]
      omega

end Lexeme

namespace SymbolIndex

variable {d : Dialect} {source : Bytes} {t : Token}

/-- The text of the source in front of a token, at it and behind it. -/
theorem exists_cut (h : t ∈ (parse d source).tokens.toList) : ∃ front back : Text,
    Text.decode source = front ++ (t.text ++ back) ∧ t.offset = front.size ∧
      t.position = Position.origin.advance front ∧ t.text ≠ [] ∧
      front.CleanCut (t.text ++ back) ∧ (front ++ t.text).CleanCut back := by
  rw [tokens_parse] at h
  obtain ⟨front, l, back, hls, ht⟩ := Lexeme.mem_tokens_iff.1 h
  obtain ⟨k, hk, rfl⟩ := Option.map_eq_some_iff.1 ht
  have hmem : l ∈ lexemes d source := by simp [hls]
  have htext : Text.decode source = Lexeme.texts (lexemes d source) :=
    (Lexeme.texts_scan d true _).symm
  have hls' : lexemes d source = (front ++ [l]) ++ back := by simp [hls]
  refine ⟨Lexeme.texts front, Lexeme.texts back, ?_, by simp, Lexeme.walk_eq_advance hls _,
    Lexeme.ne_nil_of_mem_scan hmem (by simp [hk]), Lexeme.cleanCut_of_scan hls, ?_⟩
  · simp [htext, hls]
  · simpa using Lexeme.cleanCut_of_scan hls'

theorem stop_le_length (h : t ∈ (parse d source).tokens.toList) : t.stop ≤ source.length := by
  obtain ⟨front, back, hsource, hoffset, -⟩ := exists_cut h
  have hsize : source.length = front.size + (t.text.size + back.size) := by
    rw [← Text.size_decode source, hsource, Text.size_append, Text.size_append]
  rw [Token.stop, Token.length]
  omega

/-- A character is covered by a token, or it is not significant. -/
theorem exists_token_or_quiet {front back : Text} {g : Glyph}
    (h : Text.decode source = front ++ g :: back) :
    (∃ t ∈ (parse d source).tokens.toList,
      t.offset ≤ front.size ∧ front.size + g.width ≤ t.stop) ∨ g.isSignificant = false := by
  have htext : Lexeme.texts (lexemes d source) = front ++ g :: back := by
    rw [← h]
    exact Lexeme.texts_scan d true _
  obtain ⟨before, l, after, u, v, hls, hl, rfl⟩ := Lexeme.exists_lexeme_of_texts htext
  have hmem : l ∈ lexemes d source := by simp [hls]
  cases hk : l.kind? with
  | none => exact .inr (Lexeme.quiet_of_mem_scan hmem hk g (by simp [hl]))
  | some k =>
    left
    have htoken (p : Position) (fresh : Bool) :
        Lexeme.token? (0 + (Lexeme.texts before).size) p fresh l =
          some ⟨k, 0 + (Lexeme.texts before).size, p, l.text, fresh && k != .lineBreak⟩ :=
      Option.map_eq_some_iff.2 ⟨k, hk, rfl⟩
    rw [tokens_parse]
    refine ⟨_, Lexeme.mem_tokens_iff.2 ⟨before, l, after, hls, htoken _ _⟩, ?_⟩
    simp only [Token.stop, Token.length, hl, Text.size_append, Text.size_cons]
    omega

/-- The tokens are not empty, lie within the source and follow each other without overlapping, and
what is covered by none of them is not significant. -/
theorem tokens_ordered_and_nothing_lost (d : Dialect) (source : Bytes) :
    let ts := (parse d source).tokens.toList
    (∀ t ∈ ts, 1 ≤ t.length ∧ t.stop ≤ source.length) ∧
    ts.Pairwise (fun s t => s.offset < t.offset ∧ s.stop ≤ t.offset) ∧
    ∀ (front : Text) (g : Glyph) (back : Text), Text.decode source = front ++ g :: back →
      (∃ t ∈ ts, t.offset ≤ front.size ∧ front.size + g.width ≤ t.stop) ∨
        g.isSignificant = false := by
  intro ts
  refine ⟨fun t ht => ⟨?_, stop_le_length ht⟩, ?_, fun front g back h => exists_token_or_quiet h⟩
  · obtain ⟨front, back, -, -, -, nonempty, -⟩ := exists_cut ht
    exact Text.size_pos nonempty
  · simp only [ts, tokens_parse]
    exact Lexeme.pairwise_tokens (fun l hl hk => Lexeme.ne_nil_of_mem_scan hl hk) 0 .origin true

/-- A string that spans two lines and holds a stray byte, and an equals sign behind it. -/
theorem lexemes_two_lines : lexemes .acme [0x22, 0x0D, 0x0A, 0xFF, 0x22, 0x3D] =
    [.skipped [.char '"'], .token .string [.char '\r', .char '\n', .stray 0xFF],
      .skipped [.char '"'], .token .operator [.char '=']] := by
  cbv

theorem tokens_ordered_two_lines :
    let source : Bytes := [0x22, 0x0D, 0x0A, 0xFF, 0x22, 0x3D]
    let content : Token := ⟨.string, 1, ⟨0, 1⟩, [.char '\r', .char '\n', .stray 0xFF], true⟩
    let sign : Token := ⟨.operator, 5, ⟨1, 2⟩, [.char '='], false⟩
    (parse .acme source).tokens.toList = [content, sign] ∧
      (1 ≤ content.length ∧ content.stop ≤ source.length) ∧
      (content.offset < sign.offset ∧ content.stop ≤ sign.offset) ∧
      ∃ t ∈ (parse .acme source).tokens.toList, t.offset ≤ 5 ∧ 6 ≤ t.stop := by
  intro source content sign
  have htokens : (parse .acme source).tokens.toList = [content, sign] := by
    rw [tokens_parse, lexemes_two_lines]
    rfl
  have hsource : Text.decode source =
      [.char '"', .char '\r', .char '\n', .stray 0xFF, .char '"'] ++ .char '=' :: [] := by
    cbv
  obtain ⟨within, ordered, covered⟩ := tokens_ordered_and_nothing_lost .acme source
  refine ⟨htokens, within content (by simp [htokens]), ?_,
    (covered _ _ _ hsource).resolve_right (by decide)⟩
  rw [htokens] at ordered
  exact List.rel_of_pairwise_cons ordered List.mem_cons_self

/-- The text kept with a token is what its range covers. -/
theorem slice_eq_bytes (h : t ∈ (parse d source).tokens.toList) :
    Checked.slice source t.offset t.stop = .ok t.text.bytes := by
  have hstop : t.stop ≤ source.length := stop_le_length h
  have hcount : ((t.stop : Int) - t.offset).toNat = t.length := by
    rw [Token.stop]
    omega
  obtain ⟨front, back, hsource, hoffset, -⟩ := exists_cut h
  have hpiece : (source.drop t.offset).take t.length = t.text.bytes := by
    rw [hoffset, Text.drop_size_of_decode hsource, Text.bytes_append, Token.length,
      ← Text.length_bytes, List.take_left]
  have hle : t.offset ≤ t.stop := Nat.le_add_right _ _
  rw [Checked.slice_eq_ok (by omega) (by omega) (by omega), Int.toNat_natCast, hcount, hpiece]

theorem proper_text (h : t ∈ (parse d source).tokens.toList) : ∀ g ∈ t.text, g.Proper := by
  obtain ⟨front, back, hsource, -⟩ := exists_cut h
  intro g hg
  have hmem : g ∈ Text.decode source := by simp [hsource, hg]
  exact Text.proper_of_mem_decode hmem

theorem decode_bytes_text (h : t ∈ (parse d source).tokens.toList) :
    Text.decode t.text.bytes = t.text := by
  obtain ⟨front, back, hsource, -⟩ := exists_cut h
  exact Text.decode_bytes_of_append (hsource.trans (List.append_assoc ..).symm)

theorem spanOf_eq_span (h : t ∈ (parse d source).tokens.toList) :
    (parse d source).spanOf t = .ok t.span := by
  calc (parse d source).spanOf t
    _ = (do
        let piece ← Checked.slice source t.offset t.stop
        pure ⟨t.position, t.position.advance (Text.decode piece)⟩) := rfl
    _ = .ok ⟨t.position, t.position.advance (Text.decode t.text.bytes)⟩ := by
      rw [slice_eq_bytes h]
      rfl
    _ = .ok t.span := by rw [decode_bytes_text h, Token.span]

theorem mem_tokens_of_getElem? {ix : SymbolIndex} {i : Nat} (h : ix.tokens[i]? = some t) :
    t ∈ ix.tokens.toList :=
  Array.mem_toList_iff.2 (Array.mem_of_getElem? h)

/-- The line of a token reaches from the line end in front of its first byte to the next one. -/
theorem lineText_eq {i : Nat} (h : (parse d source).tokens[i]? = some t) :
    (parse d source).lineText i =
      .ok (Text.decode (Position.lastLine (source.take t.offset) ++
        (source.drop t.offset).takeWhile (!isBreakByte ·))) := by
  have hmem := mem_tokens_of_getElem? h
  have hoffset : t.offset ≤ source.length :=
    Nat.le_trans (Nat.le_add_right _ _) (stop_le_length hmem)
  have htoken : (parse d source).token? i = some t := by simp [token?, h]
  have hsource : (parse d source).source = source := rfl
  simp only [lineText, htoken, hsource, Checked.slice_take hoffset, Checked.slice_drop hoffset]
  rfl

/-- Positions agree with counting, for the start of a token as kept with it and for its end as found
by walking over its text. Both are boundaries, and columns are counted from where the token's line
starts. -/
theorem position_eq_behind (d : Dialect) (source : Bytes) (i : Nat) (t : Token)
    (h : (parse d source).tokens[i]? = some t) :
    t.position = Position.behind (source.take t.offset) ∧
    (parse d source).spanOf t =
      .ok ⟨Position.behind (source.take t.offset), Position.behind (source.take t.stop)⟩ ∧
    (Text.decode source).Boundary t.offset ∧ (Text.decode source).Boundary t.stop ∧
    (parse d source).lineText i =
      .ok (Text.decode (Position.lastLine (source.take t.offset) ++
        (source.drop t.offset).takeWhile (!isBreakByte ·))) := by
  have hmem : t ∈ (parse d source).tokens.toList := Array.mem_toList_iff.2 (Array.mem_of_getElem? h)
  obtain ⟨front, back, hsource, hoffset, hposition, -, cutStart, cutStop⟩ := exists_cut hmem
  have hsource' : Text.decode source = (front ++ t.text) ++ back := by simp [hsource]
  have hstop : t.stop = (front ++ t.text).size := by
    simp [Token.stop, Token.length, hoffset]
  have start : t.position = Position.behind (source.take t.offset) := by
    rw [hposition, hoffset, Position.advance_origin_eq_behind hsource]
  have stop : t.position.advance t.text = Position.behind (source.take t.stop) := by
    rw [hposition, ← Position.advance_append cutStart.left,
      Position.advance_origin_eq_behind hsource', hstop]
  refine ⟨start, ?_, ⟨front, _, hsource, hoffset.symm, cutStart⟩,
    ⟨front ++ t.text, back, hsource', hstop.symm, cutStop⟩, lineText_eq h⟩
  rw [spanOf_eq_span hmem, Token.span, stop, start]

theorem position_eq_behind_two_lines :
    let source : Bytes := [0x22, 0x0D, 0x0A, 0xFF, 0x22, 0x3D]
    let content : Token := ⟨.string, 1, ⟨0, 1⟩, [.char '\r', .char '\n', .stray 0xFF], true⟩
    (parse .acme source).tokens[0]? = some content ∧
      (parse .acme source).spanOf content = .ok ⟨⟨0, 1⟩, ⟨1, 1⟩⟩ ∧
      (Text.decode source).Boundary 1 ∧ (Text.decode source).Boundary 4 ∧
      (parse .acme source).lineText 0 = .ok [.char '"'] := by
  intro source content
  have htoken : (parse .acme source).tokens[0]? = some content := by
    rw [← Array.getElem?_toList, tokens_parse, lexemes_two_lines]
    rfl
  obtain ⟨-, span, start, stop, line⟩ := position_eq_behind .acme source 0 content htoken
  have hspan : (⟨Position.behind (source.take 1), Position.behind (source.take 4)⟩ : Span) =
      ⟨⟨0, 1⟩, ⟨1, 1⟩⟩ := by
    cbv
  have hline : Text.decode (Position.lastLine (source.take 1) ++
      (source.drop 1).takeWhile (!isBreakByte ·)) = [.char '"'] := by
    cbv
  exact ⟨htoken, span.trans (congrArg Except.ok hspan), start, stop,
    line.trans (congrArg Except.ok hline)⟩

end SymbolIndex

end Asm6502
