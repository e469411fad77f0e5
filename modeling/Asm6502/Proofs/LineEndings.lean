import Asm6502.Proofs.ExactTables
import Asm6502.Proofs.TokenPlaces

/-!
# The style of line ends

A text whose lines end with line feeds can be rewritten so that they end with carriage returns, or
with pairs of both. Reading the rewritten text gives the same tokens at the same positions, and
hence the same statements, tables and remarks.

## Main definitions

- `LineEnding`, `LineEnding.rewrite`: the other styles, and a text rewritten in one of them.
- `LineEnding.restyle`: the same for decoded texts.
- `Token.gist`: what the classification of a run looks at.

## Main statements

- `LineEnding.decode_rewrite`: decoding commutes with rewriting.
- `LineEnding.advance_restyle`: positions do not depend on the style.
- `Lexeme.scan_restyle`: scanning commutes with rewriting.
- `Statement.ofTokens_map_gist`: the statements of some tokens depend on their gist only.
- `SymbolIndex.gather_rewrite`: both readings gather the same but for their tokens.
-/

namespace Asm6502

/-- How lines can end that do not end with a line feed alone. -/
inductive LineEnding where
  | carriageReturn
  | pair
  deriving DecidableEq, Repr

namespace LineEnding

def bytes : LineEnding → Bytes
  | carriageReturn => [0x0D]
  | pair => [0x0D, 0x0A]

def text : LineEnding → Text
  | carriageReturn => [.char '\r']
  | pair => [.char '\r', .char '\n']

/-- The source with every line feed replaced. -/
def rewrite (e : LineEnding) (source : Bytes) : Bytes :=
  source.flatMap fun b => if b = 0x0A then e.bytes else [b]

/-- The text with every line feed replaced. -/
def restyle (e : LineEnding) (t : Text) : Text :=
  t.flatMap fun g => if g = .char '\n' then e.text else [g]

variable (e : LineEnding)

@[simp] theorem restyle_nil : e.restyle [] = [] := rfl

@[simp] theorem restyle_append (s t : Text) : e.restyle (s ++ t) = e.restyle s ++ e.restyle t := by
  simp [restyle]

@[simp] theorem restyle_cons_lineFeed (t : Text) :
    e.restyle (.char '\n' :: t) = e.text ++ e.restyle t := by
  simp [restyle]

theorem restyle_cons {g : Glyph} (h : g ≠ .char '\n') (t : Text) :
    e.restyle (g :: t) = g :: e.restyle t := by
  simp [restyle, h]

theorem restyle_of_notMem {t : Text} (h : .char '\n' ∉ t) : e.restyle t = t := by
  induction t with
  | nil => rfl
  | cons g t ih =>
    rw [List.mem_cons, not_or] at h
    rw [restyle_cons e (Ne.symm h.1), ih h.2]

@[simp] theorem restyle_eq_nil_iff {t : Text} : e.restyle t = [] ↔ t = [] := by
  cases t with
  | nil => simp
  | cons g t =>
    by_cases hg : g = .char '\n'
    · cases e <;> simp [hg, text]
    · simp [restyle_cons e hg]

theorem restyle_eq_singleton_iff {t : Text} {g : Glyph} (hg : g.isBreak = false) :
    e.restyle t = [g] ↔ t = [g] := by
  obtain ⟨hreturn, hlineFeed⟩ := Glyph.ne_of_not_isBreak hg
  cases t with
  | nil => simp
  | cons g' t =>
    by_cases hg' : g' = .char '\n'
    · cases e <;> simp [hg', text, hlineFeed.symm, hreturn.symm]
    · simp [restyle_cons e hg']

/-! ## Decoding -/

@[simp] theorem rewrite_append (s t : Bytes) : e.rewrite (s ++ t) = e.rewrite s ++ e.rewrite t := by
  simp [rewrite]

@[simp] theorem rewrite_cons_lineFeed (t : Bytes) :
    e.rewrite (0x0A :: t) = e.bytes ++ e.rewrite t := by
  simp [rewrite]

theorem rewrite_of_notMem {source : Bytes} (h : 0x0A ∉ source) : e.rewrite source = source := by
  induction source with
  | nil => rfl
  | cons b source ih =>
    rw [List.mem_cons, not_or] at h
    have rest : e.rewrite source = source := ih h.2
    rw [rewrite] at rest ⊢
    rw [List.flatMap_cons, if_neg (Ne.symm h.1), rest, List.singleton_append]

/-- A character is found in a decoded text only if its bytes are found in the source. -/
theorem char_notMem_decode {c : Char} {b : UInt8} (hb : b ∈ (Glyph.char c).bytes) {source : Bytes}
    (h : b ∉ source) : .char c ∉ Text.decode source := by
  intro hc
  apply h
  rw [← Text.bytes_decode source]
  exact List.mem_flatMap.2 ⟨_, hc, hb⟩

theorem decode_append_bytes_append (front back : Bytes) :
    Text.decode (front ++ (e.bytes ++ back)) =
      Text.decode front ++ (e.text ++ Text.decode back) := by
  cases e with
  | carriageReturn =>
    exact (Text.decode_append_cons (by decide) front back).trans
      (congrArg _ (Text.decode_cons_of_lt (by decide) back))
  | pair =>
    refine (Text.decode_append_cons (by decide) front (0x0A :: back)).trans (congrArg _ ?_)
    rw [Text.decode_cons_of_lt (by decide), Text.decode_cons_of_lt (by decide)]
    rfl

/-- Decoding commutes with rewriting. -/
theorem decode_rewrite (source : Bytes) :
    Text.decode (e.rewrite source) = e.restyle (Text.decode source) := by
  induction hn : source.length using Nat.strong_induction_on generalizing source with
  | _ n ih =>
    by_cases hmem : 0x0A ∈ source
    · -- in front of the first line feed nothing is replaced
      obtain ⟨front, back, rfl, hfront⟩ := List.eq_append_cons_of_mem hmem
      have hdecode : .char '\n' ∉ Text.decode front := char_notMem_decode (by decide) hfront
      have hlineFeed : Text.decode (0x0A :: back) = .char '\n' :: Text.decode back :=
        Text.decode_cons_of_lt (by decide) back
      have rest := ih back.length (by simp at hn; omega) back rfl
      rw [rewrite_append, rewrite_cons_lineFeed, e.rewrite_of_notMem hfront,
        decode_append_bytes_append, rest, Text.decode_append_cons (by decide), hlineFeed,
        restyle_append, e.restyle_of_notMem hdecode, restyle_cons_lineFeed]
    · rw [e.rewrite_of_notMem hmem, e.restyle_of_notMem (char_notMem_decode (by decide) hmem)]

/-! ## Positions -/

/-- A carriage return that ends a line is not taken for half of a pair. -/
theorem head?_restyle_ne_lineFeed (t : Text) :
    (carriageReturn.restyle t).head? ≠ some (.char '\n') := by
  cases t with
  | nil => simp
  | cons g t =>
    by_cases hg : g = .char '\n'
    · simp [hg, text]
    · simpa [restyle_cons _ hg] using hg

/-- Where a text ends does not depend on the style of its line ends. -/
theorem advance_restyle {t : Text} (h : .char '\r' ∉ t) (p : Position) :
    p.advance (e.restyle t) = p.advance t := by
  induction t generalizing p with
  | nil => rfl
  | cons g t ih =>
    rw [List.mem_cons, not_or] at h
    have single : ¬ (g = .char '\r' ∧ t.head? = some (.char '\n')) := fun hg => h.1 hg.1.symm
    by_cases hg : g = .char '\n'
    · subst hg
      rw [restyle_cons_lineFeed, Position.advance_cons single, ← ih h.2]
      cases e with
      | carriageReturn =>
        exact Position.advance_cons (fun hpair => head?_restyle_ne_lineFeed t hpair.2) p
      | pair => rfl
    · have single' : ¬ (g = .char '\r' ∧ (e.restyle t).head? = some (.char '\n')) :=
        fun hg => h.1 hg.1.symm
      rw [restyle_cons e hg, Position.advance_cons single', Position.advance_cons single, ih h.2]

/-! ## Runs of characters

A test that does not tell the two characters of line ends apart gives the same answers in every
style. -/

variable {p : Glyph → Bool}

theorem any_head?_restyle (hp : p (.char '\r') = p (.char '\n')) (t : Text) :
    (e.restyle t).head?.any p = t.head?.any p := by
  cases t with
  | nil => rfl
  | cons g t =>
    by_cases hg : g = .char '\n'
    · cases e <;> simp [hg, text, hp]
    · simp [restyle_cons e hg]

theorem takeWhile_restyle (hp : p (.char '\r') = p (.char '\n')) (t : Text) :
    (e.restyle t).takeWhile p = e.restyle (t.takeWhile p) := by
  induction t with
  | nil => rfl
  | cons g t ih =>
    by_cases hg : g = .char '\n'
    · subst hg
      cases hlineFeed : p (.char '\n') <;> cases e <;> simp [text, hp, hlineFeed, ih]
    · cases hpg : p g <;> simp [restyle_cons e hg, hpg, ih]

/-- A run without line ends is the same in every style. -/
theorem restyle_takeWhile (hp : p (.char '\n') = false) (t : Text) :
    e.restyle (t.takeWhile p) = t.takeWhile p := by
  refine e.restyle_of_notMem fun hmem => ?_
  simpa [hp] using List.mem_takeWhile_imp hmem

theorem take_one_restyle (hp : p (.char '\n') = false) {t : Text}
    (h : t.head?.any p = true) : (e.restyle t).take 1 = e.restyle (t.take 1) := by
  cases t with
  | nil => simp
  | cons g t =>
    have hg : g ≠ .char '\n' := by
      rintro rfl
      simp [hp] at h
    simp [restyle_cons e hg]

end LineEnding

namespace Lexeme

variable (e : LineEnding)

/-- The lexeme with its line ends replaced. -/
def restyled : Lexeme → Lexeme
  | token k t => token k (e.restyle t)
  | skipped t => skipped (e.restyle t)
  | unclosed t => unclosed (e.restyle t)

@[simp] theorem restyled_token (k : TokenKind) (t : Text) :
    (token k t).restyled e = token k (e.restyle t) := rfl

@[simp] theorem restyled_skipped (t : Text) : (skipped t).restyled e = skipped (e.restyle t) := rfl

@[simp] theorem restyled_unclosed (t : Text) :
    (unclosed t).restyled e = unclosed (e.restyle t) := rfl

@[simp] theorem text_restyled (l : Lexeme) : (l.restyled e).text = e.restyle l.text := by
  cases l <;> rfl

@[simp] theorem texts_map_restyled (ls : List Lexeme) :
    texts (ls.map (restyled e)) = e.restyle (texts ls) := by
  induction ls with
  | nil => rfl
  | cons l ls ih => simp [ih]

@[simp] theorem kind?_restyled (l : Lexeme) : (l.restyled e).kind? = l.kind? := by
  cases l with
  | token k t => rfl
  | skipped t => rfl
  | unclosed t =>
    by_cases ht : t = []
    · simp [ht, restyled, kind?]
    · obtain ⟨g, t, rfl⟩ := List.exists_cons_of_ne_nil ht
      obtain ⟨g', t', h⟩ := List.exists_cons_of_ne_nil (mt e.restyle_eq_nil_iff.1 ht)
      simp [restyled, h, kind?]

@[simp] theorem fresh_restyled (before : Bool) (l : Lexeme) :
    (l.restyled e).fresh before = l.fresh before := by
  simp [fresh]

/-! ## Scanning -/

variable {d : Dialect} {c : Glyph} {rest : Text}

theorem name_restyle (fresh : Bool) (hc : c ≠ .char '\n') :
    name d fresh c (e.restyle rest) = (name d fresh c rest).map (restyled e) := by
  have hreturn : d.isSymbol (.char '\r') = false := by cases d <;> decide
  have hlineFeed : d.isSymbol (.char '\n') = false := by cases d <;> decide
  have same : d.isSymbol (.char '\r') = d.isSymbol (.char '\n') := hreturn.trans hlineFeed.symm
  have run : (e.restyle rest).takeWhile d.isSymbol = rest.takeWhile d.isSymbol := by
    rw [e.takeWhile_restyle same, e.restyle_takeWhile hlineFeed]
  have run' := e.restyle_takeWhile hlineFeed rest
  have hc' : e.restyle [c] = [c] := by simp [e.restyle_cons hc]
  simp only [name, run, e.any_head?_restyle same, apply_ite (List.map (restyled e)), List.map_cons,
    List.map_nil, apply_ite (restyled e), restyled_token, restyled_skipped, run', hc',
    e.restyle_cons hc]

theorem stringLiteral_restyle {q : Glyph} (hq : q.isBreak = false) :
    stringLiteral q (e.restyle rest) = (stringLiteral q rest).map (restyled e) := by
  obtain ⟨hreturn, hlineFeed⟩ := Glyph.ne_of_not_isBreak hq
  have content : (e.restyle rest).takeWhile (· != q) = e.restyle (rest.takeWhile (· != q)) :=
    e.takeWhile_restyle ((bne_iff_ne.2 hreturn.symm).trans (bne_iff_ne.2 hlineFeed.symm).symm) rest
  have hquote : e.restyle [q] = [q] := by simp [e.restyle_cons hlineFeed]
  -- a quote closes the literal exactly if something is left behind the content
  have closed : (e.restyle (rest.takeWhile (· != q))).length < (e.restyle rest).length ↔
      (rest.takeWhile (· != q)).length < rest.length := by
    have split := List.takeWhile_append_dropWhile (p := (· != q)) (l := rest)
    have split' := congrArg e.restyle split
    have hrest : (e.restyle (rest.dropWhile (· != q))).length = 0 ↔
        (rest.dropWhile (· != q)).length = 0 := by
      rw [List.length_eq_zero_iff, List.length_eq_zero_iff, e.restyle_eq_nil_iff]
    rw [e.restyle_append] at split'
    rw [← split', ← congrArg List.length split, List.length_append, List.length_append]
    omega
  have empty : (e.restyle (rest.takeWhile (· != q))).isEmpty =
      (rest.takeWhile (· != q)).isEmpty := by
    rw [Bool.eq_iff_iff, List.isEmpty_iff, List.isEmpty_iff, e.restyle_eq_nil_iff]
  simp only [stringLiteral, content, closed, empty, apply_ite (List.map (restyled e)),
    List.map_cons, List.map_nil, restyled_token, restyled_skipped, restyled_unclosed, hquote]

/-- What the first character opens is the same in every style. -/
theorem next_restyle (fresh : Bool) (hc : c.isBreak = false) :
    next d fresh c (e.restyle rest) = (next d fresh c rest).map (restyled e) := by
  have hc' : c ≠ .char '\n' := (Glyph.ne_of_not_isBreak hc).2
  have any {p : Glyph → Bool} (hp : p (.char '\r') = p (.char '\n')) :=
    e.any_head?_restyle hp rest
  have run {p : Glyph → Bool} (hp : p (.char '\r') = p (.char '\n')) :
      c :: (e.restyle rest).takeWhile p = e.restyle (c :: rest.takeWhile p) := by
    rw [e.takeWhile_restyle hp, e.restyle_cons hc']
  have two {p : Glyph → Bool} (hp : p (.char '\n') = false) (h : rest.head?.any p = true) :
      c :: (e.restyle rest).take 1 = e.restyle (c :: rest.take 1) := by
    rw [e.take_one_restyle hp h, e.restyle_cons hc']
  have symbol : d.isSymbol (.char '\r') = d.isSymbol (.char '\n') := by cases d <;> decide
  have one : e.restyle [c] = [c] := by simp [e.restyle_cons hc']
  simp only [next, restOfLine, apply_ite (List.map (restyled e)), List.map_cons, List.map_nil,
    restyled_token, restyled_skipped, one]
  refine ite_congr rfl (fun isBreak => by simp [hc] at isBreak) fun _ => ?_
  refine ite_congr (by rw [any, any] <;> rfl) (fun _ => by rw [run]; rfl) fun _ => ?_
  refine ite_congr (by rw [any]; rfl) (fun half => ?_) fun _ => ?_
  · rw [two rfl (Bool.and_eq_true_iff.1 half).2]
  refine ite_congr rfl (fun _ => by rw [run]; rfl) fun _ => ?_
  refine ite_congr (by rw [any]; rfl) (fun label => ?_) fun _ => ?_
  · rw [two rfl (Bool.and_eq_true_iff.1 (Bool.and_eq_true_iff.1 label).1).2]
  have opensName : d.opensName c (e.restyle rest).head? = d.opensName c rest.head? := by
    simp only [Dialect.opensName, any symbol]
  refine ite_congr (by rw [opensName]) (fun _ => name_restyle e fresh hc') fun _ => ?_
  refine ite_congr rfl (fun _ => by rw [run symbol]) fun _ => ?_
  refine ite_congr rfl (fun _ => stringLiteral_restyle e hc) fun _ => ?_
  refine ite_congr rfl (fun _ => by rw [run]; rfl) fun _ => ?_
  refine ite_congr (by rw [any]; rfl) (fun _ => by rw [run]; rfl) fun _ => ?_
  exact ite_congr (by rw [any]; rfl) (fun _ => by rw [run]; rfl) fun _ => rfl

/-- A line end opens a line break in every style. -/
theorem exists_next_restyle_lineFeed (d : Dialect) (fresh : Bool) (rest : Text) : ∃ c' rest',
    e.restyle (.char '\n' :: rest) = c' :: rest' ∧
      next d fresh c' rest' = (next d fresh (.char '\n') rest).map (restyled e) := by
  cases e with
  | carriageReturn =>
    refine ⟨.char '\r', LineEnding.carriageReturn.restyle rest, rfl, ?_⟩
    have alone : (LineEnding.carriageReturn.restyle rest).head?.any (·.is '\n') = false := by
      rw [Bool.eq_false_iff, Ne, Option.any_eq_true]
      rintro ⟨g, hg, hlineFeed⟩
      rw [Glyph.is_iff.1 hlineFeed] at hg
      exact LineEnding.head?_restyle_ne_lineFeed rest hg
    simp only [next, alone, Bool.and_false]
    rfl
  | pair => exact ⟨.char '\r', .char '\n' :: LineEnding.pair.restyle rest, rfl, rfl⟩

theorem exists_next_restyle (d : Dialect) (fresh : Bool) {c : Glyph} (hc : c ≠ .char '\r')
    (rest : Text) : ∃ c' rest', e.restyle (c :: rest) = c' :: rest' ∧
      next d fresh c' rest' = (next d fresh c rest).map (restyled e) := by
  by_cases hlineFeed : c = .char '\n'
  · subst hlineFeed
    exact exists_next_restyle_lineFeed e d fresh rest
  · have hbreak : c.isBreak = false := by
      rw [Bool.eq_false_iff, Ne, Glyph.isBreak_iff]
      exact not_or.2 ⟨hc, hlineFeed⟩
    exact ⟨c, e.restyle rest, e.restyle_cons hlineFeed rest, next_restyle e fresh hbreak⟩

@[simp] theorem foldl_fresh_map_restyled (fresh : Bool) (ls : List Lexeme) :
    (ls.map (restyled e)).foldl Lexeme.fresh fresh = ls.foldl Lexeme.fresh fresh := by
  simp [List.foldl_map]

/-- Scanning commutes with replacing line ends. -/
theorem scan_restyle (fresh : Bool) {t : Text} (h : .char '\r' ∉ t) :
    scan d fresh (e.restyle t) = (scan d fresh t).map (restyled e) := by
  fun_induction scan d fresh t with
  | case1 fresh => rw [LineEnding.restyle_nil, scan, List.map_nil]
  | case2 fresh c rest here ih =>
    obtain ⟨back, opens⟩ := exists_opens d fresh c rest
    have split : c :: rest = texts here ++ back := opens.texts_append
    have hback : rest.drop ((texts here).length - 1) = back := drop_texts_next split
    rw [hback] at ih ⊢
    have hc : c ≠ .char '\r' := fun hc => h (hc ▸ List.mem_cons_self)
    obtain ⟨c', rest', hcons, hnext⟩ := exists_next_restyle e d fresh hc rest
    have hback' : rest'.drop ((texts (next d fresh c' rest')).length - 1) = e.restyle back := by
      refine drop_texts_next ?_
      rw [hnext, ← hcons, split, LineEnding.restyle_append, texts_map_restyled]
    have noReturn : .char '\r' ∉ back := fun hmem => h (split ▸ List.mem_append_right _ hmem)
    rw [hcons, scan, hback', hnext, foldl_fresh_map_restyled, ih noReturn, List.map_append]

end Lexeme

/-! ## Tokens -/

/-- The token `t'` is the token `t` in another style, at the same position. Its text is different
only if it holds line ends, which no token does but line breaks and strings. -/
structure Token.Restyled (e : LineEnding) (t t' : Token) : Prop where
  kind : t'.kind = t.kind
  position : t'.position = t.position
  first : t'.first = t.first
  text : t'.text = e.restyle t.text
  text_eq : t.kind ≠ .lineBreak → t.kind ≠ .string → t'.text = t.text
  span : t'.span = t.span

namespace Lexeme

variable {e : LineEnding} {d : Dialect}

theorem token?_restyled {l : Lexeme} (noReturn : .char '\r' ∉ l.text)
    (plain : l.kind? ≠ some .lineBreak → l.kind? ≠ some .string → ∀ g ∈ l.text, g.isBreak = false)
    (offset offset' : Nat) (p : Position) (fresh : Bool) :
    List.Forall₂ (Token.Restyled e) (token? offset p fresh l).toList
      (token? offset' p fresh (l.restyled e)).toList := by
  rw [token?, token?, kind?_restyled]
  cases hk : l.kind? with
  | none => exact .nil
  | some k =>
    refine .cons ⟨rfl, rfl, rfl, text_restyled e l, fun hbreak hstring => ?_, ?_⟩ .nil
    · rw [text_restyled]
      refine e.restyle_of_notMem fun hmem => ?_
      have := plain (by simpa [hk] using hbreak) (by simpa [hk] using hstring) _ hmem
      simp [Glyph.isBreak] at this
    · simp only [Token.span, text_restyled, e.advance_restyle noReturn]

theorem tokens_map_restyled {ls : List Lexeme} (noReturn : ∀ l ∈ ls, .char '\r' ∉ l.text)
    (plain : ∀ l ∈ ls, l.kind? ≠ some .lineBreak → l.kind? ≠ some .string →
      ∀ g ∈ l.text, g.isBreak = false) (offset offset' : Nat) (p : Position) (fresh : Bool) :
    List.Forall₂ (Token.Restyled e) (tokens offset p fresh ls)
      (tokens offset' p fresh (ls.map (restyled e))) := by
  induction ls generalizing offset offset' p fresh with
  | nil => exact .nil
  | cons l ls ih =>
    have here := List.mem_cons_self (a := l) (l := ls)
    rw [List.map_cons, tokens_cons, tokens_cons, text_restyled, fresh_restyled,
      e.advance_restyle (noReturn l here)]
    refine List.rel_append (token?_restyled (noReturn l here) (plain l here) _ _ _ _) ?_
    exact ih (fun x hx => noReturn x (List.mem_cons_of_mem l hx))
      (fun x hx => plain x (List.mem_cons_of_mem l hx)) _ _ _ _

theorem unclosedSpans_map_restyled {ls : List Lexeme} (noReturn : ∀ l ∈ ls, .char '\r' ∉ l.text)
    (p : Position) : unclosedSpans p (ls.map (restyled e)) = unclosedSpans p ls := by
  induction ls generalizing p with
  | nil => rfl
  | cons l ls ih =>
    have ih := ih (fun x hx => noReturn x (List.mem_cons_of_mem l hx)) (p.advance l.text)
    have hadvance := e.advance_restyle (noReturn l List.mem_cons_self) p
    cases l <;> simp_all [unclosedSpans, text]

end Lexeme

/-! ## Statements -/

namespace Token

/-- What the classification of a run looks at: the kind of a token, and its text if it is a name, a
directive or an equals sign. -/
def gist (t : Token) : Token where
  kind := t.kind
  offset := 0
  position := .origin
  text :=
    if t.kind = .identifier ∨ t.kind = .directive ∨ t.text = [.char '='] then t.text else []
  first := false

theorem inRun_gist (t : Token) : t.gist.inRun = t.inRun := rfl

theorem text_gist_of_kind {t : Token} (h : t.kind = .identifier ∨ t.kind = .directive) :
    t.gist.text = t.text :=
  if_pos (h.imp_right .inl)

theorem text_gist_beq_equals (t : Token) :
    (t.gist.text == [.char '=']) = (t.text == [.char '=']) := by
  by_cases h : t.text = [.char '=']
  · simp [gist, h]
  · have hgist : t.gist.text ≠ [.char '='] := by
      simp only [gist]
      split <;> simp [h]
    rw [beq_eq_false_iff_ne.2 h, beq_eq_false_iff_ne.2 hgist]

theorem Restyled.gist_eq {e : LineEnding} {t t' : Token} (h : Restyled e t t') :
    t'.gist = t.gist := by
  have hequals : t'.text = [.char '='] ↔ t.text = [.char '='] := by
    rw [h.text, e.restyle_eq_singleton_iff rfl]
  have htext : t'.gist.text = t.gist.text := by
    simp only [gist, h.kind, hequals]
    split
    · rename_i hlooked
      rcases hlooked with hkind | hkind | hkind
      · exact h.text_eq (by simp [hkind]) (by simp [hkind])
      · exact h.text_eq (by simp [hkind]) (by simp [hkind])
      · rw [hkind, hequals.2 hkind]
    · rfl
  simp only [gist, h.kind] at htext ⊢
  rw [htext]

theorem text_eq_of_gist_eq {t t' : Token} (h : t'.gist = t.gist) (hkind : t.kind = .identifier) :
    t'.text = t.text := by
  have hkind' : t'.kind = .identifier := (congrArg kind h).trans hkind
  rw [← text_gist_of_kind (.inl hkind'), h, text_gist_of_kind (.inl hkind)]

end Token

namespace Statement

theorem ofRun?_map_gist (d : Dialect) (start : Nat) (run : List Token) :
    ofRun? d start (run.map Token.gist) = ofRun? d start run := by
  cases run with
  | nil => rfl
  | cons first others =>
    have hkind : first.gist.kind = first.kind := rfl
    simp only [List.map_cons, ofRun?, hkind, List.length_cons, List.length_map]
    congr 1
    split
    · rfl
    · rename_i hidentifier
      simp only [nameRole?, Token.text_gist_of_kind (.inl hidentifier), List.isEmpty_map,
        List.head?_map, Option.any_map, Token.text_gist_beq_equals]
    · rename_i hdirective
      simp only [directiveRole?, rule?, Token.text_gist_of_kind (.inr hdirective), List.head?_map,
        Option.bind_map, Function.comp_def]
      rfl
    · rfl

/-- The statements of some tokens depend on no more than their gist. -/
theorem ofTokens_map_gist (d : Dialect) (ts : List Token) :
    ofTokens d (ts.map Token.gist) = ofTokens d ts := by
  have pieces_gist (start : Nat) (ps : List (List Token)) :
      ofPieces d start (ps.map (List.map Token.gist)) = ofPieces d start ps := by
    induction ps generalizing start with
    | nil => rfl
    | cons p ps ih => simp [ofPieces, ofRun?_map_gist, ih]
  rw [ofTokens, ofTokens, pieces_map Token.inRun_gist, pieces_gist]

end Statement

namespace SymbolIndex

/-! ## The index -/

/-- A warning about a redefinition looks at no more than where tokens lie. -/
theorem redefinitionWarning?_congr {ts ts' : Array Token}
    (h : ∀ i : Nat, ts'[i]?.map Token.span = ts[i]?.map Token.span) (ss : Array Statement)
    (r : Redefinition) : redefinitionWarning? ts' ss r = redefinitionWarning? ts ss r := by
  have through (ts : Array Token) : redefinitionWarning? ts ss r = (do
      let previous ← ss[r.previous]?
      let current ← ss[r.current]?
      if previous.definitionKind? = some .constant ∧ current.definitionKind? = some .constant then
        none
      let previousName ← ts[← previous.name?]?.map Token.span
      let currentName ← ts[← current.name?]?.map Token.span
      pure (.redefinition r.name previousName.start.line currentName)) := by
    simp only [redefinitionWarning?, Option.bind_eq_bind, Option.bind_map]
    rfl
  rw [through, through]
  simp only [h]

variable {d : Dialect} {source : Bytes} (e : LineEnding)

theorem noReturn_of_mem_lexemes (h : 0x0D ∉ source) {l : Lexeme} (hl : l ∈ lexemes d source) :
    .char '\r' ∉ l.text := by
  intro hmem
  refine LineEnding.char_notMem_decode (c := '\r') (by decide) h ?_
  rw [← Lexeme.texts_scan d true (Text.decode source)]
  exact List.mem_flatMap.2 ⟨l, hl, hmem⟩

theorem lexemes_rewrite (h : 0x0D ∉ source) :
    lexemes d (e.rewrite source) = (lexemes d source).map (Lexeme.restyled e) := by
  rw [lexemes, e.decode_rewrite,
    Lexeme.scan_restyle e true (LineEnding.char_notMem_decode (by decide) h), lexemes]

theorem tokens_parse_rewrite (h : 0x0D ∉ source) :
    List.Forall₂ (Token.Restyled e) (parse d source).tokens.toList
      (parse d (e.rewrite source)).tokens.toList := by
  rw [tokens_parse, tokens_parse, lexemes_rewrite e h]
  exact Lexeme.tokens_map_restyled (fun l => noReturn_of_mem_lexemes h)
    ((Lexeme.scans_scan d true _).forall_mem Lexeme.Opens.not_isBreak_of_kind) 0 0 .origin true

theorem map_tokens_parse_rewrite {α : Type} {f : Token → α}
    (hf : ∀ t t', Token.Restyled e t t' → f t' = f t) (h : 0x0D ∉ source) :
    (parse d (e.rewrite source)).tokens.toList.map f = (parse d source).tokens.toList.map f := by
  rw [← List.forall₂_eq_eq_eq, List.forall₂_map_left_iff, List.forall₂_map_right_iff]
  exact (tokens_parse_rewrite e h).flip.imp fun t' t => hf t t'

theorem statements_parse_rewrite (h : 0x0D ∉ source) :
    (parse d (e.rewrite source)).statements = (parse d source).statements := by
  have hgist := map_tokens_parse_rewrite (d := d) e (fun _ _ ht => ht.gist_eq) h
  rw [← Array.toList_inj, statements_parse, statements_parse, ← Statement.ofTokens_map_gist, hgist,
    Statement.ofTokens_map_gist]

/-- The two readings gather the same but for their tokens. -/
theorem gather_rewrite (h : 0x0D ∉ source) :
    gather d (e.rewrite source) =
      (gather d source).withTokens (parse d (e.rewrite source)).tokens.toList := by
  have hstatements := congrArg Array.toList (statements_parse_rewrite (d := d) e h)
  rw [statements_parse, statements_parse] at hstatements
  rw [gather_eq, gather_eq, ← tokens_parse, ← tokens_parse, hstatements,
    Accumulator.withTokens_foldl_record]
  · rfl
  · -- a definition is named by an identifier, which is spelled alike in both
    intro s hs kind n hrole
    have hgist := map_tokens_parse_rewrite (d := d) e (fun _ _ ht => ht.gist_eq) h
    have hn := congrArg (·[n]?) hgist
    obtain ⟨-, -, hcomment | ⟨i, t, -, ht, named⟩⟩ := Statement.exists_name_of_mem_ofTokens hs
    · simp [hrole] at hcomment
    · obtain rfl : n = s.start + i := by simpa [Statement.name?, hrole] using named.name?_eq
      have hkind := named.identifier
        (by simp [Statement.isDefinition, Statement.definitionKind?, hrole])
      simp only [List.getElem?_map, ht, Option.map_some, Option.map_eq_some_iff] at hn
      obtain ⟨t', ht', hgist⟩ := hn
      have htext := Token.text_eq_of_gist_eq hgist hkind
      have hget : (parse d source).tokens[s.start + i]? = some t := by simpa using ht
      simp [ht', hget, htext]

theorem diagnostics_parse_rewrite (h : 0x0D ∉ source) :
    (parse d (e.rewrite source)).diagnostics = (parse d source).diagnostics := by
  have hgather : gather d (e.rewrite source) = _ := gather_rewrite e h
  have hunclosed : Lexeme.unclosedSpans .origin (lexemes d (e.rewrite source)) =
      Lexeme.unclosedSpans .origin (lexemes d source) := by
    rw [lexemes_rewrite e h]
    exact Lexeme.unclosedSpans_map_restyled (fun l => noReturn_of_mem_lexemes h) .origin
  have hwarning : redefinitionWarning? (parse d (e.rewrite source)).tokens =
      redefinitionWarning? (parse d source).tokens := by
    funext ss r
    refine redefinitionWarning?_congr (fun i => ?_) ss r
    have hspans := map_tokens_parse_rewrite (d := d) e (fun _ _ ht => ht.span) h
    simpa using congrArg (·[i]?) hspans
  have remarks (s : Bytes) : (parse d s).diagnostics =
      (Lexeme.unclosedSpans .origin (lexemes d s)).map .unterminatedString ++
        (gather d s).redefinitions.toList.filterMap
          (redefinitionWarning? (parse d s).tokens (gather d s).statements) := rfl
  have hredefinitions : (gather d (e.rewrite source)).redefinitions =
      (gather d source).redefinitions := (congrArg Accumulator.redefinitions hgather :)
  have hstatements : (gather d (e.rewrite source)).statements = (gather d source).statements :=
    (congrArg Accumulator.statements hgather :)
  rw [remarks, remarks, hunclosed, hwarning, hredefinitions, hstatements]

/-- The style of line ends does not matter. Whether the lines of a source end with line feeds, with
carriage returns or with pairs of both, its tokens have the same kinds at the same positions, their
texts differ only in line ends, and the statements, the tables and the remarks are the same. -/
theorem parse_rewrite (d : Dialect) (source : Bytes) (e : LineEnding) (h : 0x0D ∉ source) :
    let index := parse d source
    let index' := parse d (e.rewrite source)
    List.Forall₂ (Token.Restyled e) index.tokens.toList index'.tokens.toList ∧
      index'.statements = index.statements ∧ index'.definitions = index.definitions ∧
      index'.references = index.references ∧ index'.diagnostics = index.diagnostics := by
  have hgather : gather d (e.rewrite source) = _ := gather_rewrite e h
  exact ⟨tokens_parse_rewrite e h, statements_parse_rewrite e h,
    (congrArg Accumulator.definitions hgather :), (congrArg Accumulator.references hgather :),
    diagnostics_parse_rewrite e h⟩

/-- A symbol that is defined twice, and a string literal that is never closed. -/
theorem parse_rewrite_redefinition_unclosed :
    let source : Bytes := [0x61, 0x0A, 0x61, 0x0A, 0x22, 0x0A]
    let index := parse .acme (LineEnding.pair.rewrite source)
    let remarks : List Diagnostic :=
      [.unterminatedString ⟨⟨2, 1⟩, ⟨3, 0⟩⟩, .redefinition [.char 'a'] 0 ⟨⟨1, 0⟩, ⟨1, 1⟩⟩]
    0x0D ∉ source ∧
      LineEnding.pair.rewrite source = [0x61, 0x0D, 0x0A, 0x61, 0x0D, 0x0A, 0x22, 0x0D, 0x0A] ∧
      List.Forall₂ (Token.Restyled .pair) (parse .acme source).tokens.toList index.tokens.toList ∧
      index.definitions = [([.char 'a'], 1)] ∧ index.references = #[] ∧
      index.diagnostics = remarks := by
  intro source index remarks
  have hsource : 0x0D ∉ source := by decide
  have hlexemes : lexemes .acme source =
      [.token .identifier [.char 'a'], .token .lineBreak [.char '\n'],
        .token .identifier [.char 'a'], .token .lineBreak [.char '\n'],
        .skipped [.char '"'], .unclosed [.char '\n']] := by
    cbv
  obtain ⟨tokens, -, definitions, references, diagnostics⟩ :=
    parse_rewrite .acme source .pair hsource
  refine ⟨hsource, by decide, tokens, definitions.trans ?_, references.trans ?_,
    diagnostics.trans ?_⟩
  · simp only [parse, gather, hlexemes]
    rfl
  · simp only [parse, gather, hlexemes]
    rfl
  · simp only [parse, gather, hlexemes]
    rfl

end SymbolIndex

end Asm6502
