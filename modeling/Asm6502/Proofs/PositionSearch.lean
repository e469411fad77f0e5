import Asm6502.Proofs.HighlightStream

/-!
# The token under a position

The token under a position is found by halving. This finds what a look at one token after the other
would find, since the tokens of a text are ordered by their positions, and none reaches into the
next one.

## Main definitions

- `Token.Covers`: the token lies under a position.

## Main statements

- `Search.first_le_iff`: halving finds the place from which on a property holds.
- `SymbolIndex.tokenAt_eq_some_iff`: the token that is found is the one under the position.
- `SymbolIndex.tokenAt_position`: at the start of a token that token is found.
-/

namespace Asm6502

/-! ## Halving -/

namespace Search

variable {α : Type} {xs : Array α} {p : α → Bool}

/-- Halving keeps the elements without the property below `lo`, and those with it from `hi` on. -/
theorem firstBetween_le_iff {lo hi : Nat} {bound : hi ≤ xs.size}
    (ordered : xs.toList.Pairwise fun x y => p x = true → p y = true)
    (below : ∀ i x, i < lo → xs[i]? = some x → p x = false)
    (above : ∀ i x, hi ≤ i → xs[i]? = some x → p x = true) {i : Nat} {x : α}
    (hx : xs[i]? = some x) : firstBetween xs p lo hi bound ≤ i ↔ p x = true := by
  have later {i j : Nat} {x y : α} (hij : i < j) (hx : xs[i]? = some x) (hy : xs[j]? = some y) :
      p x = true → p y = true := by
    obtain ⟨hi, rfl⟩ := Array.getElem?_eq_some_iff.1 hx
    obtain ⟨hj, rfl⟩ := Array.getElem?_eq_some_iff.1 hy
    exact List.pairwise_iff_getElem.1 ordered i j hi hj hij
  fun_induction firstBetween xs p lo hi bound with
  | case1 lo hi bound hlt mid hmid hp ih =>
    -- from the middle on all have the property
    refine ih below fun j y hj hy => ?_
    rcases Nat.eq_or_lt_of_le hj with rfl | hj
    · obtain rfl : xs[mid] = y := by simpa [hmid] using hy
      exact hp
    · exact later hj (Array.getElem?_eq_getElem hmid) hy hp
  | case2 lo hi bound hlt mid hmid hp ih =>
    -- up to the middle none has it
    refine ih (fun j y hj hy => ?_) above
    rcases Nat.eq_or_lt_of_le (Nat.le_of_lt_succ hj) with rfl | hj
    · obtain rfl : xs[mid] = y := by simpa [hmid] using hy
      simpa using hp
    · rw [← Bool.not_eq_true]
      exact mt (later hj hy (Array.getElem?_eq_getElem hmid)) hp
  | case3 lo hi bound hlt =>
    constructor
    · intro hle
      exact above i x (by omega) hx
    · intro hp
      by_contra hlt
      simp [below i x (by omega) hx] at hp

/-- If a property holds of every element behind one that it holds of, then halving tells the
elements with the property from those without it. -/
theorem first_le_iff (ordered : xs.toList.Pairwise fun x y => p x = true → p y = true) {i : Nat}
    {x : α} (hx : xs[i]? = some x) : first xs p ≤ i ↔ p x = true := by
  refine firstBetween_le_iff ordered (fun _ _ h => absurd h (Nat.not_lt_zero _)) ?_ hx
  intro j y hj hy
  simp [Array.getElem?_eq_none hj] at hy

end Search

/-! ## Positions -/

namespace Position

theorem lt_iff {p q : Position} :
    p < q ↔ p.line < q.line ∨ p.line = q.line ∧ p.char < q.char := by
  rw [lt_iff_le_not_ge, le_iff, le_iff]
  omega

theorem isAfter_iff {p q : Position} : p.isAfter q = true ↔ q < p := by
  simp only [isAfter, lt_iff, Bool.or_eq_true, Bool.and_eq_true, decide_eq_true_eq]
  omega

theorem le_of_not_lt {p q : Position} (h : ¬ p < q) : q ≤ p := by
  rw [lt_iff] at h
  rw [le_iff]
  omega

/-- A text that is not empty leads forward. -/
theorem lt_advance (p : Position) {t : Text} (h : t ≠ []) : p < p.advance t := by
  have next : p < p.nextLine := lt_iff.2 (.inl (Int.lt_succ p.line))
  fun_cases advance p t with
  | case1 => exact absurd rfl h
  | case2 t => exact next.trans_le (le_advance _ t)
  | case3 g t =>
    refine lt_of_lt_of_le ?_ (le_advance _ t)
    split
    · exact next
    · have hunits := g.units_pos
      exact lt_iff.2 (.inr ⟨rfl, by simp only [right]; omega⟩)

end Position

/-! ## Tokens -/

namespace Token

variable {t : Token} {pos : Position}

/-- The position lies on the token, which is no line break. The token starts on the same line, and
it ends behind the position or on another line. -/
def Covers (t : Token) (pos : Position) : Prop :=
  t.kind ≠ .lineBreak ∧ t.position.line = pos.line ∧ t.position.char ≤ pos.char ∧
    (t.span.stop.line ≠ t.span.start.line ∨ pos.char < t.span.stop.char)

instance (t : Token) (pos : Position) : Decidable (t.Covers pos) :=
  inferInstanceAs (Decidable (_ ∧ _))

theorem Covers.position_le (h : t.Covers pos) : t.position ≤ pos :=
  .inr ⟨h.2.1, h.2.2.1⟩

/-- A token does not end in front of a position that lies on it. -/
theorem Covers.not_stop_le (h : t.Covers pos) : ¬ t.span.stop ≤ pos := by
  obtain ⟨-, hline, -, hstop⟩ := h
  have hle : t.span.start ≤ t.span.stop := t.position.le_advance t.text
  have hstart : t.span.start.line = pos.line := hline
  rw [Position.le_iff] at hle ⊢
  omega

/-- A token lies under the position that it starts at. -/
theorem covers_position (hkind : t.kind ≠ .lineBreak) (htext : t.text ≠ []) :
    t.Covers t.position := by
  have hlt : t.span.start < t.span.stop := t.position.lt_advance htext
  rw [Position.lt_iff] at hlt
  refine ⟨hkind, rfl, le_rfl, ?_⟩
  have hstart : t.span.start.char = t.position.char := rfl
  omega

end Token

namespace SymbolIndex

variable {ix : SymbolIndex} {d : Dialect} {source : Bytes} {pos : Position} {i : Nat} {t : Token}

theorem position_lt_stop (h : t ∈ (parse d source).tokens.toList) : t.position < t.span.stop := by
  obtain ⟨-, -, -, -, -, htext, -⟩ := exists_cut h
  exact t.position.lt_advance htext

/-- The tokens of a text start one behind the other. -/
theorem pairwise_position_parse (d : Dialect) (source : Bytes) :
    (parse d source).tokens.toList.Pairwise fun s t => s.position < t.position :=
  (pairwise_span_parse d source).imp_of_mem fun hs _ hle => (position_lt_stop hs).trans_le hle

/-- Halving tells the tokens that start behind a position from the others. -/
theorem first_isAfter_le_iff (ht : (parse d source).tokens[i]? = some t) :
    Search.first (parse d source).tokens (·.position.isAfter pos) ≤ i ↔ pos < t.position := by
  rw [Search.first_le_iff ?_ ht, Position.isAfter_iff]
  refine (pairwise_position_parse d source).imp fun {s t} hlt => ?_
  simp only [Position.isAfter_iff]
  intro hs
  exact hs.trans hlt

/-- The token under a position is the last one that does not start behind it. -/
theorem first_isAfter_eq_of_covers (ht : (parse d source).tokens[i]? = some t)
    (hcovers : t.Covers pos) :
    Search.first (parse d source).tokens (·.position.isAfter pos) = i + 1 := by
  generalize hn : Search.first (parse d source).tokens (·.position.isAfter pos) = n
  have hle : n ≤ (parse d source).tokens.size := hn ▸ Search.first_le _ _
  have hi : ¬ n ≤ i := by
    rw [← hn, first_isAfter_le_iff ht]
    exact not_lt_of_ge hcovers.position_le
  by_contra hne
  -- otherwise the next token starts at the position or in front of it, and so this one has ended
  obtain ⟨hlt, rfl⟩ := Array.getElem?_eq_some_iff.1 ht
  have hnext : i + 1 < (parse d source).tokens.size := by omega
  have hstart : (parse d source).tokens[i + 1].position ≤ pos := by
    apply Position.le_of_not_lt
    rw [← first_isAfter_le_iff (Array.getElem?_eq_getElem hnext), hn]
    omega
  have hstop : (parse d source).tokens[i].span.stop ≤ (parse d source).tokens[i + 1].position :=
    List.pairwise_iff_getElem.1 (pairwise_span_parse d source) i (i + 1) hlt hnext (by omega)
  exact hcovers.not_stop_le (hstop.trans hstart)

/-- Only the last token that does not start behind a position is looked at. -/
theorem tokenAt_eq_ite (hfirst : Search.first ix.tokens (·.position.isAfter pos) = i + 1)
    (ht : ix.tokens[i]? = some t) (hspan : ix.spanOf t = .ok t.span) (hle : t.position ≤ pos) :
    ix.tokenAt pos = .ok (if t.Covers pos then some i else none) := by
  have hentry : Checked.entry ix.tokens (((i + 1 : Nat) : Int) - 1) = .ok t :=
    (Checked.entry_pred ix.tokens rfl).trans (Checked.entry_eq_ok_iff.2 ht)
  unfold tokenAt
  simp only [hfirst, if_neg (Nat.succ_ne_zero i), hentry]
  change (if t.kind = .lineBreak ∨ t.position.line ≠ pos.line then pure none else _) = _
  split
  · rename_i hskip
    rw [if_neg (by unfold Token.Covers; tauto)]
    rfl
  · rename_i hline
    rw [hspan]
    change (if t.span.stop.line = t.span.start.line ∧ t.span.stop.char ≤ pos.char then pure none
      else pure (some i)) = _
    push Not at hline
    rw [Position.le_iff] at hle
    split
    · rename_i hends
      rw [if_neg (by unfold Token.Covers; omega)]
      rfl
    · rename_i hends
      rw [if_pos ⟨hline.1, hline.2, by omega, by omega⟩]
      rfl

/-- No two tokens lie under one position. -/
theorem eq_of_covers {j : Nat} {s : Token} (hs : (parse d source).tokens[i]? = some s)
    (ht : (parse d source).tokens[j]? = some t) (hcovers : s.Covers pos) (hcovers' : t.Covers pos) :
    i = j := by
  have hi := first_isAfter_eq_of_covers hs hcovers
  have hj := first_isAfter_eq_of_covers ht hcovers'
  omega

/-- What is found is the token under the position. -/
theorem tokenAt_eq_some_iff :
    (parse d source).tokenAt pos = .ok (some i) ↔
      ∃ t, (parse d source).tokens[i]? = some t ∧ t.Covers pos := by
  constructor
  · intro hat
    have hle := Search.first_le (parse d source).tokens (·.position.isAfter pos)
    cases hn : Search.first (parse d source).tokens (·.position.isAfter pos) with
    | zero =>
      rw [tokenAt, hn] at hat
      cases hat
    | succ k =>
      obtain ⟨t, ht⟩ : ∃ t, (parse d source).tokens[k]? = some t :=
        ⟨_, Array.getElem?_eq_getElem (by omega)⟩
      have hstart : t.position ≤ pos := by
        apply Position.le_of_not_lt
        rw [← first_isAfter_le_iff ht, hn]
        omega
      rw [tokenAt_eq_ite hn ht (spanOf_eq_span (mem_tokens_of_getElem? ht)) hstart] at hat
      split at hat
      · rename_i hcovers
        obtain rfl : k = i := by simpa using hat
        exact ⟨t, ht, hcovers⟩
      · cases hat
  · rintro ⟨t, ht, hcovers⟩
    rw [tokenAt_eq_ite (first_isAfter_eq_of_covers ht hcovers) ht
      (spanOf_eq_span (mem_tokens_of_getElem? ht)) hcovers.position_le, if_pos hcovers]

theorem findIdx?_covers_eq_some_iff :
    (parse d source).tokens.toList.findIdx? (·.Covers pos) = some i ↔
      ∃ t, (parse d source).tokens[i]? = some t ∧ t.Covers pos := by
  rw [List.findIdx?_eq_some_iff_getElem]
  constructor
  · rintro ⟨hi, hcovers, -⟩
    exact ⟨_, Array.getElem?_eq_getElem hi, of_decide_eq_true hcovers⟩
  · rintro ⟨t, ht, hcovers⟩
    obtain ⟨hi, rfl⟩ := Array.getElem?_eq_some_iff.1 ht
    refine ⟨hi, decide_eq_true hcovers, fun j hj => ?_⟩
    rw [decide_eq_true_eq]
    intro hcovers'
    have hlt : j < (parse d source).tokens.size := hj.trans hi
    exact hj.ne (eq_of_covers (Array.getElem?_eq_getElem hlt) ht hcovers' hcovers)

/-- Halving finds what a look at one token after the other finds. -/
theorem tokenAt_eq_findIdx? (d : Dialect) (source : Bytes) (pos : Position) :
    (parse d source).tokenAt pos =
      .ok ((parse d source).tokens.toList.findIdx? (·.Covers pos)) := by
  obtain ⟨i?, hok, -⟩ := (sound_parse d source).tokenAt pos
  rw [hok]
  refine congrArg Except.ok (Option.ext fun i => ?_)
  rw [findIdx?_covers_eq_some_iff, ← tokenAt_eq_some_iff, hok, Except.ok.injEq]

/-- At the start of a token that token is found. -/
theorem tokenAt_position (ht : (parse d source).tokens[i]? = some t) (hkind : t.kind ≠ .lineBreak) :
    (parse d source).tokenAt t.position = .ok (some i) := by
  obtain ⟨-, -, -, -, -, htext, -⟩ := exists_cut (mem_tokens_of_getElem? ht)
  exact tokenAt_eq_some_iff.2 ⟨t, ht, t.covers_position hkind htext⟩

/-- The token under a position, for positions with any numbers, is the one that a look at one token
after the other finds. There is at most one, and none is found only if there is none. -/
theorem tokenAt_agrees_with_scan (d : Dialect) (source : Bytes) (pos : Position) :
    let ix := parse d source
    ix.tokenAt pos = .ok (ix.tokens.toList.findIdx? (·.Covers pos)) ∧
    (∀ i, ix.tokenAt pos = .ok (some i) ↔ ∃ t, ix.tokens[i]? = some t ∧ t.Covers pos) ∧
    (ix.tokenAt pos = .ok none ↔ ∀ t ∈ ix.tokens, ¬ t.Covers pos) ∧
    (∀ (i j : Nat) (s t : Token), ix.tokens[i]? = some s → ix.tokens[j]? = some t →
      s.Covers pos → t.Covers pos → i = j) ∧
    ∀ t ∈ ix.tokens, ix.spanOf t = .ok t.span := by
  intro ix
  refine ⟨tokenAt_eq_findIdx? d source pos, fun i => tokenAt_eq_some_iff, ?_,
    fun i j s t hs ht => eq_of_covers hs ht,
    fun t ht => spanOf_eq_span (Array.mem_toList_iff.2 ht)⟩
  rw [tokenAt_eq_findIdx?, Except.ok.injEq, List.findIdx?_eq_none_iff]
  simp [ix]

/-- A string that reaches over a line end lies under all of its first line that is left, and under
nothing of the second line. -/
theorem tokenAt_agrees_with_scan_clipped_string :
    let source : Bytes := [0x61, 0x20, 0x22, 0x62, 0x0A, 0x63, 0x22, 0x3D]
    let content : Token := ⟨.string, 3, ⟨0, 3⟩, [.char 'b', .char '\n', .char 'c'], false⟩
    let ix := parse .acme source
    ix.tokens[1]? = some content ∧ content.Covers ⟨0, 99⟩ ∧ ix.tokenAt ⟨0, 99⟩ = .ok (some 1) ∧
      (∀ (j : Nat) (t : Token), ix.tokens[j]? = some t → t.Covers ⟨0, 99⟩ → 1 = j) ∧
      ix.tokenAt ⟨1, 0⟩ = .ok none ∧ ix.spanOf content = .ok ⟨⟨0, 3⟩, ⟨1, 1⟩⟩ := by
  intro source content ix
  have hlexemes : lexemes .acme source =
      [.token .identifier [.char 'a'], .skipped [.char ' '], .skipped [.char '"'],
        .token .string [.char 'b', .char '\n', .char 'c'], .skipped [.char '"'],
        .token .operator [.char '=']] := by
    cbv
  have htokens : ix.tokens.toList =
      [⟨.identifier, 0, ⟨0, 0⟩, [.char 'a'], true⟩, content,
        ⟨.operator, 7, ⟨1, 2⟩, [.char '='], false⟩] := by
    rw [tokens_parse, hlexemes]
    rfl
  have hcontent : ix.tokens[1]? = some content := by
    rw [← Array.getElem?_toList, htokens]
    rfl
  have hcovers : content.Covers ⟨0, 99⟩ := by decide
  obtain ⟨-, found, -, sole, span⟩ := tokenAt_agrees_with_scan .acme source ⟨0, 99⟩
  obtain ⟨-, -, missed, -⟩ := tokenAt_agrees_with_scan .acme source ⟨1, 0⟩
  refine ⟨hcontent, hcovers, (found 1).2 ⟨content, hcontent, hcovers⟩,
    fun j t ht hcovers' => sole 1 j content t hcontent ht hcovers hcovers', missed.2 ?_,
    span content (Array.mem_of_getElem? hcontent)⟩
  intro t ht
  rw [← Array.mem_toList_iff, htokens] at ht
  revert t
  decide

end SymbolIndex

end Asm6502
