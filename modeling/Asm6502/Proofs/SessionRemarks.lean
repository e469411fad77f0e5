import Asm6502.Proofs.ListedLines
import Asm6502.Proofs.SessionLines

/-!
# The remarks on a new line

Behind a new line a session lists the remarks on the rows that the new tokens cover. Every remark on
whole lines starts where a token does, so these are the remarks from the row of the new line on. A
line that is swallowed by an open literal has no token of its own; then all remarks are listed, and
all of them are on earlier rows.

## Main statements

- `SymbolIndex.exists_token_of_mem_diagnostics`: a remark starts where a token does.
- `SymbolIndex.line_lt_of_offset_lt`, `SymbolIndex.line_le_of_le_offset`: the row at which a source
  ends divides the tokens of every longer text.
- `Session.listed_remarks_exact`: what is listed for a new line.
-/

namespace Asm6502

theorem Position.line_le_of_le {p q : Position} (h : p ≤ q) : p.line ≤ q.line := by
  rw [le_iff] at h
  omega

theorem Position.line_lt_advance {t : Text} (h : .char '\n' ∈ t) (p : Position) :
    p.line < (p.advance t).line := by
  have next (p : Position) (t : Text) : p.line < (p.nextLine.advance t).line :=
    Int.lt_of_lt_of_le (Int.lt_succ p.line) (line_le_of_le (le_advance p.nextLine t))
  fun_induction advance p t with
  | case1 p => simp at h
  | case2 p t ih => exact next p t
  | case3 p g t _ ih =>
    split
    · exact next p t
    · rename_i hbreak
      have hmem : .char '\n' ∈ t := (List.mem_cons.1 h).resolve_left fun hg => by
        simp [← hg, Glyph.isBreak] at hbreak
      rw [if_neg hbreak] at ih
      exact ih hmem

namespace SymbolIndex

variable {d : Dialect} {source more : Bytes} {ts : List Token} {t : Token} {q : Glyph}

/-! ## Where remarks start -/

theorem EndsOpen.diagnostics_eq (h : (parse d source).EndsOpen ts t q) :
    (parse d source).diagnostics =
      .unterminatedString ⟨t.position, Position.behind source⟩ :: warningsOf (gather d source) := by
  obtain ⟨front, left, -, ht⟩ := h.exists_leavesOpen
  rw [diagnostics_of_leavesOpen left, ht]

/-- A remark on whole lines starts where a token does. -/
theorem exists_token_of_mem_diagnostics (whole : WholeLines source) {r : Diagnostic}
    (h : r ∈ (parse d source).diagnostics) :
    ∃ t ∈ (parse d source).tokens.toList, r.span.start = t.position := by
  have warning {w : Diagnostic} (hw : w ∈ warningsOf (gather d source)) :
      ∃ t ∈ (parse d source).tokens.toList, w.span.start = t.position := by
    obtain ⟨r, -, hr⟩ := List.mem_filterMap.1 hw
    obtain ⟨t, ht, row, rfl⟩ := exists_eq_redefinition hr
    exact ⟨t, ht, rfl⟩
  rcases closed_or_endsOpen whole with closed | ⟨ts, t, q, ends⟩
  · rw [diagnostics_of_closed closed] at h
    exact warning h
  · rw [ends.diagnostics_eq] at h
    rcases List.mem_cons.1 h with rfl | h
    · exact ⟨t, ends.mem, rfl⟩
    · exact warning h

/-! ## Rows -/

/-- A token that starts in a source of whole lines starts above the row at which the source ends. -/
theorem line_lt_of_offset_lt (whole : WholeLines source)
    (ht : t ∈ (parse d (source ++ more)).tokens.toList) (hlt : t.offset < source.length) :
    t.position.line < (Position.behind source).line := by
  obtain ⟨front, back, hsource, hoffset, hposition, -, hcut, -⟩ := exists_cut ht
  rw [whole.decode_append] at hsource
  have hsize := Text.size_decode source
  rcases List.append_eq_append_iff.1 hsource with ⟨rest, rfl, -⟩ | ⟨rest, hfront, hrest⟩
  · rw [Text.size_append] at hoffset
    omega
  · have nonempty : rest ≠ [] := by
      rintro rfl
      rw [hfront, List.append_nil] at hsize
      omega
    -- what is left of the source behind the start of the token ends with a line feed
    obtain ⟨g, hlast⟩ : ∃ g, rest.getLast? = some g := ⟨_, List.getLast?_eq_some_getLast nonempty⟩
    obtain rfl := whole.eq_lineFeed_of_getLast? (g := g)
      (by rw [hfront, List.getLast?_append, hlast]; rfl)
    have hcut : front.CleanCut rest := (hrest ▸ hcut).left
    rw [← Position.advance_origin_decode, hfront, Position.advance_append hcut, hposition]
    exact Position.line_lt_advance (List.mem_of_getLast? hlast) _

/-- A token that starts behind a source of whole lines does not start above the row at which the
source ends. -/
theorem line_le_of_le_offset (whole : WholeLines source)
    (ht : t ∈ (parse d (source ++ more)).tokens.toList) (hle : source.length ≤ t.offset) :
    (Position.behind source).line ≤ t.position.line := by
  obtain ⟨front, back, hsource, hoffset, hposition, -⟩ := exists_cut ht
  rw [whole.decode_append] at hsource
  rw [← Position.advance_origin_decode, hposition]
  rcases List.append_eq_append_iff.1 hsource with ⟨rest, rfl, -⟩ | ⟨rest, hfront, -⟩
  · have hcut : (Text.decode source).CleanCut rest := by
      rintro ⟨hlast, -⟩
      exact absurd (whole.eq_lineFeed_of_getLast? hlast) (by decide)
    rw [Position.advance_append hcut]
    exact Position.line_le_of_le (Position.le_advance _ rest)
  · have hsize := Text.size_decode source
    obtain rfl : rest = [] := by
      by_contra nonempty
      have hrest := Text.size_pos nonempty
      rw [hfront, Text.size_append] at hsize
      omega
    rw [hfront, List.append_nil]

theorem pairwise_line_tokens (d : Dialect) (source : Bytes) :
    (parse d source).tokens.toList.Pairwise fun t u => t.position.line ≤ u.position.line := by
  rw [tokens_parse]
  refine (Lexeme.pairwise_span_tokens _ _ _ _).imp fun {t u} h => ?_
  exact Position.line_le_of_le ((t.position.le_advance t.text).trans h)

/-! ## What is listed -/

theorem listedDiagnostics_of_tokens {ix : SymbolIndex} {old later : List Token} {u : Token}
    (h : ix.tokens.toList = old ++ u :: later) : ix.listedDiagnostics old.length =
      ix.diagnostics.filter (u.position.line ≤ ·.span.start.line) := by
  have hu : ix.tokens[old.length]? = some u := by
    rw [← Array.getElem?_toList, h]
    simp
  simp [listedDiagnostics, hu]

/-- For a line that is not swallowed, the remarks from its row on are listed. -/
theorem listedDiagnostics_line (whole : WholeLines source) (line : Bytes)
    (reached : ∀ ts t q, (parse d source).EndsOpen ts t q → q ∈ Text.decode (line ++ [0x0A])) :
    (parse d (source ++ (line ++ [0x0A]))).listedDiagnostics (parse d source).tokens.size =
      (parse d (source ++ (line ++ [0x0A]))).diagnostics.filter
        ((Position.behind source).line ≤ ·.span.start.line) := by
  obtain ⟨old, later, htokens, hlength, hold, hlater⟩ :=
    exists_tokens_append d whole (line ++ [0x0A])
  obtain ⟨u', hu', hle⟩ := exists_token_of_line whole line reached
  have order := pairwise_line_tokens d (source ++ (line ++ [0x0A]))
  cases later with
  | nil =>
    rw [htokens, List.append_nil] at hu'
    exact absurd (hold u' hu') (by omega)
  | cons u later =>
    rw [← hlength, listedDiagnostics_of_tokens htokens]
    refine List.filter_congr fun r hr => decide_eq_decide.2 ?_
    obtain ⟨t, ht, hstart⟩ :=
      exists_token_of_mem_diagnostics (wholeLines_append_line source line) hr
    rw [hstart]
    constructor
    · intro h
      have hu : u ∈ (parse d (source ++ (line ++ [0x0A]))).tokens.toList := by
        rw [htokens]
        exact List.mem_append_right old List.mem_cons_self
      exact (line_le_of_le_offset whole hu (hlater u List.mem_cons_self)).trans h
    · intro h
      have hnew : t ∈ u :: later := by
        rcases List.mem_append.1 (htokens ▸ ht) with ht' | ht'
        · exact absurd (line_lt_of_offset_lt whole ht (hold t ht')) (by omega)
        · exact ht'
      rcases List.mem_cons.1 hnew with rfl | hnew
      · exact le_rfl
      · rw [htokens] at order
        exact (List.pairwise_cons.1 (List.pairwise_append.1 order).2.1).1 t hnew

theorem line_nonneg (ht : t ∈ (parse d source).tokens.toList) : 0 ≤ t.position.line := by
  obtain ⟨front, -, -, -, hposition, -⟩ := exists_cut ht
  rw [hposition]
  exact Position.line_le_of_le (Position.le_advance .origin front)

/-- For a line that is swallowed, all remarks are listed. -/
theorem EndsOpen.listedDiagnostics_line (h : (parse d source).EndsOpen ts t q)
    (whole : WholeLines source) {line : Bytes} (absent : q ∉ Text.decode (line ++ [0x0A])) :
    (parse d (source ++ (line ++ [0x0A]))).listedDiagnostics (parse d source).tokens.size =
      (parse d (source ++ (line ++ [0x0A]))).diagnostics := by
  have ends := h.append whole absent
  have beyond : (parse d (source ++ (line ++ [0x0A]))).tokens[(parse d source).tokens.size]? =
      none := by
    rw [← Array.getElem?_toList, ← Array.length_toList, ends.tokens, h.tokens]
    simp
  have all : ∀ r ∈ (parse d (source ++ (line ++ [0x0A]))).diagnostics,
      0 ≤ r.span.start.line := by
    intro r hr
    obtain ⟨u, hu, hstart⟩ :=
      exists_token_of_mem_diagnostics (wholeLines_append_line source line) hr
    rw [hstart]
    exact line_nonneg hu
  simpa [listedDiagnostics, beyond] using all

/-- Those remarks are on earlier rows. -/
theorem EndsOpen.line_lt_of_mem_diagnostics (h : (parse d source).EndsOpen ts t q)
    (whole : WholeLines source) {line : Bytes} (absent : q ∉ Text.decode (line ++ [0x0A]))
    {r : Diagnostic} (hr : r ∈ (parse d (source ++ (line ++ [0x0A]))).diagnostics) :
    r.span.start.line < (Position.behind source).line := by
  have ends := h.append whole absent
  obtain ⟨u, hu, hstart⟩ := exists_token_of_mem_diagnostics (wholeLines_append_line source line) hr
  rw [hstart]
  refine line_lt_of_offset_lt whole hu ?_
  rw [ends.tokens, List.mem_append, List.mem_singleton] at hu
  rcases hu with hu | rfl
  · exact offset_lt_length (h.tokens ▸ List.mem_append_left [t] hu)
  · exact (offset_lt_length h.mem :)

theorem EndsOpen.mem_decode_line {ix : SymbolIndex} (h : ix.EndsOpen ts t q) (line : Bytes) :
    q ∈ Text.decode (line ++ [0x0A]) ↔ q ∈ Text.decode line := by
  have hq : q ≠ .char '\n' := by
    rintro rfl
    exact absurd h.quote (by decide)
  rw [decode_append_lineFeed]
  simp [hq]

end SymbolIndex

namespace Session

/-- Behind a new line, the remarks from its row on are listed, unless an open literal swallows the
line. Then all remarks are listed, that on the literal first; all of them are on earlier rows. What
is printed ends with a line for each remark that is listed. -/
theorem listed_remarks_exact (d : Dialect) (steps : List Step) :
    ∃ s, (start d).after steps = .ok s ∧ ∀ line : Bytes,
      let row := (Position.behind s.source).line
      let ix := (s.add line).1.index
      let listed := ix.listedDiagnostics (s.add line).2
      (ix.listing (s.add line).2).splitOn (.char '\n') =
        (ix.tableLines (s.add line).2).map List.dropLast ++ listed.map SymbolIndex.remarkRow ++
          [[]] ∧
      ((∀ ts t q, s.index.EndsOpen ts t q → q ∈ Text.decode line) →
        listed = ix.diagnostics.filter (row ≤ ·.span.start.line)) ∧
      ∀ ts t q, s.index.EndsOpen ts t q → q ∉ Text.decode line → listed = ix.diagnostics ∧
        listed.head? = some (.unterminatedString ⟨t.position, Position.behind ix.source⟩) ∧
        ∀ r ∈ listed, r.span.start.line < row := by
  obtain ⟨s, hs, held⟩ := (holds_start d).after steps
  refine ⟨s, hs, fun line => ?_⟩
  have whole := (steps.foldl Log.note { dialect := d }).wholeLines_text
  dsimp only
  rw [held.index_add line, held.number_add line, held.source, held.index]
  refine ⟨SymbolIndex.splitOn_listing _ _ _, fun reached => ?_, fun ts t q ends absent => ?_⟩
  · refine SymbolIndex.listedDiagnostics_line whole line fun ts t q ends => ?_
    exact (ends.mem_decode_line line).2 (reached ts t q ends)
  · have absent : q ∉ Text.decode (line ++ [0x0A]) := mt (ends.mem_decode_line line).1 absent
    rw [ends.listedDiagnostics_line whole absent]
    refine ⟨rfl, ?_, fun r hr => ends.line_lt_of_mem_diagnostics whole absent hr⟩
    rw [(ends.append whole absent).diagnostics_eq]
    rfl

theorem endsOpen_open_line : ((start .acme).add [0x22, 0x61]).1.index.EndsOpen []
    ⟨.string, 1, ⟨0, 1⟩, [.char 'a', .char '\n'], true⟩ (.char '"') := by
  change (SymbolIndex.parse .acme [0x22, 0x61, 0x0A]).EndsOpen _ _ _
  have hlexemes : SymbolIndex.lexemes .acme [0x22, 0x61, 0x0A] =
      [.skipped [.char '"'], .unclosed [.char 'a', .char '\n']] := by
    cbv
  refine ⟨?_, rfl, .inr rfl, by decide, [], ?_, rfl⟩
  · rw [SymbolIndex.tokens_parse, hlexemes]
    rfl
  · change Text.decode [0x22, 0x61, 0x0A] = _
    cbv

/-- A line that an open literal swallows, and a line that closes the literal. -/
theorem listed_remarks_exact_open_literal :
    let string : Token := ⟨.string, 1, ⟨0, 1⟩, [.char 'a', .char '\n'], true⟩
    ∃ s, (start .acme).after [.add [0x22, 0x61]] = .ok s ∧
      s.index.EndsOpen [] string (.char '"') ∧ .char '"' ∉ Text.decode [0x62] ∧
      (s.add [0x62]).1.index.listedDiagnostics (s.add [0x62]).2 =
        (s.add [0x62]).1.index.diagnostics ∧
      (∀ ts t q, s.index.EndsOpen ts t q → q ∈ Text.decode [0x62, 0x22]) ∧
      (s.add [0x62, 0x22]).1.index.listedDiagnostics (s.add [0x62, 0x22]).2 =
        (s.add [0x62, 0x22]).1.index.diagnostics.filter (1 ≤ ·.span.start.line) := by
  intro string
  obtain ⟨s, hs, hadd⟩ := listed_remarks_exact .acme [.add [0x22, 0x61]]
  obtain rfl : ((start .acme).add [0x22, 0x61]).1 = s := Except.ok.inj hs
  have absent : .char '"' ∉ Text.decode [0x62] := by
    have hdecode : Text.decode [0x62] = [.char 'b'] := by
      cbv
    rw [hdecode]
    decide
  have reached : ∀ ts t q, ((start .acme).add [0x22, 0x61]).1.index.EndsOpen ts t q →
      q ∈ Text.decode [0x62, 0x22] := by
    intro ts t q ends
    obtain ⟨-, -, rfl⟩ := endsOpen_open_line.unique ends
    have hdecode : Text.decode [0x62, 0x22] = [.char 'b', .char '"'] := by
      cbv
    simp [hdecode]
  exact ⟨_, hs, endsOpen_open_line, absent,
    ((hadd [0x62]).2.2 _ _ _ endsOpen_open_line absent).1, reached, (hadd [0x62, 0x22]).2.1 reached⟩

/-- A literal that a line leaves open is remarked on once more for a line that it swallows. -/
theorem listed_remarks_repeated :
    let s := ((start .acme).add [0x22, 0x61]).1
    (start .acme).after [.add [0x22, 0x61]] = .ok s ∧ (Position.behind s.source).line = 1 ∧
      (s.add [0x62]).1.index.listedDiagnostics (s.add [0x62]).2 =
        [.unterminatedString ⟨⟨0, 1⟩, ⟨2, 0⟩⟩] ∧
      (s.add [0x62]).1.index.listing (s.add [0x62]).2 =
        Text.ofString "1:2: Unterminated string literal\n" := by
  intro s
  have hlexemes : SymbolIndex.lexemes .acme [0x22, 0x61, 0x0A, 0x62, 0x0A] =
      [.skipped [.char '"'], .unclosed [.char 'a', .char '\n', .char 'b', .char '\n']] := by
    cbv
  have hnumber : (s.add [0x62]).2 = 1 := by
    change s.index.tokens.size = 1
    rw [← Array.length_toList, endsOpen_open_line.tokens]
    rfl
  refine ⟨rfl, rfl, ?_, ?_⟩
  · rw [hnumber]
    change (SymbolIndex.parse .acme [0x22, 0x61, 0x0A, 0x62, 0x0A]).listedDiagnostics 1 = _
    simp only [SymbolIndex.parse, SymbolIndex.gather, hlexemes]
    rfl
  · rw [hnumber]
    change (SymbolIndex.parse .acme [0x22, 0x61, 0x0A, 0x62, 0x0A]).listing 1 = _
    simp only [SymbolIndex.parse, SymbolIndex.gather, hlexemes]
    rfl

end Session

end Asm6502
