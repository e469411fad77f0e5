import Asm6502.Proofs.ExactTables
import Asm6502.Proofs.TokenPlaces
import Mathlib

/-!
# The rows of a run

A run ends at a line break or a comment, and not where a row ends. The only thing in a run that can
hold a line end is a string. So from one token of a run to the next the row is the same, unless the
first one is a string: then the rows are as far apart as the string has line ends.

## Main statements

- `Lexeme.isChain_tokens`: a token starts on the row on which the one in front of it ends.
- `SymbolIndex.lineEnds_eq_zero`: only strings and line breaks hold line ends.
- `SymbolIndex.lineText_eq_of_line_eq`: tokens on one row are on one line of the source.
-/

namespace Asm6502

open Position (lineEnds)

/-- A text without line ends has no byte of a line end. -/
theorem Position.forall_of_lineEnds_eq_zero {bs : Bytes} (h : lineEnds bs = 0) :
    ∀ b ∈ bs, b ≠ 0x0D ∧ b ≠ 0x0A := by
  induction bs with
  | nil => simp
  | cons b bs ih =>
    obtain ⟨hrest, hb⟩ := Nat.add_eq_zero_iff.1 h
    have rest := ih hrest
    -- a return with its line feed would leave the line feed to be counted
    have hhead : bs.head? ≠ some 0x0A := fun hhead => (rest _ (List.mem_of_mem_head? hhead)).2 rfl
    intro x hx
    rcases List.mem_cons.1 hx with rfl | hx
    · constructor <;> rintro rfl <;> simp [hhead] at hb
    · exact rest x hx

namespace Lexeme

variable {ls : List Lexeme}

/-- With no line end between the tokens, the first token starts on the row that the lexemes do. -/
theorem line_of_head?_tokens (quiet : ∀ l ∈ ls, l.kind? = none → ∀ g ∈ l.text, g.isBreak = false)
    (offset : Nat) (p : Position) (fresh : Bool) :
    ∀ t ∈ (tokens offset p fresh ls).head?, t.position.line = p.line := by
  induction ls generalizing offset p fresh with
  | nil => simp [tokens]
  | cons l ls ih =>
    intro t ht
    rw [tokens_cons] at ht
    cases hl : l.kind? with
    | some k =>
      obtain rfl : _ = t := by simpa [token?, hl] using ht
      rfl
    | none =>
      have same : (p.advance l.text).line = p.line := by
        rw [Position.advance_of_forall (quiet l List.mem_cons_self hl), Position.right]
      have later : ∀ x ∈ ls, x.kind? = none → ∀ g ∈ x.text, g.isBreak = false :=
        fun x hx => quiet x (List.mem_cons_of_mem l hx)
      rw [token?, hl, Option.map_none, Option.toList_none, List.nil_append] at ht
      exact (ih later _ _ _ t ht).trans same

/-- With no line end between the tokens, each token starts on the row on which the one in front of
it ends. -/
theorem isChain_tokens (quiet : ∀ l ∈ ls, l.kind? = none → ∀ g ∈ l.text, g.isBreak = false)
    (offset : Nat) (p : Position) (fresh : Bool) :
    (tokens offset p fresh ls).IsChain fun t u => u.position.line = t.span.stop.line := by
  induction ls generalizing offset p fresh with
  | nil => exact .nil
  | cons l ls ih =>
    have later : ∀ x ∈ ls, x.kind? = none → ∀ g ∈ x.text, g.isBreak = false :=
      fun x hx => quiet x (List.mem_cons_of_mem l hx)
    rw [tokens_cons]
    refine List.isChain_append.2 ⟨?_, ih later _ _ _, fun t ht u hu => ?_⟩
    · cases token? offset p fresh l <;> simp
    · have hl : token? offset p fresh l = some t := Option.mem_toList.1 (List.mem_of_getLast? ht)
      obtain ⟨k, -, rfl⟩ := Option.map_eq_some_iff.1 hl
      exact line_of_head?_tokens later _ _ _ u hu

end Lexeme

namespace SymbolIndex

variable {d : Dialect} {source : Bytes} {t u : Token}

/-- Each token starts on the row on which the one in front of it ends. -/
theorem isChain_line_parse (d : Dialect) (source : Bytes) :
    (parse d source).tokens.toList.IsChain fun t u => u.position.line = t.span.stop.line := by
  rw [tokens_parse]
  refine Lexeme.isChain_tokens (fun l hl hkind => ?_) _ _ _
  exact (Lexeme.scans_scan d true _).forall_mem Lexeme.Opens.not_isBreak_of_kind l hl
    (by simp [hkind]) (by simp [hkind])

/-- A token ends as many rows further down as it has line ends. -/
theorem line_stop (ht : t ∈ (parse d source).tokens.toList) :
    t.span.stop.line = t.position.line + lineEnds t.text.bytes :=
  Position.line_advance (proper_text ht) t.position

/-- Only strings and line breaks hold line ends. -/
theorem lineEnds_eq_zero (ht : t ∈ (parse d source).tokens.toList) (hbreak : t.kind ≠ .lineBreak)
    (hstring : t.kind ≠ .string) : lineEnds t.text.bytes = 0 := by
  have hstop := line_stop ht
  rw [tokens_parse] at ht
  obtain ⟨front, l, back, hls, hl⟩ := Lexeme.mem_tokens_iff.1 ht
  obtain ⟨k, hk, heq⟩ := Option.map_eq_some_iff.1 hl
  have hkind : l.kind? = some t.kind := by rw [hk, ← heq]
  have htext : l.text = t.text := by rw [← heq]
  have hmem : l ∈ lexemes d source := by simp [hls]
  have plain : ∀ g ∈ l.text, g.isBreak = false :=
    (Lexeme.scans_scan d true _).forall_mem Lexeme.Opens.not_isBreak_of_kind l hmem
      (by simpa [hkind] using hbreak) (by simpa [hkind] using hstring)
  have same : t.span.stop.line = t.position.line := by
    rw [Token.span, ← htext, Position.advance_of_forall plain, Position.right]
  omega

/-- The text from one token to a later one, and the line ends in it. -/
theorem exists_between (ht : t ∈ (parse d source).tokens.toList)
    (hu : u ∈ (parse d source).tokens.toList) (hle : t.offset ≤ u.offset) :
    ∃ between : Bytes, source.take u.offset = source.take t.offset ++ between ∧
      source.drop t.offset = between ++ source.drop u.offset ∧
      u.position.line = t.position.line + lineEnds between := by
  obtain ⟨front, back, hsource, hoffset, hposition, -, hcut, -⟩ := exists_cut ht
  obtain ⟨front', back', hsource', hoffset', hposition', -⟩ := exists_cut hu
  -- the text in front of the later token goes on where that of the earlier one ends
  obtain ⟨rest, rfl, hrest⟩ : ∃ rest, front' = front ++ rest ∧
      t.text ++ back = rest ++ (u.text ++ back') := by
    rcases List.append_eq_append_iff.1 (hsource.symm.trans hsource') with h | ⟨rest, rfl, hrest⟩
    · exact h
    · have hsize : rest = [] := by
        by_contra nonempty
        have := Text.size_pos nonempty
        rw [hoffset, hoffset', Text.size_append] at hle
        omega
      exact ⟨[], by simp [hsize], by simpa [hsize] using hrest.symm⟩
  have proper : ∀ g ∈ rest, g.Proper := by
    intro g hg
    have hmem : g ∈ Text.decode source := by simp [hsource', hg]
    exact Text.proper_of_mem_decode hmem
  refine ⟨rest.bytes, ?_, ?_, ?_⟩
  · rw [hoffset, hoffset', Text.take_size_of_decode hsource, Text.take_size_of_decode hsource',
      Text.bytes_append]
  · rw [hoffset, hoffset', Text.drop_size_of_decode hsource, Text.drop_size_of_decode hsource',
      hrest, Text.bytes_append]
  · have clean : front.CleanCut rest := by
      rw [hrest] at hcut
      exact hcut.left
    rw [hposition', hposition, Position.advance_append clean, Position.line_advance proper]

/-- Tokens that start on one row are on one line of the source. -/
theorem lineText_eq_of_line_eq {i j : Nat} (ht : (parse d source).tokens[i]? = some t)
    (hu : (parse d source).tokens[j]? = some u) (h : t.position.line = u.position.line) :
    (parse d source).lineText i = (parse d source).lineText j := by
  wlog hle : t.offset ≤ u.offset generalizing i j t u
  · exact (this hu ht h.symm (by omega)).symm
  obtain ⟨between, htake, hdrop, hline⟩ :=
    exists_between (mem_tokens_of_getElem? ht) (mem_tokens_of_getElem? hu) hle
  have plain : ∀ b ∈ between, b ≠ 0x0D ∧ b ≠ 0x0A :=
    Position.forall_of_lineEnds_eq_zero (by omega)
  have hwhile : ∀ b ∈ between, (!isBreakByte b) = true := by
    intro b hb
    exact Position.not_isBreakByte (plain b hb)
  rw [lineText_eq ht, lineText_eq hu, htake, hdrop, Position.lastLine_append_of_forall plain,
    List.takeWhile_append_of_pos hwhile, List.append_assoc]

/-! ## Runs -/

theorem lineEnds_eq_zero_of_mem_run {s : Statement} (hs : s ∈ (parse d source).statements.toList)
    (ht : t ∈ ((parse d source).tokens.toList.drop s.start).take s.count)
    (hstring : t.kind ≠ .string) : lineEnds t.text.bytes = 0 := by
  rw [statements_parse] at hs
  exact lineEnds_eq_zero (List.mem_of_mem_drop (List.mem_of_mem_take ht))
    (Statement.ne_lineBreak_of_mem_ofTokens hs ht) hstring

/-- Within a run the row moves on by the line ends of a token, and only a string has some. -/
theorem isChain_line_run {s : Statement} (hs : s ∈ (parse d source).statements.toList) :
    (((parse d source).tokens.toList.drop s.start).take s.count).IsChain fun t u : Token =>
      u.position.line = t.position.line + lineEnds t.text.bytes ∧
        (t.kind ≠ .string → lineEnds t.text.bytes = 0) := by
  have chain := ((isChain_line_parse d source).drop s.start).take s.count
  refine chain.imp_of_mem_imp fun t u ht _ h => ?_
  have hmem : t ∈ (parse d source).tokens.toList := List.mem_of_mem_drop (List.mem_of_mem_take ht)
  exact ⟨h.trans (line_stop hmem), lineEnds_eq_zero_of_mem_run hs ht⟩

/-- A run without line ends is on one row. -/
theorem line_eq_of_run {s : Statement} (hs : s ∈ (parse d source).statements.toList)
    (single : ∀ t ∈ ((parse d source).tokens.toList.drop s.start).take s.count,
      lineEnds t.text.bytes = 0) :
    ∀ t ∈ ((parse d source).tokens.toList.drop s.start).take s.count,
      ∀ u ∈ ((parse d source).tokens.toList.drop s.start).take s.count,
        t.position.line = u.position.line := by
  have chain : (((parse d source).tokens.toList.drop s.start).take s.count).IsChain fun t u =>
      t.position.line = u.position.line := by
    refine (isChain_line_run hs).imp_of_mem_imp fun t u ht _ h => ?_
    have := single t ht
    omega
  have rows := ((List.isChain_map fun t : Token => t.position.line).2 chain).pairwise
  intro t ht u hu
  exact rows.forall_of_forall (fun _ _ => rfl) (List.mem_map_of_mem ht) (List.mem_map_of_mem hu)

/-- The rows of a run never go back. From one token to the next they differ only if the first is a
string, and then by the number of its line ends. So a run in which no string has a line end is on
one line of the source. -/
theorem rows_of_run (d : Dialect) (source : Bytes) (s : Statement)
    (hs : s ∈ (parse d source).statements) :
    let ix := parse d source
    let run := (ix.tokens.toList.drop s.start).take s.count
    run.length = s.count ∧
    run.Pairwise (fun t u => t.position.line ≤ u.position.line) ∧
    run.IsChain (fun t u : Token =>
      (t.position.line ≠ u.position.line → t.kind = .string) ∧
      (t.kind = .string → u.position.line - t.position.line = lineEnds t.text.bytes)) ∧
    ((∀ t ∈ run, t.kind = .string → lineEnds t.text.bytes = 0) →
      ∃ (row : Int) (line : Text), ∀ i, s.start ≤ i → i < s.start + s.count →
        ∃ t, ix.tokens[i]? = some t ∧ t.position.line = row ∧ t.span.stop.line = row ∧
          ix.lineText i = .ok line) := by
  intro ix run
  have hs : s ∈ ix.statements.toList := Array.mem_toList_iff.2 hs
  obtain ⟨hbound, hpos, -⟩ : s.start + s.count ≤ ix.tokens.size ∧ 0 < s.count ∧ _ :=
    exists_name_of_mem_statements hs
  have chain := isChain_line_run hs
  refine ⟨?_, ?_, ?_, fun single => ?_⟩
  · simp only [run, List.length_take, List.length_drop, Array.length_toList]
    omega
  · have rows : run.IsChain fun t u => t.position.line ≤ u.position.line :=
      chain.imp fun t u h => by omega
    exact List.pairwise_map.1 ((List.isChain_map _).2 rows).pairwise
  · refine chain.imp fun t u h => ⟨fun hne => ?_, fun _ => by omega⟩
    by_contra hkind
    have := h.2 hkind
    omega
  · have hends : ∀ t ∈ run, lineEnds t.text.bytes = 0 := by
      intro t ht
      by_cases hkind : t.kind = .string
      · exact single t ht hkind
      · exact lineEnds_eq_zero_of_mem_run hs ht hkind
    have hmem {i : Nat} {t : Token} (ht : ix.tokens[i]? = some t) (hle : s.start ≤ i)
        (hlt : i < s.start + s.count) : t ∈ run := by
      refine List.mem_of_getElem? (i := i - s.start) ?_
      rw [List.getElem?_take_of_lt (by omega), List.getElem?_drop, Nat.add_sub_cancel' hle,
        Array.getElem?_toList, ht]
    have hfirst : ix.tokens[s.start]? = some ix.tokens[s.start] :=
      Array.getElem?_eq_getElem (by omega)
    obtain ⟨line, hline⟩ : ∃ line, ix.lineText s.start = .ok line := ⟨_, lineText_eq hfirst⟩
    refine ⟨ix.tokens[s.start].position.line, line, fun i hle hlt => ?_⟩
    have ht : ix.tokens[i]? = some ix.tokens[i] := Array.getElem?_eq_getElem (by omega)
    have hrow : ix.tokens[i].position.line = ix.tokens[s.start].position.line :=
      line_eq_of_run hs hends _ (hmem ht hle hlt) _ (hmem hfirst le_rfl (by omega))
    have hstop := line_stop (mem_tokens_of_getElem? ht)
    rw [hends _ (hmem ht hle hlt)] at hstop
    exact ⟨_, ht, hrow, by omega, (lineText_eq_of_line_eq ht hfirst hrow).trans hline⟩

/-- A label with a string behind it that spans two lines, and a name behind that. A constant on the
next line. -/
theorem rows_of_run_two_lines :
    let source : Bytes := [0x61, 0x22, 0x0D, 0x0A, 0x22, 0x62, 0x0A, 0x63, 0x3D]
    let ix := parse .acme source
    let label : Token := ⟨.identifier, 0, ⟨0, 0⟩, [.char 'a'], true⟩
    let content : Token := ⟨.string, 2, ⟨0, 2⟩, [.char '\r', .char '\n'], false⟩
    let operand : Token := ⟨.identifier, 5, ⟨1, 1⟩, [.char 'b'], false⟩
    let constant : Statement := ⟨.definition .constant 4, 4, 2⟩
    (⟨.definition .label 0, 0, 3⟩ ∈ ix.statements ∧ constant ∈ ix.statements) ∧
      (ix.tokens.toList.drop 0).take 3 = [label, content, operand] ∧
      operand.position.line - content.position.line = lineEnds content.text.bytes ∧
      ∃ (row : Int) (line : Text), ∀ i : Nat, 4 ≤ i → i < 6 →
        ∃ t, ix.tokens[i]? = some t ∧ t.position.line = row ∧ t.span.stop.line = row ∧
          ix.lineText i = .ok line := by
  intro source ix label content operand constant
  have hlexemes : lexemes .acme source =
      [.token .identifier [.char 'a'], .skipped [.char '"'],
        .token .string [.char '\r', .char '\n'], .skipped [.char '"'],
        .token .identifier [.char 'b'], .token .lineBreak [.char '\n'],
        .token .identifier [.char 'c'], .token .operator [.char '=']] := by
    cbv
  have htokens : ix.tokens.toList = [label, content, operand,
      ⟨.lineBreak, 6, ⟨1, 2⟩, [.char '\n'], false⟩, ⟨.identifier, 7, ⟨2, 0⟩, [.char 'c'], true⟩,
      ⟨.operator, 8, ⟨2, 1⟩, [.char '='], false⟩] := by
    simp only [ix, tokens_parse, hlexemes]
    rfl
  have hstatements : ix.statements.toList = [⟨.definition .label 0, 0, 3⟩, constant] := by
    rw [statements_parse, htokens]
    decide
  have hlabel : ⟨.definition .label 0, 0, 3⟩ ∈ ix.statements := by
    simp [← Array.mem_toList_iff, hstatements]
  have hconstant : constant ∈ ix.statements := by
    simp [← Array.mem_toList_iff, hstatements]
  have hrun : (ix.tokens.toList.drop 0).take 3 = [label, content, operand] := by
    rw [htokens]
    rfl
  obtain ⟨-, -, chain, -⟩ := rows_of_run .acme source _ hlabel
  obtain ⟨-, -, -, single⟩ := rows_of_run .acme source constant hconstant
  refine ⟨⟨hlabel, hconstant⟩, hrun, ?_, single ?_⟩
  · rw [hrun] at chain
    exact (List.isChain_cons_cons.1 (List.isChain_cons_cons.1 chain).2).1.2 rfl
  · rw [htokens]
    decide

end SymbolIndex

end Asm6502
