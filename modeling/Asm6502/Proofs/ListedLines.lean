import Asm6502.Index.Listing
import Asm6502.Proofs.NumberLiterals
import Asm6502.Proofs.OpenStrings
import Asm6502.Proofs.OutlineAgreement
import Asm6502.Proofs.Redefinitions

/-!
# The lines of a listing

A listing is read line by line. Texts of the source are quoted in it, and the names that remarks
mention are identifiers, so that nothing spills over the end of a line: there is one line for each
token, one for each definition or inclusion, and one for each remark that is listed.

## Main definitions

- `Text.IsLine`, `Text.OnOneLine`: a line with its end, and what a line may hold.
- `SymbolIndex.tableLines`, `SymbolIndex.remarkRow`: what the lines of a listing read.

## Main statements

- `Text.onOneLine_quoted`: a quoted text is on one line.
- `SymbolIndex.splitOn_listing`: the lines of a listing.
-/

namespace Asm6502

namespace Text

/-- The text is a line with its end. -/
def IsLine (t : Text) : Prop :=
  ∃ row : Text, .char '\n' ∉ row ∧ t = row ++ [.char '\n']

/-- Lines are told apart by their ends. -/
theorem splitOn_flatten {lines : List Text} (h : ∀ line ∈ lines, IsLine line) :
    lines.flatten.splitOn (.char '\n') = lines.map List.dropLast ++ [[]] := by
  induction lines with
  | nil => rfl
  | cons line lines ih =>
    obtain ⟨row, hrow, rfl⟩ := h line List.mem_cons_self
    rw [List.flatten_cons, List.append_assoc, List.singleton_append,
      List.splitOn_append_cons_self, List.splitOn_eq_singleton hrow,
      ih fun x hx => h x (List.mem_cons_of_mem _ hx)]
    simp

/-! ## Strings on one line -/

/-- The string has no line feed in it. -/
def OnOneLine (s : String) : Prop :=
  '\n' ∉ s.toList

instance (s : String) : Decidable (OnOneLine s) :=
  inferInstanceAs (Decidable ('\n' ∉ s.toList))

@[simp] theorem onOneLine_append {s t : String} :
    OnOneLine (s ++ t) ↔ OnOneLine s ∧ OnOneLine t := by
  simp [OnOneLine]

@[simp] theorem onOneLine_toString {s : String} : OnOneLine (toString s) ↔ OnOneLine s :=
  Iff.rfl

theorem onOneLine_ofList {cs : List Char} (h : ∀ c ∈ cs, c ≠ '\n') :
    OnOneLine (String.ofList cs) := by
  rw [OnOneLine, String.toList_ofList]
  exact fun hmem => h _ hmem rfl

theorem onOneLine_padLeft {width : Nat} {c : Char} {s : String} (hc : c ≠ '\n')
    (hs : OnOneLine s) : OnOneLine (padLeft width c s) := by
  refine onOneLine_append.2 ⟨onOneLine_ofList fun x hx => ?_, hs⟩
  rwa [(List.mem_replicate.1 hx).2]

theorem onOneLine_padRight {width : Nat} {c : Char} {s : String} (hc : c ≠ '\n')
    (hs : OnOneLine s) : OnOneLine (padRight width c s) := by
  refine onOneLine_append.2 ⟨hs, onOneLine_ofList fun x hx => ?_⟩
  rwa [(List.mem_replicate.1 hx).2]

theorem ne_of_mem_toDigits {base n : Nat} (hbase : 1 < base) (hle : base ≤ 16) {c : Char}
    (hc : c ∈ Nat.toDigits base n) : c ≠ '\n' := by
  obtain ⟨v, hv, rfl⟩ := Number.exists_lt_of_mem_toDigits hbase n c hc
  have digits : ∀ v < 16, Nat.digitChar v ≠ '\n' := by decide
  exact digits v (by omega)

theorem onOneLine_nat (n : Nat) : OnOneLine (toString n) := by
  change OnOneLine n.repr
  rw [Nat.repr_eq_ofList_toDigits]
  exact onOneLine_ofList fun c hc => ne_of_mem_toDigits (by decide) (by decide) hc

theorem onOneLine_int (n : Int) : OnOneLine (toString n) := by
  cases n with
  | ofNat n => exact onOneLine_nat n
  | negSucc n => exact onOneLine_append.2 ⟨by decide, onOneLine_nat (n + 1)⟩

theorem onOneLine_hexPadded (width n : Nat) : OnOneLine (hexPadded width n) :=
  onOneLine_padLeft (by decide)
    (onOneLine_ofList fun _ hc => ne_of_mem_toDigits (by decide) (by decide) hc)

theorem onOneLine_of_letterEscape? {c : Char} {s : String} (h : letterEscape? c = some s) :
    OnOneLine s := by
  unfold letterEscape? at h
  split at h <;> cases h <;> decide

theorem onOneLine_quotedGlyph (g : Glyph) : OnOneLine (quotedGlyph g) := by
  have escaped {s : String} (hs : OnOneLine s) (width n : Nat) :
      OnOneLine (s ++ hexPadded width n) :=
    onOneLine_append.2 ⟨hs, onOneLine_hexPadded width n⟩
  cases g with
  | stray b => exact escaped (by decide) 2 b.toNat
  | char c =>
    cases hescape : letterEscape? c with
    | some s =>
      simp only [quotedGlyph, hescape]
      exact onOneLine_of_letterEscape? hescape
    | none =>
      -- a line feed would have been escaped by a letter
      have hc : c ≠ '\n' := by
        rintro rfl
        cases hescape
      simp only [quotedGlyph, hescape]
      split_ifs
      · simpa [OnOneLine] using hc.symm
      · exact escaped (by decide) 2 _
      · exact escaped (by decide) 4 _
      · exact escaped (by decide) 8 _

theorem onOneLine_quoted (t : Text) : OnOneLine (quoted t) := by
  have glyphs (out : String) (hout : OnOneLine out) :
      OnOneLine (t.foldl (fun out g => out ++ quotedGlyph g) out) := by
    induction t generalizing out with
    | nil => exact hout
    | cons g t ih => exact ih _ (onOneLine_append.2 ⟨hout, onOneLine_quotedGlyph g⟩)
  unfold quoted
  simp only [onOneLine_append]
  exact ⟨⟨by decide, glyphs "" (by decide)⟩, by decide⟩

theorem notMem_ofString {s : String} (h : OnOneLine s) : .char '\n' ∉ ofString s := by
  intro hmem
  obtain ⟨c, hc, heq⟩ := List.mem_map.1 hmem
  cases heq
  exact h hc

theorem isLine_ofString {s : String} (h : OnOneLine s) : IsLine (ofString (s ++ "\n")) :=
  ⟨ofString s, notMem_ofString h, ofString_append s "\n"⟩

end Text

namespace SymbolIndex

open Text

/-! ## Tokens and statements -/

theorem isLine_tokenLine (t : Token) : IsLine (ofString (tokenLine t)) := by
  have hrow : OnOneLine (padLeft 4 ' ' (toString (t.position.line + 1))) :=
    onOneLine_padLeft (by decide) (onOneLine_int _)
  have hcolumn : OnOneLine (padRight 3 ' ' (toString t.position.char)) :=
    onOneLine_padRight (by decide) (onOneLine_int _)
  have hmark : OnOneLine (if t.first then "^" else " ") := by
    split <;> decide
  have hkind : OnOneLine (padRight 12 ' ' t.kind.name) :=
    onOneLine_padRight (by decide) (by cases t.kind <;> decide)
  refine isLine_ofString ?_
  simp +decide only [onOneLine_append, onOneLine_toString, onOneLine_quoted, hrow, hcolumn, hmark,
    hkind]

theorem isLine_statementLine (ix : SymbolIndex) {s : Statement} (h : s.role ≠ .comment) :
    IsLine (ofString (ix.statementLine s)) := by
  unfold statementLine
  cases hrole : s.role with
  | comment => exact absurd hrole h
  | definition kind n =>
    have hkind : OnOneLine kind.name := by cases kind <;> decide
    refine isLine_ofString ?_
    simp +decide only [onOneLine_append, onOneLine_toString, onOneLine_quoted, Role.name, hkind]
  | inclusion n =>
    refine isLine_ofString ?_
    simp +decide only [onOneLine_append, onOneLine_toString, onOneLine_quoted, Role.name]

/-- The lines of a listing in front of the remarks: the tokens, and the statements that are no
comments. -/
def tableLines (ix : SymbolIndex) (start : Nat) : List Text :=
  let statements := ix.statements.toList.filter fun s => start ≤ s.start ∧ s.role ≠ .comment
  ((ix.tokens.toList.drop start).map tokenLine ++ statements.map ix.statementLine).map ofString

theorem isLine_of_mem_tableLines {ix : SymbolIndex} {start : Nat} {line : Text}
    (h : line ∈ ix.tableLines start) : IsLine line := by
  obtain ⟨s, hs, rfl⟩ := List.mem_map.1 h
  rcases List.mem_append.1 hs with hs | hs
  · obtain ⟨t, -, rfl⟩ := List.mem_map.1 hs
    exact isLine_tokenLine t
  · obtain ⟨s, hmem, rfl⟩ := List.mem_map.1 hs
    have hwanted : start ≤ s.start ∧ s.role ≠ .comment := by simpa using (List.mem_filter.1 hmem).2
    exact ix.isLine_statementLine hwanted.2

/-! ## Remarks -/

/-- What the line of a remark reads. -/
def remarkRow (r : Diagnostic) : Text :=
  ofString s!"{r.span.start.line + 1}:{r.span.start.char + 1}: " ++ r.message

variable {d : Dialect} {source : Bytes}

/-- The only part of the source that a remark tells is the name of a symbol. -/
theorem notMem_message {r : Diagnostic} (h : r ∈ (parse d source).diagnostics) :
    .char '\n' ∉ r.message := by
  rw [diagnostics_parse] at h
  rcases List.mem_append.1 h with h | h
  · obtain ⟨span, -, rfl⟩ := List.mem_map.1 h
    exact notMem_ofString (by decide)
  · obtain ⟨redefinition, hmem, hr⟩ := List.mem_filterMap.1 h
    obtain ⟨-, -, row, rfl⟩ := exists_eq_redefinition hr
    obtain ⟨s, s', redefines, hname⟩ := mem_redefinitions_iff.1 hmem
    obtain ⟨kind, n, t, -, ht, hkind, htext⟩ := exists_identifier_of_isDefinition
      (Array.mem_toList_iff.2 (Array.mem_of_getElem? redefines.current)) redefines.definitions.2
    have hbreak : .char '\n' ∉ redefinition.name := by
      intro hmem
      rw [← hname, htext] at hmem
      cases not_isBreak_of_identifier (mem_tokens_of_getElem? ht) hkind _ hmem
    have hlast : OnOneLine s!"\" redefined, previous definition on line {row + 1}" := by
      simp +decide only [onOneLine_append, onOneLine_int]
    simp only [Diagnostic.redefinition, List.mem_append, not_or]
    exact ⟨⟨notMem_ofString (by decide), hbreak⟩, notMem_ofString hlast⟩

theorem isLine_diagnosticLine {r : Diagnostic} (h : r ∈ (parse d source).diagnostics) :
    IsLine (diagnosticLine r) := by
  refine ⟨remarkRow r, ?_, rfl⟩
  have hfront : OnOneLine s!"{r.span.start.line + 1}:{r.span.start.char + 1}: " := by
    simp +decide only [onOneLine_append, onOneLine_int]
  simp only [remarkRow, List.mem_append, not_or]
  exact ⟨notMem_ofString hfront, notMem_message h⟩

/-! ## Listings -/

theorem flatMap_filter_of_nil {α β : Type} {p : α → Bool} {f : α → List β} (xs : List α)
    (h : ∀ a, p a = false → f a = []) : (xs.filter p).flatMap f = xs.flatMap f := by
  induction xs with
  | nil => rfl
  | cons a xs ih =>
    cases ha : p a <;> simp [ha, ih, h]

theorem listing_eq_flatten (ix : SymbolIndex) (start : Nat) :
    ix.listing start =
      (ix.tableLines start ++ (ix.listedDiagnostics start).map diagnosticLine).flatten := by
  have hcomment (s : Statement) (hs : decide (s.role ≠ .comment) = false) :
      ofString (ix.statementLine s) = [] := by
    have hrole : s.role = .comment := by simpa using hs
    simp [statementLine, hrole, ofString]
  have hstatements : (ix.statements.toList.filter fun s => start ≤ s.start ∧ s.role ≠ .comment) =
      (ix.statements.toList.filter (start ≤ ·.start)).filter (·.role ≠ .comment) := by
    simp [List.filter_filter, and_comm]
  rw [tableLines, hstatements, listing, List.flatten_append, ← List.flatMap_def,
    ← List.flatMap_def, List.flatMap_append, List.flatMap_append, List.flatMap_map,
    List.flatMap_map, List.flatMap_map, flatMap_filter_of_nil _ hcomment]

/-- The lines of a listing are those of its tokens, those of its definitions and inclusions, and
those of the remarks that are listed. -/
theorem splitOn_listing (d : Dialect) (source : Bytes) (start : Nat) :
    ((parse d source).listing start).splitOn (.char '\n') =
      ((parse d source).tableLines start).map List.dropLast ++
        ((parse d source).listedDiagnostics start).map remarkRow ++ [[]] := by
  have lines : ∀ line ∈ (parse d source).tableLines start ++
      ((parse d source).listedDiagnostics start).map diagnosticLine, IsLine line := by
    intro line hline
    rcases List.mem_append.1 hline with hline | hline
    · exact isLine_of_mem_tableLines hline
    · obtain ⟨r, hr, rfl⟩ := List.mem_map.1 hline
      exact isLine_diagnosticLine (List.mem_of_mem_filter hr)
  have hrows (r : Diagnostic) : (diagnosticLine r).dropLast = remarkRow r :=
    List.dropLast_concat
  rw [listing_eq_flatten, splitOn_flatten lines, List.map_append, List.map_map]
  simp [Function.comp_def, hrows]

end SymbolIndex

end Asm6502
