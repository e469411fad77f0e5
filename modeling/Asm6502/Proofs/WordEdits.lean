import Asm6502.Proofs.LineFronts
import Asm6502.Proofs.Serving
import Asm6502.Proofs.Suggestions

/-!
# Replacing the word in front of the cursor

A suggestion replaces the word in front of the cursor. Where the word starts is found by going back
from the cursor by the number of its bytes, although columns are counted in UTF-16 units. This is
right for every line, since a word has ASCII characters only, and since a cursor inside a surrogate
pair has no word in front of it.

## Main definitions

- `Completion.IsWord`: what can be completed.
- `Position.Within`: a position on a line of a text.
- `Completion.Replaces`: a suggestion that replaces the word and nothing else.

## Main statements

- `Completion.exists_append_word`: the word ends the front of the line.
- `Text.units_takeUnits_of_eq_append`: where the front of a line ends.
- `SymbolIndex.replaces_of_completeAt`: what the suggestions at a position replace.
-/

namespace Asm6502

namespace Glyph

/-- Whether the glyph is an ASCII character. -/
def isAscii (g : Glyph) : Bool :=
  g.satisfies (·.toNat < 0x80)

theorem units_of_isAscii {g : Glyph} (h : g.isAscii = true) : g.units = 1 := by
  cases g with
  | char c =>
    have hc : c.toNat < 0x80 := by simpa [isAscii, satisfies] using h
    exact if_pos (by omega)
  | stray b => rfl

theorem width_of_isAscii {g : Glyph} (h : g.isAscii = true) : g.width = 1 := by
  cases g with
  | char c =>
    have hc : c.toNat < 0x80 := by simpa [isAscii, satisfies] using h
    exact Char.utf8Size_eq_one_iff.2 (UInt32.le_iff_toNat_le.2 (Nat.le_of_lt_succ hc))
  | stray b => rfl

end Glyph

namespace Completion

/-! ## Words -/

theorem toNat_of_isWordPart {c : Char} (h : isWordPart (.char c) = true) :
    48 ≤ c.toNat ∧ c.toNat ≤ 57 ∨ 65 ≤ c.toNat ∧ c.toNat ≤ 90 ∨ c.toNat = 95 ∨
      97 ≤ c.toNat ∧ c.toNat ≤ 122 := by
  rcases Bool.or_eq_true_iff.1 h with h | h
  · simp [Char.isAlphanum, Char.isAlpha, Char.isUpper, Char.isLower, Char.isDigit,
      UInt32.le_iff_toNat_le, ← Char.toNat_val] at h ⊢
    omega
  · simp [beq_iff_eq.1 h]

theorem isAscii_of_isWordPart {g : Glyph} (h : isWordPart g = true) : g.isAscii = true := by
  cases g with
  | char c =>
    have := toNat_of_isWordPart h
    exact decide_eq_true (by omega)
  | stray b => cases h

theorem isSigil_iff {g : Glyph} :
    isSigil g = true ↔ g = .char '!' ∨ g = .char '.' ∨ g = .char '#' := by
  simp [isSigil, Glyph.is, or_assoc]

theorem isAscii_of_isSigil {g : Glyph} (h : isSigil g = true) : g.isAscii = true := by
  rcases isSigil_iff.1 h with rfl | rfl | rfl <;> rfl

/-- Letters, digits and underscores, on their own or behind a sigil. -/
inductive IsWord : Text → Prop
  | plain {run : Text} (parts : ∀ g ∈ run, isWordPart g = true) : IsWord run
  | marked {sigil : Glyph} {run : Text} (mark : isSigil sigil = true)
      (parts : ∀ g ∈ run, isWordPart g = true) : IsWord (sigil :: run)

theorem IsWord.isAscii {w : Text} (h : IsWord w) {g : Glyph} (hg : g ∈ w) : g.isAscii = true := by
  cases h with
  | plain parts => exact isAscii_of_isWordPart (parts g hg)
  | marked mark parts =>
    rcases List.mem_cons.1 hg with rfl | hg
    · exact isAscii_of_isSigil mark
    · exact isAscii_of_isWordPart (parts g hg)

/-- The word at the end of a line ends the line. -/
theorem exists_append_word (front : Text) : ∃ rest, front = rest ++ word front ∧
    IsWord (word front) := by
  have parts : ∀ g ∈ (front.reverse.takeWhile isWordPart).reverse, isWordPart g = true := by
    intro g hg
    exact List.mem_takeWhile_imp (List.mem_reverse.1 hg)
  have whole : front = (front.reverse.dropWhile isWordPart).reverse ++
      (front.reverse.takeWhile isWordPart).reverse := by
    rw [← List.reverse_append, List.takeWhile_append_dropWhile, List.reverse_reverse]
  unfold word
  cases hrest : front.reverse.dropWhile isWordPart with
  | nil =>
    rw [hrest] at whole
    exact ⟨[], by simpa using whole, by simpa using IsWord.plain parts⟩
  | cons g rest =>
    rw [hrest] at whole
    cases hg : isSigil g with
    | false =>
      exact ⟨rest.reverse ++ [g], by simpa [hg] using whole, by simpa [hg] using .plain parts⟩
    | true =>
      exact ⟨rest.reverse, by simpa [hg] using whole, by simpa [hg] using .marked hg parts⟩

end Completion

namespace Text

/-! ## The front of a line -/

theorem units_append (s t : Text) : units (s ++ t) = units s + units t := by
  induction s with
  | nil => simp [units]
  | cons g s ih =>
    simp only [units, List.cons_append, List.foldr_cons] at ih ⊢
    omega

theorem size_eq_units {t : Text} (h : ∀ g ∈ t, g.isAscii = true) : t.size = t.units := by
  induction t with
  | nil => rfl
  | cons g t ih =>
    have hg := h g List.mem_cons_self
    have ht := ih fun x hx => h x (List.mem_cons_of_mem g hx)
    simp only [units, size, List.foldr_cons] at ht ⊢
    rw [Glyph.units_of_isAscii hg, Glyph.width_of_isAscii hg, ht]

theorem exists_takeUnits_append (n : Int) (t : Text) : ∃ back, t = takeUnits n t ++ back := by
  fun_induction takeUnits n t with
  | case1 n => exact ⟨[], rfl⟩
  | case2 n g t hn => exact ⟨g :: t, rfl⟩
  | case3 n g t hn ih =>
    obtain ⟨back, hback⟩ := ih
    exact ⟨back, congrArg (g :: ·) hback⟩

theorem le_units_takeUnits {n : Int} {t : Text} (h : n ≤ t.units) :
    n ≤ (takeUnits n t).units := by
  fun_induction takeUnits n t with
  | case1 n => exact h
  | case2 n g t hn => simpa [units] using hn
  | case3 n g t hn ih =>
    simp only [units, List.foldr_cons] at h ih ⊢
    omega

/-- Without its last character the front of a line ends before the column. -/
theorem units_lt_of_takeUnits_eq {n : Int} {t s : Text} {g : Glyph}
    (h : takeUnits n t = s ++ [g]) : s.units < n := by
  fun_induction takeUnits n t generalizing s with
  | case1 n => simp at h
  | case2 n x t hn => simp at h
  | case3 n x t hn ih =>
    cases s with
    | nil => simpa [units] using hn
    | cons y s =>
      obtain ⟨rfl, hs⟩ := List.cons.inj h
      have := ih hs
      simp only [units, List.foldr_cons] at this ⊢
      omega

/-- The front of a line ends at the column if it ends in an ASCII character. A character that the
column divides is not one. -/
theorem units_takeUnits_of_eq_append {n : Int} {line front : Text} {g : Glyph}
    (hn : n ≤ line.units) (hfront : takeUnits n line = front ++ [g]) (hg : g.isAscii = true) :
    (takeUnits n line).units = n := by
  have least := le_units_takeUnits hn
  have most := units_lt_of_takeUnits_eq hfront
  have last : units [g] = 1 := Glyph.units_of_isAscii hg
  rw [hfront, units_append, last] at least ⊢
  omega

end Text

/-- The position is on a line of the text, from its start to its end. -/
structure Position.Within (pos : Position) (text line : Text) : Prop where
  line_nonneg : 0 ≤ pos.line
  getElem?_lines : (Text.lines text)[pos.line.toNat]? = some line
  char_nonneg : 0 ≤ pos.char
  char_le : pos.char ≤ line.units

namespace Text

variable {text line : Text} {pos : Position}

theorem frontOfLine_of_line {n : Int} (hn : 0 ≤ n) (hlines : (lines text)[n.toNat]? = some line)
    (char : Int) : text.frontOfLine ⟨n, char⟩ = takeUnits char line := by
  rw [frontOfLine, if_neg (Int.not_lt.2 hn), hlines]
  rfl

/-- The word in front of the cursor and what surrounds it on the line. -/
theorem exists_line_eq_word (h : pos.Within text line)
    (hword : Completion.word (text.frontOfLine pos) ≠ []) :
    ∃ front back, line = front ++ Completion.word (text.frontOfLine pos) ++ back ∧
      text.frontOfLine pos = front ++ Completion.word (text.frontOfLine pos) ∧
      (front ++ Completion.word (text.frontOfLine pos)).units = pos.char := by
  obtain ⟨front, hfront, isWord⟩ := Completion.exists_append_word (text.frontOfLine pos)
  have htake : text.frontOfLine pos = takeUnits pos.char line :=
    frontOfLine_of_line h.line_nonneg h.getElem?_lines pos.char
  generalize Completion.word (text.frontOfLine pos) = word at hword hfront isWord ⊢
  obtain ⟨back, hback⟩ := exists_takeUnits_append pos.char line
  rw [← htake, hfront] at hback
  refine ⟨front, back, hback, hfront, ?_⟩
  have last : takeUnits pos.char line = (front ++ word.dropLast) ++ [word.getLast hword] := by
    rw [← htake, hfront, List.append_assoc, List.dropLast_append_getLast]
  rw [← hfront, htake]
  exact units_takeUnits_of_eq_append h.char_le last (isWord.isAscii (List.getLast_mem hword))

end Text

namespace Completion

/-- Accepting the suggestion replaces the word and nothing else. The edit ends at the cursor, what
it leaves standing in front of it is the front of the line without the word, and the label goes on
from the word, or from the word in lower case if it is that of an instruction. -/
structure Replaces (text line word : Text) (pos : Position) (edit : Span) (s : Suggestion) :
    Prop where
  stop_eq : edit.stop = pos
  start_line : edit.start.line = pos.line
  start_nonneg : 0 ≤ edit.start.char
  start_le : edit.start.char ≤ pos.char
  front : text.frontOfLine edit.start ++ word = text.frontOfLine pos
  /-- On the line the edit covers the characters of the word. -/
  extent : ∃ before behind, line = before ++ word ++ behind ∧
    before.units = edit.start.char ∧ (before ++ word).units = pos.char
  label : s.label.startsWith word = true ∨ s.kind = .instruction ∧
    s.label.startsWith (Text.ofString (Text.lowercase word.shown)) = true

theorem Suggests.startsWith_label {ix : SymbolIndex} {word : Text} {s : Suggestion}
    (h : Suggests ix word s) : s.label.startsWith word = true ∨ s.kind = .instruction ∧
      s.label.startsWith (Text.ofString (Text.lowercase word.shown)) = true := by
  cases h with
  | keyword known => exact .inl known.startsWith
  | instruction other known =>
    obtain ⟨-, name, -, -, starts⟩ := known
    exact .inr ⟨rfl, starts⟩
  | symbol other entered defined longer => exact .inl longer.2

end Completion

namespace SymbolIndex

open Completion

variable {d : Dialect} {source : Bytes} {line : Text} {pos : Position}

theorem completeAt_parse_eq_ok_iff {list : CompletionList} :
    (parse d source).completeAt pos = .ok list ↔
      suggestions (parse d source) (Completion.word ((Text.decode source).frontOfLine pos)) =
        .ok list.suggestions ∧
      list.replaced = ⟨⟨pos.line,
        pos.char - (Completion.word ((Text.decode source).frontOfLine pos)).size⟩, pos⟩ := by
  refine Checked.bind_eq_ok_iff.trans ⟨?_, ?_⟩
  · rintro ⟨found, hfound, hlist⟩
    cases hlist
    exact ⟨hfound, rfl⟩
  · rintro ⟨hfound, hreplaced⟩
    refine ⟨_, hfound, congrArg Except.ok ?_⟩
    cases list
    cases hreplaced
    rfl

/-- The suggestions at a position replace the word in front of it. -/
theorem replaces_of_completeAt (h : pos.Within (Text.decode source) line) {list : CompletionList}
    (hlist : (parse d source).completeAt pos = .ok list) {s : Suggestion}
    (hs : s ∈ list.suggestions) :
    Replaces (Text.decode source) line (Completion.word ((Text.decode source).frontOfLine pos)) pos
      list.replaced s := by
  obtain ⟨hfound, hreplaced⟩ := completeAt_parse_eq_ok_iff.1 hlist
  obtain ⟨nonempty, suggests⟩ := (mem_of_suggestions hfound).1 hs
  obtain ⟨front, back, hline, hfront, hunits⟩ := Text.exists_line_eq_word h nonempty
  obtain ⟨-, -, isWord⟩ := exists_append_word ((Text.decode source).frontOfLine pos)
  generalize Completion.word ((Text.decode source).frontOfLine pos) = word at *
  -- bytes and columns are the same for the word, so the edit starts where the rest of the line ends
  have hsize : word.size = word.units := Text.size_eq_units fun g hg => isWord.isAscii hg
  have hstart : pos.char - word.size = front.units := by
    rw [Text.units_append] at hunits
    omega
  have hrest : (Text.decode source).frontOfLine ⟨pos.line, front.units⟩ = front := by
    rw [Text.frontOfLine_of_line h.line_nonneg h.getElem?_lines, hline, List.append_assoc,
      Text.takeUnits_units_append]
  rw [hreplaced, hstart]
  exact {
    stop_eq := rfl
    start_line := rfl
    start_nonneg := Int.natCast_nonneg _
    start_le := by simp only; omega
    front := by rw [hrest, hfront]
    extent := ⟨front, back, hline, rfl, hunits⟩
    label := suggests.startsWith_label }

end SymbolIndex

namespace Server

open Completion

/-- A question for suggestions is answered from the text that the document has. -/
theorem exists_completion_answer {settings : Settings} {front : List Message} {r : Request}
    {uri : String} {pos : Position} {held : Held} (back : List Message)
    (goesOn : ∀ m ∈ front, m.closes = false)
    (holds : Holds settings (front.filterMap Message.event?) uri held)
    (asks : r.query? = some (uri, .completion pos)) :
    ∃ (rs : List Reaction) (reaction : Reaction) (list : CompletionList),
      run { settings } (front ++ .request r :: back) = .ok rs ∧
      rs[front.length]? = some reaction ∧
      reaction.sent = [.result (r.id?.getD (.number 0)) (.completion list)] ∧
      held.index.completeAt pos = .ok list := by
  obtain ⟨rs, hrun, follows, -⟩ := ensures_run (.initial settings) (front ++ .request r :: back)
  obtain ⟨reaction, hreaction, hfollows⟩ := follows front (.request r) back rfl goesOn
  obtain ⟨a, ha, hsent⟩ := hfollows.answers r uri (.completion pos) rfl asks
  rw [Store.answer, Store.held_after_iff.2 holds] at ha
  obtain ⟨list, hlist, hpure⟩ := Checked.bind_eq_ok_iff.1 ha
  cases hpure
  exact ⟨rs, reaction, list, hrun, hreaction, hsent, hlist⟩

/-- Suggestions replace the word in front of the cursor and nothing else. So it is in every text,
also if it is not well-formed, and in the answer to every request about an open document. -/
theorem completion_replaces_word :
    (∀ (d : Dialect) (source : Bytes) (pos : Position) (line : Text),
      pos.Within (Text.decode source) line →
      ∃ list : CompletionList, (SymbolIndex.parse d source).completeAt pos = .ok list ∧
        ∀ s ∈ list.suggestions, Replaces (Text.decode source) line
          (word ((Text.decode source).frontOfLine pos)) pos list.replaced s) ∧
    ∀ (settings : Settings) (front back : List Message) (r : Request) (uri : String)
      (pos : Position) (held : Held) (line : Text),
      (∀ m ∈ front, m.closes = false) →
      Holds settings (front.filterMap Message.event?) uri held →
      r.query? = some (uri, .completion pos) →
      pos.Within (Text.decode held.source) line →
      ∃ (rs : List Reaction) (reaction : Reaction) (list : CompletionList),
        run { settings } (front ++ .request r :: back) = .ok rs ∧
        rs[front.length]? = some reaction ∧
        reaction.sent = [.result (r.id?.getD (.number 0)) (.completion list)] ∧
        held.index.completeAt pos = .ok list ∧
        ∀ s ∈ list.suggestions, Replaces (Text.decode held.source) line
          (word ((Text.decode held.source).frontOfLine pos)) pos list.replaced s := by
  refine ⟨fun d source pos line within => ?_, ?_⟩
  · obtain ⟨list, hlist, -⟩ := (SymbolIndex.sound_parse d source).completeAt pos
    exact ⟨list, hlist, fun s hs => SymbolIndex.replaces_of_completeAt within hlist hs⟩
  · intro settings front back r uri pos held line goesOn holds asks within
    obtain ⟨rs, reaction, list, hrun, hreaction, hsent, hlist⟩ :=
      exists_completion_answer back goesOn holds asks
    exact ⟨rs, reaction, list, hrun, hreaction, hsent, hlist,
      fun s hs => SymbolIndex.replaces_of_completeAt within hlist hs⟩

/-- Behind a character of two units the letter `a` is completed to a mnemonic. -/
theorem completion_replaces_word_astral :
    let opening : Message := .request
      { method := "textDocument/didOpen"
        params? := some (.object [("textDocument", .object
          [("uri", .string "u"), ("version", .nat 1), ("text", .string "😀a")])]) }
    let question : Request :=
      { id? := some (.number 7), method := "textDocument/completion"
        params? := some (.object [("textDocument", .object [("uri", .string "u")]),
          ("position", .object [("line", .nat 0), ("character", .nat 3)])]) }
    ∃ (rs : List Reaction) (reaction : Reaction) (list : CompletionList),
      run { settings := {} } [opening, .request question] = .ok rs ∧
      rs[1]? = some reaction ∧
      reaction.sent = [.result (.number 7) (.completion list)] ∧
      ⟨Text.ofString "adc", .instruction⟩ ∈ list.suggestions ∧
      list.replaced = ⟨⟨0, 2⟩, ⟨0, 3⟩⟩ := by
  intro opening question
  let source : Bytes := [0xF0, 0x9F, 0x98, 0x80, 0x61]
  have hevent : opening.event? = some (.opened "u" 1 source) := by cbv
  have goesOn : opening.closes = false := by cbv
  have hdecode : Text.decode source = [.char '😀', .char 'a'] := by cbv
  have within : Position.Within ⟨0, 3⟩ (Text.decode source) [.char '😀', .char 'a'] := by
    rw [hdecode]
    exact ⟨by decide, by decide, by decide, by decide⟩
  have hfront : word ((Text.decode source).frontOfLine ⟨0, 3⟩) = [.char 'a'] := by
    rw [hdecode]
    decide
  obtain ⟨rs, reaction, list, hrun, hreaction, hsent, hlist, replaces⟩ :=
    completion_replaces_word.2 {} [opening] [] question "u" ⟨0, 3⟩ ⟨source, 1, .acme⟩ _
      (by simp [goesOn]) ⟨[], 1, source, [], by simp [hevent], by simp, by cbv⟩ (by cbv) within
  have member : ⟨Text.ofString "adc", .instruction⟩ ∈ list.suggestions := by
    obtain ⟨hfound, -⟩ := SymbolIndex.completeAt_parse_eq_ok_iff.1 hlist
    have known : "adc" ∈ Dialect.instructionSet .acme := by decide
    rw [SymbolIndex.mem_of_suggestions hfound, hfront]
    refine ⟨by simp, .instruction ?_ ⟨by simp [isSigil], "adc", known, rfl, by decide⟩⟩
    rintro (h | ⟨⟨⟩, -⟩)
    obtain ⟨_, _, ⟨⟩, item, hitem, -⟩ := mem_search_iff.1 h
    simp [Keyword.sources] at hitem
  have edit := replaces _ member
  rw [hfront] at edit
  obtain ⟨before, behind, -, hstart, hcursor⟩ := edit.extent
  have hchar : list.replaced.start.char = 2 := by
    have ha : Text.units [.char 'a'] = 1 := rfl
    rw [Text.units_append, ha] at hcursor
    simp only at hcursor
    omega
  refine ⟨rs, reaction, list, hrun, hreaction, hsent, member, ?_⟩
  have hsplit : list.replaced =
      ⟨⟨list.replaced.start.line, list.replaced.start.char⟩, list.replaced.stop⟩ := rfl
  rw [hsplit, hchar, edit.start_line, edit.stop_eq]

end Server

end Asm6502
