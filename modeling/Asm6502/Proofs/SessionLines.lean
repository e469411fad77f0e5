import Asm6502.Proofs.FaultFree
import Asm6502.Proofs.GrowingTexts
import Asm6502.Session
import Mathlib

/-!
# The lines of a session

A session reads its whole text anew with every line. What it holds is at any time the index of the
lines entered since it was last emptied, and the number it gives for a new line divides the tokens
at the place where that line begins: a line never moves, splits or drops a token of the lines before
it.

## Main definitions

- `Session.Step`, `Session.after`: what can be done in a session, and the session behind a sequence
  of steps.
- `Session.Log`: the lines since the session was last emptied.
- `Session.Holds`: the session is over the lines of a log.

## Main statements

- `Session.Holds.perform`, `Session.Holds.after`: a session goes with its log.
- `Session.added_lines_exact`: what a session holds, and what it makes of a new line.
-/

namespace Asm6502

open Checked (Ensures Succeeds ensures_pure succeeds_pure succeeds_mapM)

namespace Text

/-- A text that is not blank has a field. -/
theorem fields_ne_nil {t : Text} (h : ∃ g ∈ t, g.satisfies isBlank = false) : fields t ≠ [] := by
  induction t with
  | nil => simp at h
  | cons g t ih =>
    rw [fields, List.splitOnP_cons_eq_if_modifyHead]
    split
    · -- a blank in front opens no field
      rename_i hblank
      obtain ⟨g', hg', hg'blank⟩ := h
      have hmem : g' ∈ t := (List.mem_cons.1 hg').resolve_left fun heq => by simp_all
      exact ih ⟨g', hmem, hg'blank⟩
    · obtain ⟨word, words, hsplit⟩ :=
        List.exists_cons_of_ne_nil (List.splitOnP_ne_nil (Glyph.satisfies isBlank) t)
      simp [hsplit]

end Text

namespace Session

/-! ## Steps -/

/-- What can be done in a session: a line is added, a line is completed, or a command is given. -/
inductive Step where
  | add (line : Bytes)
  | complete (line : Text)
  | command (line : Text) (nonblank : ∃ g ∈ line, g.satisfies Text.isBlank = false)

/-- The session behind a step. Completion only looks at it. -/
def perform (s : Session) : Step → Checked Session
  | .add line => pure (s.add line).1
  | .complete _ => pure s
  | .command line _ => Outcome.session <$> s.command line

/-- The session behind a sequence of steps. -/
def after (s : Session) (steps : List Step) : Checked Session :=
  steps.foldlM perform s

/-! ## What is entered -/

/-- The dialect in which a command makes a session start again, if it does so. -/
def restart? (d : Dialect) (line : Text) : Option Dialect :=
  match Text.fields line with
  | [] => none
  | verb :: operands =>
    if verb = Text.ofString ":reset" then some d
    else if verb = Text.ofString ":dialect" then
      match operands with
      | [name] => Dialect.ofName? name
      | _ => none
    else none

/-- The lines entered since a session was last emptied, and the dialect it is in. -/
structure Log where
  dialect : Dialect
  lines : List Bytes := []

namespace Log

/-- The lines, each with a line feed behind it. -/
def text (log : Log) : Bytes :=
  log.lines.flatMap (· ++ [0x0A])

/-- The log behind a step. -/
def note (log : Log) : Step → Log
  | .add line => { log with lines := log.lines ++ [line] }
  | .complete _ => log
  | .command line _ => ((restart? log.dialect line).map fun d => { dialect := d }).getD log

theorem text_note_add (log : Log) (line : Bytes) :
    (log.note (.add line)).text = log.text ++ line ++ [0x0A] := by
  simp [text, note]

theorem wholeLines_text (log : Log) : WholeLines log.text := by
  rcases List.eq_nil_or_concat' log.lines with hlines | ⟨lines, line, hlines⟩
  · simpa [text, hlines] using wholeLines_nil
  · have htext : log.text = lines.flatMap (· ++ [0x0A]) ++ (line ++ [0x0A]) := by
      simp [text, hlines]
    rw [htext]
    exact wholeLines_append_line _ line

end Log

/-! ## What is held -/

/-- The session is over the lines of the log. -/
structure Holds (s : Session) (log : Log) : Prop where
  dialect : s.dialect = log.dialect
  source : s.source = log.text
  index : s.index = .parse log.dialect log.text

theorem holds_start (d : Dialect) : (start d).Holds { dialect := d } :=
  ⟨rfl, rfl, rfl⟩

theorem succeeds_symbolLines {s : Session} (sound : s.index.Sound) : Succeeds s.symbolLines := by
  refine (succeeds_mapM fun name _ => ?_).bind fun _ _ => succeeds_pure _
  exact (sound.lookup name).bind fun _ _ => succeeds_pure _

/-- A command leaves the session as it is or starts it again. -/
theorem ensures_command {s : Session} (sound : s.index.Sound) {line : Text}
    (hfields : Text.fields line ≠ []) : Ensures (s.command line) fun outcome =>
      outcome.session = ((restart? s.dialect line).map start).getD s := by
  obtain ⟨verb, operands, hfields⟩ := List.exists_cons_of_ne_nil hfields
  have restart := restart?.eq_def s.dialect line
  simp only [hfields] at restart
  rw [command, hfields]
  simp only [beq_iff_eq]
  split_ifs with quit reset dialect symbols
  · rw [restart, quit]
    exact ensures_pure rfl
  · rw [restart, if_pos reset]
    exact ensures_pure rfl
  · rw [restart, if_neg reset, if_pos dialect]
    rcases operands with _ | ⟨name, _ | ⟨other, operands⟩⟩
    · exact ensures_pure rfl
    · dsimp only
      cases Dialect.ofName? name with
      | none => exact ensures_pure rfl
      | some d => exact ensures_pure rfl
    · exact ensures_pure rfl
  · rw [restart, symbols]
    exact (succeeds_symbolLines sound).bind fun _ _ => ensures_pure rfl
  · rw [restart, if_neg reset, if_neg dialect]
    exact ensures_pure rfl

variable {s : Session} {log : Log}

/-- A step keeps the session together with its log. -/
theorem Holds.perform (h : s.Holds log) (step : Step) :
    Ensures (s.perform step) fun s' => s'.Holds (log.note step) := by
  cases step with
  | add line =>
    refine ensures_pure ⟨h.dialect, ?_, ?_⟩
    · rw [Log.text_note_add, ← h.source]
      rfl
    · rw [Log.text_note_add, ← h.source]
      exact congrArg (SymbolIndex.parse · _) h.dialect
  | complete line => exact ensures_pure h
  | command line nonblank =>
    have sound : s.index.Sound := h.index ▸ SymbolIndex.sound_parse _ _
    refine (ensures_command sound (Text.fields_ne_nil nonblank)).map fun outcome houtcome => ?_
    rw [houtcome, h.dialect, Log.note]
    cases restart? log.dialect line with
    | none => exact h
    | some d => exact holds_start d

/-- So does a sequence of steps. -/
theorem Holds.after (h : s.Holds log) (steps : List Step) :
    Ensures (s.after steps) fun s' => s'.Holds (steps.foldl Log.note log) := by
  induction steps generalizing s log with
  | nil => exact ensures_pure h
  | cons step steps ih =>
    rw [Session.after, List.foldlM_cons]
    exact (h.perform step).bind fun s' hs' => ih hs'

/-! ## Another line -/

theorem Holds.index_add (h : s.Holds log) (line : Bytes) :
    (s.add line).1.index = .parse log.dialect (log.text ++ (line ++ [0x0A])) := by
  rw [← h.dialect, ← h.source, ← List.append_assoc]
  rfl

theorem Holds.number_add (h : s.Holds log) (line : Bytes) :
    (s.add line).2 = (SymbolIndex.parse log.dialect log.text).tokens.size := by
  rw [← h.index]
  rfl

/-- The number that is given for a line divides the tokens at the place where it begins. -/
theorem Holds.exists_tokens_add (h : s.Holds log) (line : Bytes) : ∃ old later,
    (s.add line).1.index.tokens.toList = old ++ later ∧ old.length = (s.add line).2 ∧
      (∀ t ∈ old, t.offset < log.text.length) ∧ ∀ t ∈ later, log.text.length ≤ t.offset := by
  rw [h.index_add line, h.number_add line]
  exact SymbolIndex.exists_tokens_append log.dialect log.wholeLines_text (line ++ [0x0A])

/-- The text of a session is the lines entered since it was last emptied, and its index is that of
the text. Another line leaves the tokens that start before it at their indices, and their number is
what is given for the line. They stay the same, but for a literal left open at the end, which goes
on up to the next quote of its kind. -/
theorem added_lines_exact (d : Dialect) (steps : List Step) :
    let log := steps.foldl Log.note { dialect := d }
    ∃ s, (start d).after steps = .ok s ∧ s.dialect = log.dialect ∧
      s.index = .parse log.dialect log.text ∧
      ∀ line : Bytes,
        let tokens := (s.add line).1.index.tokens.toList
        let n := (s.add line).2
        n = tokens.countP (·.offset < log.text.length) ∧
        tokens.take n = tokens.filter (·.offset < log.text.length) ∧
        ((∀ ts t q, ¬ s.index.EndsOpen ts t q) → tokens.take n = s.index.tokens.toList) ∧
        ∀ ts t q, s.index.EndsOpen ts t q → tokens.take n = ts ++
          [{ t with text := t.text ++ (Text.decode (line ++ [0x0A])).takeWhile (· != q) }] := by
  intro log
  obtain ⟨s, hs, held⟩ := (holds_start d).after steps
  refine ⟨s, hs, held.dialect, held.index, fun line => ?_⟩
  obtain ⟨old, later, htokens, hlength, hold, hlater⟩ := held.exists_tokens_add line
  have take : (s.add line).1.index.tokens.toList.take (s.add line).2 = old := by
    rw [htokens]
    exact List.take_left' hlength
  refine ⟨?_, ?_, fun closed => ?_, fun ts t q ends => ?_⟩
  · rw [htokens, List.countP_append, List.countP_eq_length.2 (by simpa using hold),
      List.countP_eq_zero.2 (by simpa using hlater), hlength, Nat.add_zero]
  · rw [take, htokens, List.filter_append, List.filter_eq_self.2 (by simpa using hold),
      List.filter_eq_nil_iff.2 (by simpa using hlater), List.append_nil]
  · rw [held.index] at closed
    rw [held.index_add line, held.number_add line, held.index]
    exact SymbolIndex.take_tokens_append log.wholeLines_text closed (line ++ [0x0A])
  · rw [held.index] at ends
    rw [held.index_add line, held.number_add line]
    exact ends.take_tokens_append log.wholeLines_text (line ++ [0x0A])

/-- A change of the dialect, and a line that leaves a literal open. -/
def literalSteps : List Step :=
  [.add [0x61], .command (Text.ofString ":dialect kick") ⟨.char ':', by decide⟩,
    .complete [.char 'l'], .add [0x22, 0x61]]

theorem restart?_dialect_kick (d : Dialect) :
    restart? d (Text.ofString ":dialect kick") = some .kick := by
  have hfields : Text.fields (Text.ofString ":dialect kick") =
      [Text.ofString ":dialect", Text.ofString "kick"] := by
    cbv
  have hname : Dialect.ofName? (Text.ofString "kick") = some .kick := by
    cbv
  rw [restart?, hfields]
  exact hname

/-- The literal goes on in the line that closes it, and stays the same from then on. -/
theorem added_lines_exact_open_literal :
    let string : Token := ⟨.string, 1, ⟨0, 1⟩, [.char 'a', .char '\n'], true⟩
    let grown : Token := { string with text := [.char 'a', .char '\n', .char 'b'] }
    (∃ s, (start .acme).after literalSteps = .ok s ∧ s.dialect = .kick ∧
      s.index.EndsOpen [] string (.char '"') ∧ (s.add [0x62, 0x22]).2 = 1 ∧
      (s.add [0x62, 0x22]).1.index.tokens.toList.take 1 = [grown]) ∧
    ∃ s, (start .acme).after (literalSteps ++ [.add [0x62, 0x22]]) = .ok s ∧
      (∀ ts t q, ¬ s.index.EndsOpen ts t q) ∧ (s.add [0x22]).2 = 2 ∧
      (s.add [0x22]).1.index.tokens.toList.take 2 =
        [grown, ⟨.lineBreak, 5, ⟨1, 2⟩, [.char '\n'], false⟩] := by
  intro string grown
  have hlog : literalSteps.foldl Log.note { dialect := .acme } = ⟨.kick, [[0x22, 0x61]]⟩ := by
    simp [literalSteps, Log.note, restart?_dialect_kick]
  have hopen : (SymbolIndex.parse .kick [0x22, 0x61, 0x0A]).tokens.toList = [string] := by
    have hlexemes : SymbolIndex.lexemes .kick [0x22, 0x61, 0x0A] =
        [.skipped [.char '"'], .unclosed [.char 'a', .char '\n']] := by
      cbv
    rw [SymbolIndex.tokens_parse, hlexemes]
    rfl
  have hclosed : (SymbolIndex.parse .kick [0x22, 0x61, 0x0A, 0x62, 0x22, 0x0A]).tokens.toList =
      [grown, ⟨.lineBreak, 5, ⟨1, 2⟩, [.char '\n'], false⟩] := by
    have hlexemes : SymbolIndex.lexemes .kick [0x22, 0x61, 0x0A, 0x62, 0x22, 0x0A] =
        [.skipped [.char '"'], .token .string [.char 'a', .char '\n', .char 'b'],
          .skipped [.char '"'], .token .lineBreak [.char '\n']] := by
      cbv
    rw [SymbolIndex.tokens_parse, hlexemes]
    rfl
  constructor
  · obtain ⟨s, hs, hdialect, hindex, hadd⟩ := added_lines_exact .acme literalSteps
    rw [hlog] at hdialect hindex
    have ends : s.index.EndsOpen [] string (.char '"') := by
      rw [hindex]
      refine ⟨hopen, rfl, .inr rfl, by decide, [], ?_, rfl⟩
      change Text.decode [0x22, 0x61, 0x0A] = _
      cbv
    have hn : (s.add [0x62, 0x22]).2 = 1 := by
      change s.index.tokens.size = 1
      rw [← Array.length_toList, ends.tokens]
      rfl
    have hrun : (Text.decode ([0x62, 0x22] ++ [0x0A])).takeWhile (· != .char '"') =
        [.char 'b'] := by
      cbv
    obtain ⟨-, -, -, grows⟩ := hadd [0x62, 0x22]
    have grows := grows [] string (.char '"') ends
    rw [hn, hrun] at grows
    exact ⟨s, hs, hdialect, ends, hn, grows⟩
  · obtain ⟨s, hs, -, hindex, hadd⟩ :=
      added_lines_exact .acme (literalSteps ++ [.add [0x62, 0x22]])
    rw [List.foldl_append, hlog] at hindex
    have htokens : s.index.tokens.toList = _ := hindex ▸ hclosed
    have hn : (s.add [0x22]).2 = 2 := by
      change s.index.tokens.size = 2
      rw [← Array.length_toList, htokens]
      rfl
    have closed : ∀ ts t q, ¬ s.index.EndsOpen ts t q := by
      intro ts t q ends
      have hlast := congrArg List.getLast? (ends.tokens.symm.trans htokens)
      simp only [List.getLast?_concat, List.getLast?_cons_cons, List.getLast?_singleton,
        Option.some.injEq] at hlast
      exact absurd ends.kind (by simp [hlast])
    obtain ⟨-, -, stays, -⟩ := hadd [0x22]
    have stays := stays closed
    rw [hn, htokens] at stays
    exact ⟨s, hs, closed, hn, stays⟩

end Session

end Asm6502
