import Asm6502.Proofs.LineEndings
import Asm6502.Proofs.LineFronts
import Asm6502.Tool.Report
import Mathlib

/-!
# Reports, byte for byte

What an assembler prints need not be well-formed text. A report is cleaned character by character,
and here this is held against its bytes: lines end at line feeds, a line is trimmed of the UTF-8
forms of blanks, and what is left is one message a line. A line feed is never part of a longer
character, so the messages of a report can be found line by line, and this is all that the laws of
cleaning rest on.

## Main definitions

- `Report.cleanBytes`: cleaning, from bytes to bytes.
- `Report.endedLines`: the lines of a report, in which a carriage return may precede the line feed.
- `Report.Trims`: a line and what is left of it when it is trimmed.
- `Report.lineList`: the lines of a clean report.

## Main statements

- `Text.exists_trim`, `Text.trim_append_append`: what trimming takes away.
- `Report.trims_iff`: a line can be trimmed in one way only.
- `Report.messageBytes_append`: the messages of two reports, one below the other.
- `Report.lineList_cleanBytes`: the lines of a clean report are the messages.
-/

namespace Asm6502

/-! ## Trimming -/

namespace Text

/-- No blank stands at either end. -/
def Trimmed (t : Text) : Prop :=
  (∀ g ∈ t.head?, g.satisfies isBlank = false) ∧ ∀ g ∈ t.getLast?, g.satisfies isBlank = false

theorem trimLeft_append {a t : Text} (ha : ∀ g ∈ a, g.satisfies isBlank = true)
    (ht : ∀ g ∈ t.head?, g.satisfies isBlank = false) : trimLeft (a ++ t) = t := by
  rw [trimLeft, List.dropWhile_append_of_pos ha]
  cases t with
  | nil => rfl
  | cons g t => exact List.dropWhile_cons_of_neg (by simp [ht g rfl])

/-- Blanks around a text are taken away. -/
theorem trim_append_append {a w b : Text} (ha : ∀ g ∈ a, g.satisfies isBlank = true)
    (hw : w.Trimmed) (hb : ∀ g ∈ b, g.satisfies isBlank = true) : trim (a ++ (w ++ b)) = w := by
  cases w with
  | nil =>
    -- there is nothing but blanks
    have hall : ∀ g ∈ a ++ b, g.satisfies isBlank = true := by
      intro g hg
      rcases List.mem_append.1 hg with hg | hg
      · exact ha g hg
      · exact hb g hg
    have hnone : trimLeft (a ++ b ++ []) = [] := trimLeft_append hall (by simp)
    rw [List.append_nil] at hnone
    rw [trim, List.nil_append, hnone]
    rfl
  | cons g w =>
    have hfront : trimLeft (a ++ (g :: w ++ b)) = g :: w ++ b := by
      refine trimLeft_append ha fun x hx => hw.1 x ?_
      simpa using hx
    have hback : trimLeft (b.reverse ++ (g :: w).reverse) = (g :: w).reverse := by
      refine trimLeft_append (fun x hx => hb x (List.mem_reverse.1 hx)) fun x hx => hw.2 x ?_
      rwa [List.head?_reverse] at hx
    rw [trim, hfront, trimRight, List.reverse_append, hback, List.reverse_reverse]

/-- Only blanks are taken away, and none is left at either end. -/
theorem exists_trim (t : Text) : ∃ a b : Text, t = a ++ (trim t ++ b) ∧
    (∀ g ∈ a, g.satisfies isBlank = true) ∧ (∀ g ∈ b, g.satisfies isBlank = true) ∧
    (trim t).Trimmed := by
  have blanks (s : Text) : ∀ g ∈ s.takeWhile (·.satisfies isBlank), g.satisfies isBlank = true :=
    List.all_eq_true.1 List.all_takeWhile
  have plain (s : Text) : ∀ g ∈ (trimLeft s).head?, g.satisfies isBlank = false := by
    intro g hg
    have := List.head?_dropWhile_not (·.satisfies isBlank) s
    rw [trimLeft] at hg
    rw [Option.mem_def.1 hg] at this
    exact this
  have hleft (s : Text) : s = s.takeWhile (·.satisfies isBlank) ++ trimLeft s :=
    List.takeWhile_append_dropWhile.symm
  have hright : trimLeft t =
      trim t ++ ((trimLeft t).reverse.takeWhile (·.satisfies isBlank)).reverse := by
    rw [trim, trimRight, ← List.reverse_append, ← hleft, List.reverse_reverse]
  refine ⟨_, _, (hleft t).trans (congrArg _ hright), blanks t, fun g hg => ?_, fun g hg => ?_,
    fun g hg => ?_⟩
  · exact blanks _ g (List.mem_reverse.1 hg)
  · -- what opens the text in the end opened it when its back was still there
    refine plain t g ?_
    rw [hright]
    simp [List.head?_append, Option.mem_def.1 hg]
  · refine plain (trimLeft t).reverse g ?_
    rwa [trim, trimRight, List.getLast?_reverse] at hg

/-- A return at the end of a line is a blank like any other. -/
theorem trim_append_return (t : Text) : trim (t ++ [.char '\r']) = trim t := by
  obtain ⟨a, b, ht, ha, hb, trimmed⟩ := exists_trim t
  have hback : ∀ g ∈ b ++ [.char '\r'], g.satisfies isBlank = true := by
    intro g hg
    rcases List.mem_append.1 hg with hg | hg
    · exact hb g hg
    · rw [List.mem_singleton.1 hg]
      decide
  calc trim (t ++ [.char '\r'])
    _ = trim (a ++ (trim t ++ (b ++ [.char '\r']))) := by
      rw [← List.append_assoc, ← List.append_assoc, List.append_assoc a, ← ht]
    _ = trim t := trim_append_append ha trimmed hback

/-! ## Characters among bytes -/

/-- No character has its UTF-8 form start with a continuation byte. -/
theorem exists_utf8EncodeChar_eq (c : Char) :
    ∃ lead tail, String.utf8EncodeChar c = lead :: tail ∧ tailBits? lead = none := by
  obtain ⟨lead, tail, heq, hsequence⟩ := exists_sequence?_utf8EncodeChar c
  refine ⟨lead, tail, heq, ?_⟩
  unfold tailBits?
  split
  · rename_i hlead
    simp [sequence?, hlead.2, Nat.not_lt.2 hlead.1] at hsequence
  · rfl

/-- A character is found behind whatever bytes there are. -/
theorem decode_append_utf8EncodeChar_append (front : Bytes) (c : Char) (more : Bytes) :
    decode (front ++ (String.utf8EncodeChar c ++ more)) =
      decode front ++ .char c :: decode more := by
  obtain ⟨lead, tail, heq, hlead⟩ := exists_utf8EncodeChar_eq c
  rw [← decode_utf8EncodeChar_append, heq, List.cons_append, decode_append_cons hlead]

theorem decode_flatMap_append (cs : List Char) (more : Bytes) :
    decode (cs.flatMap String.utf8EncodeChar ++ more) = cs.map .char ++ decode more := by
  induction cs with
  | nil => rfl
  | cons c cs ih =>
    rw [List.flatMap_cons, List.append_assoc, decode_utf8EncodeChar_append, ih]
    rfl

theorem decode_append_flatMap (front : Bytes) (cs : List Char) :
    decode (front ++ cs.flatMap String.utf8EncodeChar) = decode front ++ cs.map .char := by
  cases cs with
  | nil => simp
  | cons c cs =>
    have hrest : decode (cs.flatMap String.utf8EncodeChar) = cs.map .char := by
      simpa using decode_flatMap_append cs []
    rw [List.flatMap_cons, decode_append_utf8EncodeChar_append, hrest]
    rfl

end Text

namespace Report

open Text (isBlank decode)

/-! ## Lines -/

/-- The bytes of the cleaned text. -/
def cleanBytes (x : Bytes) : Bytes :=
  (clean (decode x)).bytes

/-- A line without the carriage return at its end, if there is one. -/
def dropReturn (line : Bytes) : Bytes :=
  if line.getLast? = some 0x0D then line.dropLast else line

/-- The lines of a report. A line ends with a line feed, or with a carriage return and a line feed.
The last one is what follows the last line feed. -/
def endedLines (x : Bytes) : List Bytes :=
  (x.splitOn 0x0A).dropLast.map dropReturn ++ (x.splitOn 0x0A).getLast?.toList

/-- A byte string of blanks. -/
def Blanks (bs : Bytes) : Prop :=
  ∃ cs : List Char, (∀ c ∈ cs, isBlank c = true) ∧ bs = cs.flatMap String.utf8EncodeChar

/-- A byte string that no blank opens or ends. -/
def Plain (bs : Bytes) : Prop :=
  ∀ c, isBlank c = true → ¬ String.utf8EncodeChar c <+: bs ∧ ¬ String.utf8EncodeChar c <:+ bs

/-- What is left of `line` without the blanks at its ends is `rest`. -/
def Trims (line rest : Bytes) : Prop :=
  ∃ front back, line = front ++ (rest ++ back) ∧ Blanks front ∧ Blanks back ∧ Plain rest

/-- The lines of a clean report. An empty one has none. -/
def lineList (x : Bytes) : List Bytes :=
  if x = [] then [] else x.splitOn 0x0A

/-- A report is a single line, or a line in front of another report. -/
@[elab_as_elim] theorem line_induction {P : Bytes → Prop} (x : Bytes)
    (last : ∀ line, 0x0A ∉ line → P line)
    (step : ∀ line rest, 0x0A ∉ line → P rest → P (line ++ 0x0A :: rest)) : P x := by
  induction hn : x.length using Nat.strong_induction_on generalizing x with
  | _ n ih =>
    by_cases hmem : 0x0A ∈ x
    · obtain ⟨line, rest, rfl, hline⟩ := List.eq_append_cons_of_mem hmem
      refine step line rest hline (ih rest.length ?_ rest rfl)
      simp only [List.length_append, List.length_cons] at hn
      omega
    · exact last x hmem

theorem splitOn_append_cons {line : Bytes} (h : 0x0A ∉ line) (rest : Bytes) :
    (line ++ 0x0A :: rest).splitOn 0x0A = line :: rest.splitOn 0x0A := by
  rw [List.splitOn_append_cons_self, List.splitOn_eq_singleton h, List.singleton_append]

theorem notMem_of_mem_splitOn {x line : Bytes} (h : line ∈ x.splitOn 0x0A) : 0x0A ∉ line := by
  induction x using line_induction with
  | last x hx =>
    rw [List.splitOn_eq_singleton hx, List.mem_singleton] at h
    exact h ▸ hx
  | step front rest hfront ih =>
    rw [splitOn_append_cons hfront, List.mem_cons] at h
    rcases h with rfl | h
    · exact hfront
    · exact ih h

/-! ## Trimmed lines -/

/-- The line without the blanks at its ends. -/
def trimBytes (line : Bytes) : Bytes :=
  (Text.trim (decode line)).bytes

theorem decode_trimBytes (line : Bytes) : decode (trimBytes line) = Text.trim (decode line) := by
  obtain ⟨a, b, hline, -⟩ := Text.exists_trim (decode line)
  exact Text.decode_bytes_of_append (hline.trans (List.append_assoc ..).symm)

/-- A text has no blank at its ends exactly if its bytes have none. -/
theorem trimmed_decode_iff {bs : Bytes} : (decode bs).Trimmed ↔ Plain bs := by
  constructor
  · rintro ⟨hhead, hlast⟩ c hc
    constructor
    · rintro ⟨more, rfl⟩
      rw [Text.decode_utf8EncodeChar_append] at hhead
      exact absurd (hhead (.char c) rfl) (by simp [Glyph.satisfies, hc])
    · rintro ⟨front, rfl⟩
      have hdecode := Text.decode_append_utf8EncodeChar_append front c []
      rw [List.append_nil] at hdecode
      rw [hdecode] at hlast
      exact absurd (hlast (.char c) (by simp)) (by simp [Glyph.satisfies, hc])
  · intro plain
    have hbytes := Text.bytes_decode bs
    constructor
    · intro g hg
      obtain ⟨t, ht⟩ := List.head?_eq_some_iff.1 hg
      by_contra hblank
      cases g with
      | char c =>
        refine (plain c (by simpa [Glyph.satisfies] using hblank)).1 ⟨Text.bytes t, ?_⟩
        rw [← hbytes, ht]
        rfl
      | stray b => simp [Glyph.satisfies] at hblank
    · intro g hg
      obtain ⟨t, ht⟩ := List.getLast?_eq_some_iff.1 hg
      by_contra hblank
      cases g with
      | char c =>
        refine (plain c (by simpa [Glyph.satisfies] using hblank)).2 ⟨Text.bytes t, ?_⟩
        rw [← hbytes, ht, Text.bytes_append]
        simp [Glyph.bytes]
      | stray b => simp [Glyph.satisfies] at hblank

theorem Blanks.append {a b : Bytes} (ha : Blanks a) (hb : Blanks b) : Blanks (a ++ b) := by
  obtain ⟨cs, hcs, rfl⟩ := ha
  obtain ⟨ds, hds, rfl⟩ := hb
  exact ⟨cs ++ ds, List.forall_mem_append.2 ⟨hcs, hds⟩, by simp⟩

theorem blanks_nil : Blanks [] :=
  ⟨[], by simp, rfl⟩

theorem blanks_bytes {t : Text} (h : ∀ g ∈ t, g.satisfies isBlank = true) : Blanks t.bytes := by
  induction t with
  | nil => exact blanks_nil
  | cons g t ih =>
    have hrest := ih fun x hx => h x (List.mem_cons_of_mem g hx)
    cases g with
    | char c =>
      have hc : isBlank c = true := h _ List.mem_cons_self
      exact .append ⟨[c], by simp [hc], by simp [Glyph.bytes]⟩ hrest
    | stray b => exact absurd (h _ List.mem_cons_self) (by simp [Glyph.satisfies])

/-- A line can be trimmed, and in one way only. -/
theorem trims_iff {line rest : Bytes} : Trims line rest ↔ rest = trimBytes line := by
  constructor
  · rintro ⟨_, _, rfl, ⟨cs, hcs, rfl⟩, ⟨ds, hds, rfl⟩, plain⟩
    have blanks {es : List Char} (hes : ∀ c ∈ es, isBlank c = true) :
        ∀ g ∈ es.map Glyph.char, g.satisfies isBlank = true := by
      intro g hg
      obtain ⟨c, hc, rfl⟩ := List.mem_map.1 hg
      exact hes c hc
    rw [trimBytes, Text.decode_flatMap_append, Text.decode_append_flatMap,
      Text.trim_append_append (blanks hcs) (trimmed_decode_iff.2 plain) (blanks hds),
      Text.bytes_decode]
  · rintro rfl
    obtain ⟨a, b, hline, ha, hb, trimmed⟩ := Text.exists_trim (decode line)
    refine ⟨a.bytes, b.bytes, ?_, blanks_bytes ha, blanks_bytes hb, ?_⟩
    · rw [trimBytes, ← Text.bytes_append, ← Text.bytes_append, ← hline, Text.bytes_decode]
    · rwa [← trimmed_decode_iff, decode_trimBytes]

theorem trims_trimBytes (line : Bytes) : Trims line (trimBytes line) :=
  trims_iff.2 rfl

@[simp] theorem trimBytes_append_return (line : Bytes) :
    trimBytes (line ++ [0x0D]) = trimBytes line := by
  have hdecode : decode (line ++ [0x0D]) = decode line ++ [.char '\r'] :=
    Text.decode_append_flatMap line ['\r']
  rw [trimBytes, hdecode, Text.trim_append_return, trimBytes]

@[simp] theorem trimBytes_dropReturn (line : Bytes) :
    trimBytes (dropReturn line) = trimBytes line := by
  unfold dropReturn
  split
  · rename_i hlast
    obtain ⟨front, rfl⟩ := List.getLast?_eq_some_iff.1 hlast
    simp
  · rfl

@[simp] theorem trimBytes_trimBytes (line : Bytes) :
    trimBytes (trimBytes line) = trimBytes line := by
  obtain ⟨-, -, -, -, -, plain⟩ := trims_trimBytes line
  exact (trims_iff.1 ⟨[], [], by simp, blanks_nil, blanks_nil, plain⟩).symm

theorem notMem_trimBytes {line : Bytes} {b : UInt8} (h : b ∉ line) : b ∉ trimBytes line := by
  obtain ⟨front, back, hline, -⟩ := trims_trimBytes line
  intro hb
  refine h ?_
  rw [hline]
  simp [hb]

/-! ## Messages -/

/-- The messages of a report as bytes. -/
def messageBytes (x : Bytes) : List Bytes :=
  ((x.splitOn 0x0A).map trimBytes).filter (!·.isEmpty)

/-- The lines of a text, and what stands between its line feeds, which may have a return at its
end. -/
theorem forall₂_lines (t : Text) : List.Forall₂ (fun line piece : Text =>
    piece = line ∨ piece = line ++ [.char '\r']) t.lines (t.splitOn (.char '\n')) := by
  unfold Text.lines
  fun_induction Text.joinBreaks t with
  | case1 => simp
  | case2 t ih =>
    simp only [List.splitOn_cons_eq_if_modifyHead]
    simpa using ih
  | case3 g t hpair ih =>
    rw [List.splitOn_cons_eq_if_modifyHead, List.splitOn_cons_eq_if_modifyHead]
    split
    · exact .cons (.inl rfl) ih
    · -- the character stands at the start of a line and of its piece alike
      generalize (Text.joinBreaks t).splitOn (.char '\n') = lines at ih
      generalize t.splitOn (.char '\n') = pieces at ih
      cases ih with
      | nil => exact .nil
      | cons h rest => exact .cons (h.imp (congrArg (g :: ·)) (congrArg (g :: ·))) rest

theorem map_trim_lines (t : Text) :
    t.lines.map Text.trim = (t.splitOn (.char '\n')).map Text.trim := by
  rw [← List.forall₂_eq_eq_eq, List.forall₂_map_left_iff, List.forall₂_map_right_iff]
  refine (forall₂_lines t).imp ?_
  rintro line _ (rfl | rfl)
  · rfl
  · exact (Text.trim_append_return line).symm

/-- A line feed is a character wherever it stands. -/
theorem splitOn_decode (x : Bytes) :
    (decode x).splitOn (.char '\n') = (x.splitOn 0x0A).map decode := by
  induction x using line_induction with
  | last x hx =>
    have hdecode : .char '\n' ∉ decode x := LineEnding.char_notMem_decode (by decide) hx
    rw [List.splitOn_eq_singleton hx, List.splitOn_eq_singleton hdecode]
    rfl
  | step line rest hline ih =>
    have hdecode : decode (line ++ 0x0A :: rest) = decode line ++ .char '\n' :: decode rest :=
      Text.decode_append_utf8EncodeChar_append line '\n' rest
    have hnone : .char '\n' ∉ decode line := LineEnding.char_notMem_decode (by decide) hline
    rw [hdecode, List.splitOn_append_cons_self, List.splitOn_eq_singleton hnone, ih,
      splitOn_append_cons hline]
    rfl

theorem map_bytes_messages (x : Bytes) :
    (messages (decode x)).map Text.bytes = messageBytes x := by
  have hempty (t : Text) : t.bytes.isEmpty = t.isEmpty := by
    cases t with
    | nil => rfl
    | cons g t =>
      have := g.width_pos
      cases hg : g.bytes with
      | nil => simp [← Glyph.length_bytes, hg] at this
      | cons b bs => simp [hg]
  rw [messages, map_trim_lines, splitOn_decode, List.map_map, messageBytes, List.filter_map,
    List.filter_map, List.map_map]
  refine congrArg₂ List.map rfl (List.filter_congr fun line _ => ?_)
  simp [trimBytes, hempty]

theorem bytes_unlines (ms : List Text) :
    (Text.unlines ms).bytes = [0x0A].intercalate (ms.map Text.bytes) := by
  unfold Text.unlines
  induction ms with
  | nil => rfl
  | cons m ms ih =>
    cases ms with
    | nil => simp
    | cons m' ms =>
      simp only [List.map_cons, List.intercalate_cons_cons, Text.bytes_append] at ih ⊢
      rw [ih]
      rfl

/-- A clean report has one message a line. -/
theorem cleanBytes_eq (x : Bytes) : cleanBytes x = [0x0A].intercalate (messageBytes x) := by
  rw [cleanBytes, clean, bytes_unlines, map_bytes_messages]

theorem mem_messageBytes {x m : Bytes} (h : m ∈ messageBytes x) :
    m ≠ [] ∧ 0x0A ∉ m ∧ Plain m ∧ trimBytes m = m := by
  obtain ⟨hmem, hne⟩ := List.mem_filter.1 h
  obtain ⟨line, hline, rfl⟩ := List.mem_map.1 hmem
  obtain ⟨-, -, -, -, -, plain⟩ := trims_trimBytes line
  exact ⟨by simpa using hne, notMem_trimBytes (notMem_of_mem_splitOn hline), plain, by simp⟩

theorem splitOn_cleanBytes {x : Bytes} (h : messageBytes x ≠ []) :
    (cleanBytes x).splitOn 0x0A = messageBytes x := by
  rw [cleanBytes_eq]
  exact List.splitOn_intercalate _ (fun m hm => (mem_messageBytes hm).2.1) h

/-- The lines of a clean report are its messages. -/
theorem lineList_cleanBytes (x : Bytes) : lineList (cleanBytes x) = messageBytes x := by
  by_cases h : messageBytes x = []
  · rw [lineList, cleanBytes_eq, h]
    rfl
  · have hne : cleanBytes x ≠ [] := by
      intro hnil
      have hsplit := splitOn_cleanBytes h
      rw [hnil, List.splitOn_nil] at hsplit
      have hmem : [] ∈ messageBytes x := by simp [← hsplit]
      exact (mem_messageBytes hmem).1 rfl
    rw [lineList, if_neg hne, splitOn_cleanBytes h]

/-- The messages of two reports, one below the other. -/
theorem messageBytes_append (x y : Bytes) :
    messageBytes (x ++ 0x0A :: y) = messageBytes x ++ messageBytes y := by
  rw [messageBytes, List.splitOn_append_cons_self, List.map_append, List.filter_append]
  rfl

/-- The messages of a clean report are those it was made of. -/
theorem messageBytes_cleanBytes (x : Bytes) : messageBytes (cleanBytes x) = messageBytes x := by
  by_cases h : messageBytes x = []
  · rw [cleanBytes_eq, h]
    simp [messageBytes, trimBytes, Text.trim, Text.trimRight, Text.trimLeft]
  · have htrim : (messageBytes x).map trimBytes = messageBytes x := by
      rw [List.map_congr_left fun m hm => (mem_messageBytes hm).2.2.2, List.map_id']
    rw [messageBytes, splitOn_cleanBytes h, htrim]
    exact List.filter_eq_self.2 fun m hm => by simpa using (mem_messageBytes hm).1

/-- Nothing is left of a return in front of a line feed. -/
theorem messageBytes_rewrite_pair (x : Bytes) :
    messageBytes (LineEnding.pair.rewrite x) = messageBytes x := by
  induction x using line_induction with
  | last x hx => rw [LineEnding.rewrite_of_notMem _ hx]
  | step line rest hline ih =>
    have hrewrite : LineEnding.pair.rewrite (line ++ 0x0A :: rest) =
        (line ++ [0x0D]) ++ 0x0A :: LineEnding.pair.rewrite rest := by
      rw [LineEnding.rewrite_append, LineEnding.rewrite_cons_lineFeed,
        LineEnding.rewrite_of_notMem _ hline]
      simp [LineEnding.bytes]
    have hreturn : messageBytes (line ++ [0x0D]) = messageBytes line := by
      rw [messageBytes, messageBytes, List.splitOn_eq_singleton hline,
        List.splitOn_eq_singleton (by simp [hline])]
      simp
    rw [hrewrite, messageBytes_append, messageBytes_append, ih, hreturn]

/-- Trimming the lines comes to the same as trimming what stands between the line feeds. -/
theorem map_trimBytes_endedLines (x : Bytes) :
    (endedLines x).map trimBytes = (x.splitOn 0x0A).map trimBytes := by
  have hdrop : trimBytes ∘ dropReturn = trimBytes := funext trimBytes_dropReturn
  unfold endedLines
  rcases List.eq_nil_or_concat (x.splitOn 0x0A) with hnil | ⟨pieces, last, hpieces⟩
  · exact absurd hnil (List.splitOn_ne_nil _ _)
  · rw [hpieces]
    simp [hdrop]

theorem forall₂_trims_iff {lines rests : List Bytes} :
    List.Forall₂ Trims lines rests ↔ rests = lines.map trimBytes := by
  constructor
  · intro h
    induction h with
    | nil => rfl
    | cons hrest _ ih => rw [trims_iff.1 hrest, ih, List.map_cons]
  · rintro rfl
    exact List.forall₂_map_right_iff.2 (List.forall₂_same.2 fun line _ => trims_trimBytes line)

/-- Cleaning a report leaves the non-empty trimmed lines, in order and one a line, so no line is
empty and none has a blank at either end. A clean report stays as it is. It does not matter whether
lines end with line feeds or with pairs, and the lines of two reports, one below the other, are
those of the first and then those of the second. -/
theorem cleanBytes_exact (x : Bytes) :
    (∃ rests, (∀ rests', List.Forall₂ Trims (endedLines x) rests' ↔ rests' = rests) ∧
      cleanBytes x = [0x0A].intercalate (rests.filter (!·.isEmpty))) ∧
    (∀ line ∈ lineList (cleanBytes x), line ≠ [] ∧ Plain line) ∧
    cleanBytes (cleanBytes x) = cleanBytes x ∧
    cleanBytes (LineEnding.pair.rewrite x) = cleanBytes x ∧
    ∀ y, lineList (cleanBytes (x ++ 0x0A :: y)) =
      lineList (cleanBytes x) ++ lineList (cleanBytes y) := by
  refine ⟨⟨(endedLines x).map trimBytes, fun _ => forall₂_trims_iff, ?_⟩, fun line hline => ?_,
    ?_, ?_, fun y => ?_⟩
  · rw [cleanBytes_eq, map_trimBytes_endedLines, messageBytes]
  · rw [lineList_cleanBytes] at hline
    obtain ⟨hne, -, plain, -⟩ := mem_messageBytes hline
    exact ⟨hne, plain⟩
  · rw [cleanBytes_eq, messageBytes_cleanBytes, ← cleanBytes_eq]
  · rw [cleanBytes_eq, messageBytes_rewrite_pair, ← cleanBytes_eq]
  · rw [lineList_cleanBytes, lineList_cleanBytes, lineList_cleanBytes, messageBytes_append]

/-- Two returns in front of the line feed, a line of blanks, and a blank of three bytes behind a
stray byte that is none. -/
theorem cleanBytes_exact_returns :
    let x : Bytes := [0x61, 0x0D, 0x0D, 0x0A, 0x20, 0x0A, 0xA8, 0xE2, 0x80, 0xA8]
    cleanBytes x = [0x61, 0x0A, 0xA8] ∧ [0xA8] ∈ lineList (cleanBytes x) ∧ Plain [0xA8] ∧
      cleanBytes (cleanBytes x) = cleanBytes x ∧
      cleanBytes (LineEnding.pair.rewrite x) = cleanBytes x ∧
      lineList (cleanBytes (x ++ 0x0A :: x)) = [[0x61], [0xA8], [0x61], [0xA8]] := by
  intro x
  have hclean : cleanBytes x = [0x61, 0x0A, 0xA8] := by cbv
  have hlines : lineList (cleanBytes x) = [[0x61], [0xA8]] := by
    rw [hclean]
    rfl
  obtain ⟨-, plain, twice, pairs, joined⟩ := cleanBytes_exact x
  have hmem : [0xA8] ∈ lineList (cleanBytes x) := by simp [hlines]
  refine ⟨hclean, hmem, (plain _ hmem).2, twice, pairs, ?_⟩
  rw [joined x, hlines]
  rfl

end Report

end Asm6502
