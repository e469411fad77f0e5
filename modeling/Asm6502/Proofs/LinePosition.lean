import Asm6502.Index.Navigation
import Asm6502.Proofs.Decoding

/-!
# Positions found by counting

The position behind a text can be found without walking over it: the line is the number of line
ends, and the column is the width of what stands behind the last one. Walking over two pieces one
after the other comes to the same, unless the cut between them takes apart a carriage return and its
line feed.

## Main definitions

- `Position.lineEnds`, `Position.lastLine`: the line ends of a byte string, and what follows them.
- `Position.behind`: the position behind a byte string, by counting.
- `Text.CleanCut`: a cut that leaves every line end whole.

## Main statements

- `Position.advance_append`: walking over two pieces.
- `Position.advance_origin_eq_behind`: walking agrees with counting.
-/

namespace Asm6502

/-- No line end is taken apart between `s` and `t`. -/
def Text.CleanCut (s t : Text) : Prop :=
  ¬ (s.getLast? = some (.char '\r') ∧ t.head? = some (.char '\n'))

theorem Text.cleanCut_of_notMem {s : Text} (h : .char '\r' ∉ s) (t : Text) : s.CleanCut t :=
  fun hc => h (List.mem_of_getLast? hc.1)

theorem Text.cleanCut_of_head? {t : Text} (h : t.head? ≠ some (.char '\n')) (s : Text) :
    s.CleanCut t :=
  fun hc => h hc.2

theorem Text.CleanCut.of_cons {g : Glyph} {s t : Text} (h : CleanCut (g :: s) t) : s.CleanCut t :=
  fun hc => h ⟨by simp [List.getLast?_cons, hc.1], hc.2⟩

/-- A return that no line feed follows in the first piece is followed by none in the whole. -/
theorem Text.CleanCut.head?_append_ne {s t : Text} (h : CleanCut (.char '\r' :: s) t)
    (hs : ∀ s', s ≠ .char '\n' :: s') : (s ++ t).head? ≠ some (.char '\n') := by
  cases s with
  | nil => exact fun hhead => h ⟨rfl, hhead⟩
  | cons g s => simpa using hs s

namespace Position

/-! ## Counting -/

/-- The number of line ends. A line feed ends a line, and so does a carriage return that no line
feed follows. -/
def lineEnds : Bytes → Nat
  | [] => 0
  | b :: bs => lineEnds bs + if b = 0x0A ∨ b = 0x0D ∧ bs.head? ≠ some 0x0A then 1 else 0

/-- The bytes behind the last line end. -/
def lastLine (bs : Bytes) : Bytes :=
  (bs.reverse.takeWhile (!SymbolIndex.isBreakByte ·)).reverse

/-- The position behind a byte string that starts a text. -/
def behind (bs : Bytes) : Position :=
  ⟨lineEnds bs, (Text.decode (lastLine bs)).units⟩

theorem lineEnds_append_of_forall {bs : Bytes} (h : ∀ b ∈ bs, b ≠ 0x0D ∧ b ≠ 0x0A) (more : Bytes) :
    lineEnds (bs ++ more) = lineEnds more := by
  induction bs with
  | nil => rfl
  | cons b bs ih =>
    simp [lineEnds, h b List.mem_cons_self, ih fun x hx => h x (List.mem_cons_of_mem b hx)]

theorem not_isBreakByte {b : UInt8} (h : b ≠ 0x0D ∧ b ≠ 0x0A) :
    (!SymbolIndex.isBreakByte b) = true := by
  simp [SymbolIndex.isBreakByte, h]

theorem lastLine_append_of_forall {more : Bytes} (h : ∀ b ∈ more, b ≠ 0x0D ∧ b ≠ 0x0A)
    (bs : Bytes) : lastLine (bs ++ more) = lastLine bs ++ more := by
  have hmore : ∀ b ∈ more.reverse, (!SymbolIndex.isBreakByte b) = true := by
    intro b hb
    exact not_isBreakByte (h b (List.mem_reverse.1 hb))
  rw [lastLine, List.reverse_append, List.takeWhile_append_of_pos hmore, List.reverse_append,
    List.reverse_reverse]
  rfl

theorem lastLine_append_singleton {b : UInt8} (h : SymbolIndex.isBreakByte b = true) (bs : Bytes) :
    lastLine (bs ++ [b]) = [] := by
  simp [lastLine, h]

/-! ## Walking -/

/-- The position the given number of lines further down. -/
def down (p : Position) (lines : Nat) : Position :=
  ⟨p.line + lines, p.char⟩

theorem advance_cons {g : Glyph} {t : Text}
    (h : ¬ (g = .char '\r' ∧ t.head? = some (.char '\n'))) (p : Position) :
    p.advance (g :: t) = (if g.isBreak then p.nextLine else p.right g.units).advance t := by
  rw [advance.eq_3]
  rintro t' rfl rfl
  exact h ⟨rfl, rfl⟩

theorem advance_append {s t : Text} (h : s.CleanCut t) (p : Position) :
    p.advance (s ++ t) = (p.advance s).advance t := by
  fun_induction advance p s with
  | case1 p => rfl
  | case2 p s ih => exact ih h.of_cons.of_cons
  | case3 p g s hpair ih =>
    have hg : ¬ (g = .char '\r' ∧ (s ++ t).head? = some (.char '\n')) := by
      rintro ⟨rfl, hhead⟩
      exact h.head?_append_ne (fun s' => hpair s' rfl) hhead
    rw [List.cons_append, advance_cons hg, ih h.of_cons]

@[simp] theorem nextLine_down (p : Position) (n : Nat) :
    (p.down n).nextLine = p.nextLine.down n := by
  simp [down, nextLine, Int.add_right_comm]

@[simp] theorem right_down (p : Position) (n units : Nat) :
    (p.down n).right units = (p.right units).down n := rfl

/-- Where a text ends depends on the line it starts on only through the number of that line. -/
theorem advance_down (p : Position) (n : Nat) (t : Text) :
    (p.down n).advance t = (p.advance t).down n := by
  fun_induction advance p t with
  | case1 p => rfl
  | case2 p t ih => rw [advance, nextLine_down, ih]
  | case3 p g t hpair ih =>
    rw [advance.eq_3 _ _ _ hpair, ← ih]
    split <;> simp

theorem advance_of_forall {t : Text} (h : ∀ g ∈ t, g.isBreak = false) (p : Position) :
    p.advance t = p.right t.units := by
  induction t generalizing p with
  | nil => simp [right, Text.units]
  | cons g t ih =>
    have hg : g.isBreak = false := h g List.mem_cons_self
    rw [advance_cons (fun hc => (Glyph.ne_of_not_isBreak hg).1 hc.1), hg,
      ih fun x hx => h x (List.mem_cons_of_mem g hx)]
    simp [right, Text.units, Int.add_assoc]

/-- A text that ends with a line end leads to the start of a line. -/
theorem char_advance_of_getLast {t : Text} {g : Glyph} (ht : t.getLast? = some g)
    (hg : g.isBreak = true) (p : Position) : (p.advance t).char = 0 := by
  fun_induction advance p t with
  | case1 p => simp at ht
  | case2 p t ih =>
    cases t with
    | nil => rfl
    | cons g' t => exact ih (by simpa [List.getLast?_cons] using ht)
  | case3 p g' t hpair ih =>
    cases t with
    | nil =>
      obtain rfl : g' = g := by simpa using ht
      simp [hg, nextLine]
    | cons g'' t => exact ih (by simpa [List.getLast?_cons] using ht)

/-! ## Walking agrees with counting -/

theorem lineEnds_cons_lineFeed (bs : Bytes) : lineEnds (0x0A :: bs) = lineEnds bs + 1 := by
  simp [lineEnds]

theorem lineEnds_cons_return {bs : Bytes} (h : bs.head? ≠ some 0x0A) :
    lineEnds (0x0D :: bs) = lineEnds bs + 1 := by
  simp [lineEnds, h]

theorem lineEnds_cons_pair (bs : Bytes) : lineEnds (0x0D :: 0x0A :: bs) = lineEnds bs + 1 := by
  simp [lineEnds]

theorem line_advance {t : Text} (h : ∀ g ∈ t, g.Proper) (p : Position) :
    (p.advance t).line = p.line + lineEnds t.bytes := by
  fun_induction advance p t with
  | case1 p => simp [lineEnds]
  | case2 p t ih =>
    have e : Text.bytes (.char '\r' :: .char '\n' :: t) = 0x0D :: 0x0A :: Text.bytes t := rfl
    rw [ih fun g hg => h g (by simp [hg]), e, lineEnds_cons_pair]
    simp only [nextLine]
    omega
  | case3 p g t hpair ih =>
    have ht : ∀ x ∈ t, x.Proper := fun x hx => h x (List.mem_cons_of_mem g hx)
    rw [ih ht, Text.bytes_cons]
    split
    · rename_i hg
      have e : lineEnds (g.bytes ++ Text.bytes t) = lineEnds (Text.bytes t) + 1 := by
        rcases Glyph.isBreak_iff.1 hg with rfl | rfl
        · refine lineEnds_cons_return fun hb => ?_
          cases t with
          | nil => simp at hb
          | cons g' t =>
            obtain rfl : g' = .char '\n' := by simpa using Text.head?_eq_of_head?_bytes ht hb
            exact hpair t rfl rfl
        · exact lineEnds_cons_lineFeed (Text.bytes t)
      rw [e]
      simp only [nextLine]
      omega
    · rename_i hg
      rw [lineEnds_append_of_forall (Text.forall_bytes_of_not_isBreak (h g List.mem_cons_self)
        (by simpa using hg)), right]

/-- A text is a number of whole lines and a rest without a line end. -/
theorem exists_lines_append (t : Text) : ∃ lines rest : Text, t = lines ++ rest ∧
    (∀ g ∈ rest, g.isBreak = false) ∧
    (lines = [] ∨ ∃ g, lines.getLast? = some g ∧ g.isBreak = true) := by
  induction t with
  | nil => exact ⟨[], [], rfl, by simp, .inl rfl⟩
  | cons g t ih =>
    obtain ⟨lines, rest, rfl, hrest, rfl | ⟨x, hx, hbreak⟩⟩ := ih
    · cases hg : g.isBreak with
      | true => exact ⟨[g], rest, rfl, hrest, .inr ⟨g, rfl, hg⟩⟩
      | false => exact ⟨[], g :: rest, rfl, by simpa [hg] using hrest, .inl rfl⟩
    · exact ⟨g :: lines, rest, rfl, hrest, .inr ⟨x, by simp [List.getLast?_cons, hx], hbreak⟩⟩

theorem lastLine_lines {lines : Text}
    (h : lines = [] ∨ ∃ g, lines.getLast? = some g ∧ g.isBreak = true) :
    lastLine lines.bytes = [] := by
  rcases h with rfl | ⟨g, hlast, hbreak⟩
  · rfl
  · obtain ⟨front, rfl⟩ := List.getLast?_eq_some_iff.1 hlast
    rw [Text.bytes_append]
    rcases Glyph.isBreak_iff.1 hbreak with rfl | rfl <;> exact lastLine_append_singleton rfl _

/-- The first part of a decoded text is a number of whole lines and the line that its last bytes
make, which is as wide as the column behind it says. -/
theorem exists_lines_append_lastLine {source : Bytes} {front back : Text}
    (h : Text.decode source = front ++ back) : ∃ lines rest : Text, front = lines ++ rest ∧
    (∀ g ∈ rest, g.isBreak = false) ∧
    (lines = [] ∨ ∃ g, lines.getLast? = some g ∧ g.isBreak = true) ∧
    lastLine (source.take front.size) = rest.bytes ∧ (origin.advance front).char = rest.units := by
  obtain ⟨lines, rest, rfl, hrest, hlines⟩ := exists_lines_append front
  refine ⟨lines, rest, rfl, hrest, hlines, ?_, ?_⟩
  · have hbytes : ∀ b ∈ rest.bytes, b ≠ 0x0D ∧ b ≠ 0x0A := by
      intro b hb
      obtain ⟨g, hg, hb⟩ := List.mem_flatMap.1 hb
      have hmem : g ∈ Text.decode source := by simp [h, hg]
      exact Text.forall_bytes_of_not_isBreak (Text.proper_of_mem_decode hmem) (hrest g hg) b hb
    rw [Text.take_size_of_decode h, Text.bytes_append, lastLine_append_of_forall hbytes,
      lastLine_lines hlines, List.nil_append]
  · have hcut : lines.CleanCut rest := by
      rintro ⟨-, hhead⟩
      exact (Glyph.ne_of_not_isBreak (hrest _ (List.mem_of_mem_head? hhead))).2 rfl
    have hstart : (origin.advance lines).char = 0 := by
      rcases hlines with rfl | ⟨g, hlast, hbreak⟩
      · rfl
      · exact char_advance_of_getLast hlast hbreak origin
    rw [advance_append hcut, advance_of_forall hrest, right, hstart, Int.zero_add]

/-- Walking over the first part of a decoded text leads to the position that counting gives. -/
theorem advance_origin_eq_behind {source : Bytes} {front back : Text}
    (h : Text.decode source = front ++ back) :
    origin.advance front = behind (source.take front.size) := by
  have proper : ∀ g ∈ front, g.Proper := by
    intro g hg
    have hmem : g ∈ Text.decode source := by simp [h, hg]
    exact Text.proper_of_mem_decode hmem
  have hline := line_advance proper origin
  have hbytes := Text.take_size_of_decode h
  obtain ⟨lines, rest, rfl, -, -, hlast, hchar⟩ := exists_lines_append_lastLine h
  have hdecode : Text.decode rest.bytes = rest := Text.decode_bytes_of_append h
  calc origin.advance (lines ++ rest)
    _ = ⟨(origin.advance (lines ++ rest)).line, (origin.advance (lines ++ rest)).char⟩ := rfl
    _ = ⟨lineEnds (lines ++ rest).bytes, rest.units⟩ := by rw [hline, hchar]; simp [origin]
    _ = behind (source.take (lines ++ rest).size) := by rw [behind, hlast, hdecode, hbytes]

theorem advance_origin_decode (source : Bytes) :
    origin.advance (Text.decode source) = behind source := by
  rw [advance_origin_eq_behind (List.append_nil _).symm, Text.size_decode, List.take_length]

end Position

end Asm6502
