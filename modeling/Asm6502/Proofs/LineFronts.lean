import Asm6502.Proofs.PositionSearch
import Asm6502.Query.Completion

/-!
# The line in front of a token

Completion cuts a text into lines at its line feeds, and the lexer also at a carriage return that no
line feed follows. The two agree on what stands in front of a token on its line as long as there is
no such return in front of it. Otherwise completion looks too far down, by as many lines as there
are such returns.

## Main definitions

- `Text.loneReturns`: the number of carriage returns without a line feed.

## Main statements

- `Position.line_advance_origin`: the line ends that the lexer sees are the line feeds and the
  returns without one.
- `Text.frontOfLine_append`, `Text.frontOfLine_append_of_loneReturns_pos`: the front of the line
  that a text ends with.
-/

namespace Asm6502

namespace Text

/-- The number of carriage returns that no line feed follows. -/
def loneReturns : Text → Nat
  | [] => 0
  | g :: t => loneReturns t + if g = .char '\r' ∧ t.head? ≠ some (.char '\n') then 1 else 0

theorem loneReturns_append_return_pos {t : Text} (h : t.head? ≠ some (.char '\n')) (s : Text) :
    0 < loneReturns (s ++ .char '\r' :: t) := by
  induction s with
  | nil => simp [loneReturns, h]
  | cons g s ih => exact Nat.add_pos_left ih _

/-! ## Lines of a text in two pieces -/

theorem joinBreaks_append {s t : Text} (h : s.CleanCut t) :
    joinBreaks (s ++ t) = joinBreaks s ++ joinBreaks t := by
  fun_induction joinBreaks s with
  | case1 => rfl
  | case2 s ih => simp [joinBreaks, ih h.of_cons.of_cons]
  | case3 g s hpair ih =>
    rw [List.cons_append, joinBreaks.eq_3, ih h.of_cons, List.cons_append]
    rintro t' rfl hst
    exact h.head?_append_ne (fun s' => hpair s' rfl) (by rw [hst]; rfl)

@[simp] theorem count_joinBreaks (t : Text) :
    (joinBreaks t).count (.char '\n') = t.count (.char '\n') := by
  fun_induction joinBreaks t with
  | case1 => rfl
  | case2 t ih => simp [ih]
  | case3 g t hpair ih => simp [List.count_cons, ih]

@[simp] theorem getLast?_joinBreaks (t : Text) : (joinBreaks t).getLast? = t.getLast? := by
  fun_induction joinBreaks t with
  | case1 => rfl
  | case2 t ih => simp [List.getLast?_cons, ih]
  | case3 g t hpair ih => simp [List.getLast?_cons, ih]

theorem getElem?_splitOn_append {α : Type} [DecidableEq α] (x : α) (s t : List α) (n : Nat) :
    ((s ++ t).splitOn x)[s.count x + (n + 1)]? = (t.splitOn x)[n + 1]? := by
  induction s with
  | nil => simp
  | cons a s ih =>
    rw [List.cons_append, List.splitOn_cons_eq_if_modifyHead, List.count_cons]
    split
    · rw [← ih, Nat.add_right_comm, List.getElem?_cons_succ]
    · simp [List.getElem?_modifyHead, ih]

/-- The lines behind the one in which two pieces meet are those of the second piece. -/
theorem getElem?_lines_append {s t : Text} (h : s.CleanCut t) (n : Nat) :
    (lines (s ++ t))[s.count (.char '\n') + (n + 1)]? = (lines t)[n + 1]? := by
  rw [lines, joinBreaks_append h, ← count_joinBreaks s, getElem?_splitOn_append, lines]

/-- Whole lines are followed by the lines of the text behind them. -/
theorem getElem?_lines_append_of_whole {s : Text} (h : s = [] ∨ s.getLast? = some (.char '\n'))
    (t : Text) (n : Nat) : (lines (s ++ t))[s.count (.char '\n') + n]? = (lines t)[n]? := by
  rcases h with rfl | hlast
  · simp
  · have hcut : s.CleanCut t := fun hc => by simp [hlast] at hc
    obtain ⟨front, hfront⟩ := List.getLast?_eq_some_iff.1 ((getLast?_joinBreaks s).trans hlast)
    have hcount : s.count (.char '\n') + n = front.count (.char '\n') + (n + 1) := by
      rw [← count_joinBreaks, hfront, List.count_append, List.count_singleton_self]
      omega
    rw [hcount, lines, joinBreaks_append hcut, hfront, List.append_assoc, getElem?_splitOn_append,
      List.singleton_append, List.splitOn_cons_eq_if_modifyHead, if_pos (by simp),
      List.getElem?_cons_succ, lines]

/-- A text that ends no line starts the line in which it meets the next. -/
theorem exists_head?_lines_append {s : Text} (h : ∀ g ∈ s, g.isBreak = false) (t : Text) :
    ∃ more, (lines (s ++ t)).head? = some (s ++ more) := by
  induction s with
  | nil =>
    obtain ⟨line, hline⟩ := Option.ne_none_iff_exists'.1
      (mt List.head?_eq_none_iff.1 (List.splitOn_ne_nil (.char '\n') (joinBreaks t)))
    exact ⟨line, hline⟩
  | cons g s ih =>
    obtain ⟨more, hmore⟩ := ih fun x hx => h x (List.mem_cons_of_mem g hx)
    have hg := Glyph.ne_of_not_isBreak (h g List.mem_cons_self)
    refine ⟨more, ?_⟩
    rw [lines, List.cons_append, joinBreaks.eq_3 _ _ fun _ hr => absurd hr hg.1,
      List.splitOn_cons_eq_if_modifyHead, if_neg (by simpa using hg.2), List.head?_modifyHead,
      ← lines, hmore]
    rfl

/-! ## Columns -/

theorem takeUnits_units_append (s t : Text) : takeUnits s.units (s ++ t) = s := by
  induction s with
  | nil => cases t <;> simp [takeUnits, units]
  | cons g s ih =>
    have hpos := g.units_pos
    have hrest : ((units (g :: s) : Nat) : Int) - g.units = units s := by
      simp [units]
    rw [List.cons_append, takeUnits, if_neg (by simp [units]; omega), hrest, ih]

end Text

/-- The lexer moves down a line at a line feed, and at a return that none follows. -/
theorem Position.line_advance_origin (t : Text) :
    (origin.advance t).line = t.count (.char '\n') + t.loneReturns := by
  suffices h : ∀ p : Position,
      (p.advance t).line = p.line + (t.count (.char '\n') + t.loneReturns) by
    simpa [origin] using h origin
  intro p
  fun_induction advance p t with
  | case1 p => simp [Text.loneReturns]
  | case2 p t ih =>
    rw [ih]
    simp [Text.loneReturns, nextLine]
    omega
  | case3 p g t hpair ih =>
    rw [ih]
    split
    · rename_i hg
      rcases Glyph.isBreak_iff.1 hg with rfl | rfl
      · have ht : t.head? ≠ some (.char '\n') := by
          intro hhead
          obtain ⟨t', rfl⟩ := List.head?_eq_some_iff.1 hhead
          exact hpair t' rfl rfl
        simp [Text.loneReturns, nextLine, ht]
        omega
      · simp [Text.loneReturns, nextLine]
        omega
    · rename_i hg
      have hg := Glyph.ne_of_not_isBreak (Bool.eq_false_of_not_eq_true hg)
      simp [Text.loneReturns, right, hg]

namespace Text

/-- With no return alone in it, a text ends in the line that completion finds there. -/
theorem frontOfLine_append {start rest : Text} (hlone : (start ++ rest).loneReturns = 0)
    (hstart : start = [] ∨ ∃ g, start.getLast? = some g ∧ g.isBreak = true)
    (hrest : ∀ g ∈ rest, g.isBreak = false) (back : Text) :
    (start ++ rest ++ back).frontOfLine
      ⟨(Position.origin.advance (start ++ rest)).line, rest.units⟩ = rest := by
  have hfeed : .char '\n' ∉ rest := fun hmem => (Glyph.ne_of_not_isBreak (hrest _ hmem)).2 rfl
  have hwhole : start = [] ∨ start.getLast? = some (.char '\n') := by
    rcases hstart with rfl | ⟨g, hlast, hbreak⟩
    · exact .inl rfl
    rcases Glyph.isBreak_iff.1 hbreak with rfl | rfl
    · -- a return at the end of the whole lines would be alone, since no line feed follows it
      obtain ⟨front, rfl⟩ := List.getLast?_eq_some_iff.1 hlast
      have hpos := loneReturns_append_return_pos (mt List.mem_of_mem_head? hfeed) front
      simp only [List.append_assoc, List.singleton_append] at hlone
      omega
    · exact .inr hlast
  have hline : (Position.origin.advance (start ++ rest)).line = start.count (.char '\n') := by
    simp [Position.line_advance_origin, hlone, List.count_eq_zero.2 hfeed]
  obtain ⟨more, hmore⟩ := exists_head?_lines_append hrest back
  have hget : (lines (start ++ (rest ++ back)))[start.count (.char '\n')]? = some (rest ++ more) :=
    (getElem?_lines_append_of_whole hwhole (rest ++ back) 0).trans
      (List.head?_eq_getElem?.symm.trans hmore)
  rw [frontOfLine, hline, if_neg (by simp), Int.toNat_natCast, List.append_assoc, hget,
    Option.map_some, Option.getD_some, takeUnits_units_append]

/-- With returns alone in the first piece, completion looks that many lines further down. -/
theorem frontOfLine_append_of_loneReturns_pos {front back : Text} (hcut : front.CleanCut back)
    (hlone : 0 < front.loneReturns) (char : Int) :
    (front ++ back).frontOfLine ⟨(Position.origin.advance front).line, char⟩ =
      back.frontOfLine ⟨front.loneReturns, char⟩ := by
  obtain ⟨n, hn⟩ := Nat.exists_eq_succ_of_ne_zero hlone.ne'
  rw [frontOfLine, frontOfLine, Position.line_advance_origin, hn, ← Int.natCast_add,
    if_neg (Int.natCast_nonneg _).not_gt, if_neg (Int.natCast_nonneg _).not_gt, Int.toNat_natCast,
    Int.toNat_natCast, getElem?_lines_append hcut n]

end Text

namespace SymbolIndex

/-- What completion sees in front of a token. If every return in front of the token has its line
feed, this is the part of the token's line, as navigation reads it, that stands in front of it.
Otherwise it is the part of some line further down, behind the token. -/
theorem frontOfLine_position (d : Dialect) (source : Bytes) (i : Nat) (t : Token)
    (h : (parse d source).tokens[i]? = some t) :
    let front := source.take t.offset
    let back := source.drop t.offset
    let lone := (Text.decode front).loneReturns
    (lone = 0 →
      ((Text.decode source).frontOfLine t.position).bytes = Position.lastLine front) ∧
    (0 < lone →
      (Text.decode source).frontOfLine t.position =
        (Text.decode back).frontOfLine ⟨lone, t.position.char⟩) ∧
    (parse d source).lineText i =
      .ok (Text.decode (Position.lastLine front ++ back.takeWhile (!isBreakByte ·))) := by
  obtain ⟨front, back, hsource, hoffset, hposition, -, hcut, -⟩ :=
    exists_cut (mem_tokens_of_getElem? h)
  have hfront : Text.decode (source.take t.offset) = front := by
    rw [hoffset, Text.take_size_of_decode hsource, Text.decode_bytes_of_append_left hsource]
  have hback : Text.decode (source.drop t.offset) = t.text ++ back := by
    rw [hoffset, Text.drop_size_of_decode hsource, Text.decode_bytes_of_append_right hsource]
  refine ⟨fun hlone => ?_, fun hlone => ?_, lineText_eq h⟩
  · rw [hfront] at hlone
    obtain ⟨start, rest, rfl, hrest, hstart, hlast, hchar⟩ :=
      Position.exists_lines_append_lastLine hsource
    have hfound := Text.frontOfLine_append hlone hstart hrest (t.text ++ back)
    rw [← hchar] at hfound
    rw [hsource, hposition, hoffset, hlast]
    exact congrArg Text.bytes hfound
  · rw [hfront] at hlone ⊢
    rw [hback, hsource, hposition]
    exact Text.frontOfLine_append_of_loneReturns_pos hcut hlone _

/-- A sign behind a string, on a line that a return and a line feed precede. The character in the
string takes two columns. -/
theorem frontOfLine_position_second_line :
    let source : Bytes := [0x61, 0x0D, 0x0A, 0x22, 0xF0, 0x9D, 0x84, 0x9E, 0x22, 0x3D]
    let sign : Token := ⟨.operator, 9, ⟨1, 4⟩, [.char '='], false⟩
    (parse .acme source).tokens[3]? = some sign ∧
      (Text.decode (source.take 9)).loneReturns = 0 ∧
      ((Text.decode source).frontOfLine sign.position).bytes = [0x22, 0xF0, 0x9D, 0x84, 0x9E, 0x22] ∧
      (parse .acme source).lineText 3 =
        .ok (Text.decode [0x22, 0xF0, 0x9D, 0x84, 0x9E, 0x22, 0x3D]) := by
  intro source sign
  have hdecode : Text.decode source = [.char 'a', .char '\r', .char '\n', .char '"', .char '𝄞',
      .char '"', .char '='] := by
    cbv
  have hlexemes : lexemes .acme source =
      [.token .identifier [.char 'a'], .token .lineBreak [.char '\r', .char '\n'],
        .skipped [.char '"'], .token .string [.char '𝄞'], .skipped [.char '"'],
        .token .operator [.char '=']] := by
    rw [lexemes, hdecode]
    cbv
  have htoken : (parse .acme source).tokens[3]? = some sign := by
    rw [← Array.getElem?_toList, tokens_parse, hlexemes]
    rfl
  have hlone : (Text.decode (source.take 9)).loneReturns = 0 := by cbv
  obtain ⟨hfront, -, hline⟩ := frontOfLine_position .acme source 3 sign htoken
  exact ⟨htoken, hlone, hfront hlone, hline⟩

/-- Behind a return without a line feed completion finds nothing in front of a sign, although there
is a name on its line. -/
theorem frontOfLine_behind_lone_return :
    let source : Bytes := [0x0D, 0x61, 0x3D]
    let sign : Token := ⟨.operator, 2, ⟨1, 1⟩, [.char '='], false⟩
    (parse .acme source).tokens[2]? = some sign ∧
      Position.lastLine (source.take sign.offset) = [0x61] ∧
      (parse .acme source).lineText 2 = .ok [.char 'a', .char '='] ∧
      ((Text.decode source).frontOfLine sign.position).bytes ≠
        Position.lastLine (source.take sign.offset) := by
  intro source sign
  have hlexemes : lexemes .acme source =
      [.token .lineBreak [.char '\r'], .token .identifier [.char 'a'],
        .token .operator [.char '=']] := by
    cbv
  have htoken : (parse .acme source).tokens[2]? = some sign := by
    rw [← Array.getElem?_toList, tokens_parse, hlexemes]
    rfl
  have hdecode : Text.decode source = [.char '\r', .char 'a', .char '='] := by cbv
  refine ⟨htoken, rfl, ?_, ?_⟩
  · exact (lineText_eq htoken).trans (congrArg Except.ok (by cbv))
  · rw [hdecode]
    decide

end SymbolIndex

end Asm6502
