import Asm6502.Proofs.TokenPlaces

/-!
# Adjacent ranges

The end of a range is found by walking over the bytes it covers, decoded on their own. Two ranges
that meet may be walked over one after the other, provided that they meet between two characters of
what they cover together, and not within a line end.

## Main definitions

- `Text.InsideGlyph`: the offsets between the bytes of one character.
- `Range.bytes`, `Range.Within`: what a range covers, and the ranges that lie within a source.
- `Range.Adjacent`, `Range.join`: two ranges that meet, and the range they make up.

## Main statements

- `Text.exists_append_of_not_insideGlyph`: elsewhere two characters meet.
- `Range.span_of_within`: the positions of a range within a source.
- `Position.advance_decode_append`: walking over two byte strings.
-/

namespace Asm6502

namespace Text

/-! ## Where characters meet -/

/-- Offset `n` has bytes of one and the same character on both sides. -/
def InsideGlyph (t : Text) (n : Nat) : Prop :=
  ∃ (front : Text) (g : Glyph) (back : Text),
    t = front ++ g :: back ∧ front.size < n ∧ n < front.size + g.width

theorem InsideGlyph.cons {t : Text} {n : Nat} (h : t.InsideGlyph n) (g : Glyph) :
    InsideGlyph (g :: t) (g.width + n) := by
  obtain ⟨front, g', back, rfl, hlt, hgt⟩ := h
  refine ⟨g :: front, g', back, rfl, ?_, ?_⟩ <;> rw [size_cons] <;> omega

theorem exists_append_of_not_insideGlyph {t : Text} {n : Nat} (hle : n ≤ t.size)
    (h : ¬ t.InsideGlyph n) : ∃ front back, t = front ++ back ∧ front.size = n := by
  induction t generalizing n with
  | nil => exact ⟨[], [], rfl, (Nat.le_zero.1 hle).symm⟩
  | cons g t ih =>
    rcases Nat.eq_zero_or_pos n with rfl | hpos
    · exact ⟨[], g :: t, rfl, rfl⟩
    have hwidth : g.width ≤ n := by
      by_contra hlt
      exact h ⟨[], g, t, rfl, hpos, by simpa using hlt⟩
    obtain ⟨m, rfl⟩ := Nat.exists_eq_add_of_le hwidth
    rw [size_cons] at hle
    obtain ⟨front, back, rfl, rfl⟩ := ih (by omega) fun hm => h (hm.cons g)
    exact ⟨g :: front, back, rfl, rfl⟩

theorem not_insideGlyph_append (front back : Text) : ¬ (front ++ back).InsideGlyph front.size := by
  rintro ⟨before, g, after, happend, hlt, hgt⟩
  rcases List.append_eq_append_iff.1 happend with ⟨u, rfl, -⟩ | ⟨u, rfl, hu⟩
  · rw [size_append] at hlt
    omega
  · cases u with
    | nil => simp at hlt
    | cons g' u =>
      obtain ⟨rfl, -⟩ := List.cons.inj hu
      rw [size_append, size_cons] at hgt
      omega

/-- The line ends of a text show in its bytes. -/
theorem cleanCut_of_bytes {front back : Text}
    (h : ¬ (front.bytes.getLast? = some 0x0D ∧ back.bytes.head? = some 0x0A)) :
    front.CleanCut back := by
  rintro ⟨hlast, hhead⟩
  obtain ⟨before, rfl⟩ := List.getLast?_eq_some_iff.1 hlast
  obtain ⟨after, rfl⟩ := List.head?_eq_some_iff.1 hhead
  refine h ⟨?_, rfl⟩
  rw [bytes_append]
  exact List.getLast?_concat

end Text

/-- Two byte strings may be walked over one after the other if they meet between two characters of
what they make up together, and not within a line end. -/
theorem Position.advance_decode_append {front back : Bytes}
    (whole : ¬ (Text.decode (front ++ back)).InsideGlyph front.length)
    (clean : ¬ (front.getLast? = some 0x0D ∧ back.head? = some 0x0A)) (p : Position) :
    p.advance (Text.decode (front ++ back)) =
      (p.advance (Text.decode front)).advance (Text.decode back) := by
  obtain ⟨s, t, hdecode, hsize⟩ := Text.exists_append_of_not_insideGlyph (by simp) whole
  -- the bytes of the two halves of the text are the two byte strings
  have hs : s.bytes = front := by
    rw [← Text.take_size_of_decode hdecode, hsize, List.take_left]
  have ht : t.bytes = back := by
    rw [← Text.drop_size_of_decode hdecode, hsize, List.drop_left]
  have hfront : Text.decode front = s := hs ▸ Text.decode_bytes_of_append_left hdecode
  have hback : Text.decode back = t := ht ▸ Text.decode_bytes_of_append_right hdecode
  rw [← hs, ← ht] at clean
  rw [hdecode, hfront, hback, advance_append (Text.cleanCut_of_bytes clean)]

namespace Range

/-! ## Ranges -/

/-- The bytes that a range covers. -/
def bytes (r : Range) (source : Bytes) : Bytes :=
  (source.drop r.offset.toNat).take r.length.toNat

/-- The range lies within the source. -/
structure Within (r : Range) (source : Bytes) : Prop where
  start_nonneg : 0 ≤ r.offset
  length_nonneg : 0 ≤ r.length
  stop_le : r.offset + r.length ≤ source.length

/-- Both ranges lie within the source, and the second one starts where the first one ends. -/
structure Adjacent (r₁ r₂ : Range) (source : Bytes) : Prop where
  first : r₁.Within source
  second : r₂.Within source
  meet : r₂.offset = r₁.offset + r₁.length

/-- The range from the start of the first one to the end of the second one. -/
def join (r₁ r₂ : Range) : Range :=
  ⟨r₁.offset, r₁.position, r₁.length + r₂.length⟩

variable {r r₁ r₂ : Range} {source : Bytes}

theorem length_bytes (h : r.Within source) : (r.bytes source).length = r.length.toNat := by
  have := h.start_nonneg
  have := h.stop_le
  rw [bytes, List.length_take, List.length_drop]
  omega

theorem span_of_within (h : r.Within source) :
    r.span source = .ok ⟨r.position, r.position.advance (Text.decode (r.bytes source))⟩ := by
  have hlength : r.offset + r.length - r.offset = r.length := by omega
  have := h.length_nonneg
  rw [span, Checked.slice_eq_ok h.start_nonneg (by omega) h.stop_le, hlength]
  rfl

theorem Adjacent.within_join (h : r₁.Adjacent r₂ source) : (r₁.join r₂).Within source := by
  obtain ⟨⟨start, length₁, -⟩, ⟨-, length₂, stop⟩, meet⟩ := h
  exact ⟨start, Int.add_nonneg length₁ length₂, by simp only [join]; omega⟩

theorem Adjacent.bytes_join (h : r₁.Adjacent r₂ source) :
    (r₁.join r₂).bytes source = r₁.bytes source ++ r₂.bytes source := by
  obtain ⟨⟨start, length₁, -⟩, ⟨-, length₂, -⟩, meet⟩ := h
  have hoffset : r₂.offset.toNat = r₁.offset.toNat + r₁.length.toNat := by omega
  simp only [bytes, join]
  rw [Int.toNat_add length₁ length₂, List.take_add, List.drop_drop, hoffset]

/-- Positions are additive: two adjacent ranges together end where the second one ends if it starts
at the end position of the first one. They have to meet between two characters of what they cover
together, and not between a carriage return and its line feed. -/
theorem span_additive (source : Bytes) (r₁ r₂ : Range) (adjacent : r₁.Adjacent r₂ source)
    (whole : ¬ (Text.decode ((r₁.join r₂).bytes source)).InsideGlyph r₁.length.toNat)
    (clean : ¬ ((r₁.bytes source).getLast? = some 0x0D ∧
      (r₂.bytes source).head? = some 0x0A)) :
    ∃ s₁ s₂ s : Span, r₁.span source = .ok s₁ ∧
      span { r₂ with position := s₁.stop } source = .ok s₂ ∧
      (r₁.join r₂).span source = .ok s ∧ s.start = r₁.position ∧ s.stop = s₂.stop := by
  rw [adjacent.bytes_join, ← length_bytes adjacent.first] at whole
  have second (p : Position) : Within { r₂ with position := p } source :=
    ⟨adjacent.second.start_nonneg, adjacent.second.length_nonneg, adjacent.second.stop_le⟩
  refine ⟨_, _, _, span_of_within adjacent.first, span_of_within (second _),
    span_of_within adjacent.within_join, rfl, ?_⟩
  rw [adjacent.bytes_join]
  exact Position.advance_decode_append whole clean r₁.position

/-- The first range ends with a line end of two bytes. The second one starts with a stray byte and
ends with a character of two units. -/
theorem span_additive_stray_byte :
    let source : Bytes := [0x78, 0xC3, 0xA9, 0x0D, 0x0A, 0xFF, 0xF0, 0x9F, 0x98, 0x80]
    let r₁ : Range := ⟨1, ⟨3, 5⟩, 4⟩
    let r₂ : Range := ⟨5, ⟨4, 0⟩, 5⟩
    r₁.Adjacent r₂ source ∧
      ¬ (Text.decode ((r₁.join r₂).bytes source)).InsideGlyph 4 ∧
      ¬ ((r₁.bytes source).getLast? = some 0x0D ∧ (r₂.bytes source).head? = some 0x0A) ∧
      r₁.span source = .ok ⟨⟨3, 5⟩, ⟨4, 0⟩⟩ ∧ r₂.span source = .ok ⟨⟨4, 0⟩, ⟨4, 3⟩⟩ ∧
      (r₁.join r₂).span source = .ok ⟨⟨3, 5⟩, ⟨4, 3⟩⟩ := by
  intro source r₁ r₂
  have adjacent : r₁.Adjacent r₂ source :=
    ⟨⟨by decide, by decide, by decide⟩, ⟨by decide, by decide, by decide⟩, by decide⟩
  have hfirst : Text.decode (r₁.bytes source) = [.char 'é', .char '\r', .char '\n'] := by cbv
  have hsecond : Text.decode (r₂.bytes source) = [.stray 0xFF, .char '😀'] := by cbv
  have hjoin : Text.decode ((r₁.join r₂).bytes source) =
      [.char 'é', .char '\r', .char '\n'] ++ [.stray 0xFF, .char '😀'] := by cbv
  have whole : ¬ (Text.decode ((r₁.join r₂).bytes source)).InsideGlyph 4 := by
    rw [hjoin]
    exact Text.not_insideGlyph_append _ _
  have clean : ¬ ((r₁.bytes source).getLast? = some 0x0D ∧
      (r₂.bytes source).head? = some 0x0A) := by decide
  have hspan₁ : r₁.span source = .ok ⟨⟨3, 5⟩, ⟨4, 0⟩⟩ := by
    rw [span_of_within adjacent.first, hfirst]
    rfl
  have hspan₂ : r₂.span source = .ok ⟨⟨4, 0⟩, ⟨4, 3⟩⟩ := by
    rw [span_of_within adjacent.second, hsecond]
    rfl
  obtain ⟨s₁, s₂, s, h₁, h₂, h, hstart, hstop⟩ := span_additive source r₁ r₂ adjacent whole clean
  obtain rfl : _ = s₁ := Except.ok.inj (hspan₁.symm.trans h₁)
  obtain rfl : _ = s₂ := Except.ok.inj (hspan₂.symm.trans h₂)
  obtain ⟨start, stop⟩ := s
  obtain rfl : start = _ := hstart
  obtain rfl : stop = _ := hstop
  exact ⟨adjacent, whole, clean, hspan₁, hspan₂, h⟩

/-- A line end that is taken apart counts twice, and so does a character of two bytes. -/
example :
    Position.origin.advance (Text.decode [0x0D, 0x0A]) = ⟨1, 0⟩ ∧
    (Position.origin.advance (Text.decode [0x0D])).advance (Text.decode [0x0A]) = ⟨2, 0⟩ ∧
    (Text.decode [0xC3, 0xA9]).units = 1 ∧
    (Text.decode [0xC3]).units + (Text.decode [0xA9]).units = 2 := by
  cbv

end Range

end Asm6502
