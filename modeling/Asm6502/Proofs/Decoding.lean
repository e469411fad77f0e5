import Asm6502.Text.RoundTrip

/-!
# Decoding piece by piece

A text may be cut at any boundary between two of its characters: each piece decodes to the
characters it holds. The other way round, two byte strings may be decoded apart and put together,
provided the second one does not open with a continuation byte.

## Main statements

- `Text.decode_bytes_of_append`: the pieces of a decoded text decode to themselves.
- `Text.decode_append_cons`: decoding in front of a byte that continues nothing.
- `Text.head?_decode_eq_some_iff`: the first byte tells which ASCII character comes first.
- `Text.proper_of_mem_decode`: stray bytes are never ASCII.
-/

namespace Asm6502

/-- The glyphs that decoding gives: an ASCII byte is never stray. -/
def Glyph.Proper : Glyph → Prop
  | char _ => True
  | stray b => 0x80 ≤ b.toNat

theorem Glyph.isBreak_iff {g : Glyph} : g.isBreak = true ↔ g = .char '\r' ∨ g = .char '\n' := by
  simp [Glyph.isBreak, Glyph.is]

theorem Glyph.ne_of_not_isBreak {g : Glyph} (h : g.isBreak = false) :
    g ≠ .char '\r' ∧ g ≠ .char '\n' := by
  rw [← not_or, ← isBreak_iff, h]
  exact Bool.false_ne_true

namespace Text

/-! ## Single sequences -/

/-- What follows a well-formed sequence does not matter. -/
theorem sequence?_append {lead : UInt8} {rest : Bytes} {c : Char} (more : Bytes)
    (h : sequence? lead rest = some c) : sequence? lead (rest ++ more) = some c := by
  rcases rest with _ | ⟨b₁, _ | ⟨b₂, _ | ⟨b₃, rest⟩⟩⟩ <;> simp only [sequence?] at h ⊢ <;> grind

/-- A byte that continues nothing ends every sequence in front of it. -/
theorem sequence?_append_cons {b : UInt8} (hb : tailBits? b = none) (lead : UInt8)
    (rest more : Bytes) : sequence? lead (rest ++ b :: more) = sequence? lead rest := by
  rcases rest with _ | ⟨b₁, _ | ⟨b₂, _ | ⟨b₃, rest⟩⟩⟩ <;> rcases more with _ | ⟨m₁, _ | _⟩ <;>
    simp [sequence?, hb]

/-- A well-formed sequence lies within the bytes it was read from. -/
theorem utf8Size_le_of_sequence? {lead : UInt8} {rest : Bytes} {c : Char}
    (h : sequence? lead rest = some c) : c.utf8Size - 1 ≤ rest.length := by
  have e := congrArg List.length (cons_eq_of_sequence? h)
  simp only [List.length_cons, List.length_append, String.length_utf8EncodeChar,
    List.length_drop] at e
  omega

theorem tailBits?_ofNat {n : Nat} (h : n < 0x40) : tailBits? (UInt8.ofNat (n + 0x80)) = some n := by
  have e : (UInt8.ofNat (n + 0x80)).toNat = n + 0x80 := by
    rw [UInt8.toNat_ofNat']
    omega
  simp only [tailBits?, e]
  rw [if_pos (by omega), Nat.add_sub_cancel]

theorem scalar?_of_val {least code : Nat} {c : Char} (h : c.val.toNat = code) (hle : least ≤ code) :
    scalar? least code = some c := by
  have valid : c.val.toNat < 0xD800 ∨ 0xDFFF < c.val.toNat ∧ c.val.toNat < 0x110000 := c.valid
  subst h
  rw [scalar?, if_pos ⟨hle, valid⟩]
  exact congrArg some (Char.ofNat_toNat c)

/-! The sequences of each length, from the numbers that their bytes carry. -/

theorem sequence?_one {lead : UInt8} (h : lead.toNat < 0x80) (rest : Bytes) :
    sequence? lead rest = some (Char.ofNat lead.toNat) := by
  simp [sequence?, h]

theorem sequence?_two {lead b : UInt8} {n x : Nat} {u : Char} (h : lead.toNat = n + 0xC0)
    (hn : n < 0x20) (hx : tailBits? b = some x) (hu : scalar? 0x80 (n * 0x40 + x) = some u)
    (rest : Bytes) : sequence? lead (b :: rest) = some u := by
  unfold sequence?
  rw [if_neg (by omega), if_neg (by omega), if_pos (by omega), h, Nat.add_sub_cancel]
  simp only [Option.bind_eq_bind, Option.bind_eq_some_iff]
  exact ⟨x, hx, hu⟩

theorem sequence?_three {lead b c : UInt8} {n x y : Nat} {u : Char} (h : lead.toNat = n + 0xE0)
    (hn : n < 0x10) (hx : tailBits? b = some x) (hy : tailBits? c = some y)
    (hu : scalar? 0x800 (n * 0x1000 + x * 0x40 + y) = some u) (rest : Bytes) :
    sequence? lead (b :: c :: rest) = some u := by
  unfold sequence?
  rw [if_neg (by omega), if_neg (by omega), if_neg (by omega), if_pos (by omega), h,
    Nat.add_sub_cancel]
  simp only [Option.bind_eq_bind, Option.bind_eq_some_iff]
  exact ⟨x, hx, y, hy, hu⟩

theorem sequence?_four {lead b c d : UInt8} {n x y z : Nat} {u : Char} (h : lead.toNat = n + 0xF0)
    (hn : n < 0x08) (hx : tailBits? b = some x) (hy : tailBits? c = some y)
    (hz : tailBits? d = some z)
    (hu : scalar? 0x10000 (n * 0x40000 + x * 0x1000 + y * 0x40 + z) = some u) (rest : Bytes) :
    sequence? lead (b :: c :: d :: rest) = some u := by
  unfold sequence?
  rw [if_neg (by omega), if_neg (by omega), if_neg (by omega), if_neg (by omega),
    if_pos (by omega), h, Nat.add_sub_cancel]
  simp only [Option.bind_eq_bind, Option.bind_eq_some_iff]
  exact ⟨x, hx, y, hy, z, hz, hu⟩

theorem toNat_ofNat_of_lt {n : Nat} (h : n < 0x100) : (UInt8.ofNat n).toNat = n := by
  rw [UInt8.toNat_ofNat']
  exact Nat.mod_eq_of_lt h

/-- The UTF-8 form of a character is a well-formed sequence. -/
theorem exists_sequence?_utf8EncodeChar (c : Char) :
    ∃ lead tail, String.utf8EncodeChar c = lead :: tail ∧ sequence? lead tail = some c := by
  have valid : c.val.toNat < 0xD800 ∨ 0xDFFF < c.val.toNat ∧ c.val.toNat < 0x110000 := c.valid
  have tail (n : Nat) : tailBits? (UInt8.ofNat (n % 0x40 + 0x80)) = some (n % 0x40) :=
    tailBits?_ofNat (Nat.mod_lt n (by decide))
  simp only [String.utf8EncodeChar]
  split
  · refine ⟨_, _, rfl, ?_⟩
    have lead := toNat_ofNat_of_lt (n := c.val.toNat) (by omega)
    rw [sequence?_one (by omega), lead]
    exact congrArg some (Char.ofNat_toNat c)
  split
  · refine ⟨_, _, rfl,
      sequence?_two (toNat_ofNat_of_lt ?_) ?_ (tail _) (scalar?_of_val ?_ ?_) _⟩ <;>
      omega
  split
  · refine ⟨_, _, rfl, sequence?_three (toNat_ofNat_of_lt ?_) ?_ (tail _) (tail _)
      (scalar?_of_val ?_ ?_) _⟩ <;> omega
  · refine ⟨_, _, rfl, sequence?_four (toNat_ofNat_of_lt ?_) ?_ (tail _) (tail _) (tail _)
      (scalar?_of_val ?_ ?_) _⟩ <;> omega

/-- A character is read back from its UTF-8 form, whatever follows it. -/
theorem decode_utf8EncodeChar_append (c : Char) (more : Bytes) :
    decode (String.utf8EncodeChar c ++ more) = .char c :: decode more := by
  obtain ⟨lead, tail, e, h⟩ := exists_sequence?_utf8EncodeChar c
  have hlen : c.utf8Size - 1 = tail.length := by
    rw [← String.length_utf8EncodeChar c, e, List.length_cons, Nat.add_sub_cancel]
  rw [e, List.cons_append, decode, sequence?_append more h]
  simp only [hlen, List.drop_left]

/-- A string is read back from its bytes. -/
theorem decode_bytes_ofString (s : String) : decode (bytes (ofString s)) = ofString s := by
  rw [ofString]
  induction s.toList with
  | nil => simp
  | cons c cs ih => rw [List.map_cons, bytes_cons, Glyph.bytes, decode_utf8EncodeChar_append, ih]

/-! ## Cutting a text -/

/-- The last piece of a decoded text decodes to itself. -/
theorem decode_bytes_of_append_right {source : Bytes} {front back : Text}
    (h : decode source = front ++ back) : decode back.bytes = back := by
  induction front generalizing source with
  | nil =>
    have e : back.bytes = source := by rw [← bytes_decode source, h, List.nil_append]
    rw [e, h, List.nil_append]
  | cons g front ih =>
    cases source with
    | nil => simp at h
    | cons lead rest =>
      rw [decode] at h
      split at h <;> exact ih (List.cons.inj h).2

/-- The first piece of a decoded text decodes to itself. -/
theorem decode_bytes_of_append_left {source : Bytes} {front back : Text}
    (h : decode source = front ++ back) : decode front.bytes = front := by
  induction front generalizing source with
  | nil => simp
  | cons g front ih =>
    cases source with
    | nil => simp at h
    | cons lead rest =>
      rw [decode] at h
      split at h
      · obtain ⟨rfl, htail⟩ := List.cons.inj h
        rw [bytes_cons, Glyph.bytes, decode_utf8EncodeChar_append, ih htail]
      · rename_i hnone
        obtain ⟨rfl, htail⟩ := List.cons.inj h
        have hrest : rest = bytes front ++ back.bytes := by
          rw [← bytes_append]
          exact (bytes_decode rest).symm.trans (congrArg bytes htail)
        -- with fewer bytes behind it the lead byte is no better off
        have hlead : sequence? lead (bytes front) = none := by
          cases hs : sequence? lead (bytes front) with
          | none => rfl
          | some c => simp [hrest, sequence?_append back.bytes hs] at hnone
        simp [Glyph.bytes, decode, hlead, ih htail]

/-- Every piece of a decoded text decodes to itself. -/
theorem decode_bytes_of_append {source : Bytes} {front piece back : Text}
    (h : decode source = front ++ piece ++ back) : decode piece.bytes = piece :=
  decode_bytes_of_append_right (decode_bytes_of_append_left h)

/-- A text is cut in bytes where it is cut in characters. -/
theorem take_size_of_decode {source : Bytes} {front back : Text}
    (h : decode source = front ++ back) : source.take front.size = front.bytes := by
  rw [← bytes_decode source, h, bytes_append, ← length_bytes, List.take_left]

theorem drop_size_of_decode {source : Bytes} {front back : Text}
    (h : decode source = front ++ back) : source.drop front.size = back.bytes := by
  rw [← bytes_decode source, h, bytes_append, ← length_bytes, List.drop_left]

@[simp] theorem size_decode (source : Bytes) : (decode source).size = source.length := by
  rw [← length_bytes, bytes_decode]

/-! ## Joining texts -/

/-- Decoding in front of a byte that continues nothing. -/
theorem decode_append_cons {b : UInt8} (hb : tailBits? b = none) (front more : Bytes) :
    decode (front ++ b :: more) = decode front ++ decode (b :: more) := by
  fun_induction decode front with
  | case1 => rfl
  | case2 lead rest c h ih =>
    have hle := utf8Size_le_of_sequence? h
    rw [List.cons_append, decode, sequence?_append_cons hb, h]
    simp only [List.drop_append_of_le_length hle, ih, List.cons_append]
  | case3 lead rest h ih =>
    rw [List.cons_append, decode, sequence?_append_cons hb, h]
    simp only [ih, List.cons_append]

theorem utf8EncodeChar_ofNat {b : UInt8} (hb : b.toNat < 0x80) :
    String.utf8EncodeChar (Char.ofNat b.toNat) = [b] := by
  have hval : (Char.ofNat b.toNat).val.toNat = b.toNat :=
    val_ofNat (by unfold Nat.isValidChar; omega)
  simp only [String.utf8EncodeChar, hval]
  rw [if_pos (by omega), UInt8.ofNat_toNat]

/-- An ASCII byte is a character of its own. -/
theorem decode_cons_of_lt {b : UInt8} (hb : b.toNat < 0x80) (more : Bytes) :
    decode (b :: more) = .char (Char.ofNat b.toNat) :: decode more := by
  simpa [utf8EncodeChar_ofNat hb] using decode_utf8EncodeChar_append (Char.ofNat b.toNat) more

theorem bytes_char {c : Char} (h : c.toNat < 0x80) :
    (Glyph.char c).bytes = [UInt8.ofNat c.toNat] := by
  have hle : c.val.toNat ≤ 0x7F := Nat.le_of_lt_succ h
  simp only [Glyph.bytes, String.utf8EncodeChar]
  rw [if_pos hle]
  rfl

/-- The first byte of a text tells which ASCII character it opens with. -/
theorem head?_decode_eq_some_iff {x : Bytes} {c : Char} (hc : c.toNat < 0x80) :
    (decode x).head? = some (.char c) ↔ x.head? = some (UInt8.ofNat c.toNat) := by
  constructor
  · intro h
    obtain ⟨t, ht⟩ := List.head?_eq_some_iff.1 h
    rw [← bytes_decode x, ht, bytes_cons, bytes_char hc]
    rfl
  · intro h
    obtain ⟨more, rfl⟩ := List.head?_eq_some_iff.1 h
    have hbyte : (UInt8.ofNat c.toNat).toNat = c.toNat := toNat_ofNat_of_lt (by omega)
    rw [decode_cons_of_lt (by omega), hbyte, Char.ofNat_toNat]
    rfl

theorem proper_of_mem_decode {source : Bytes} {g : Glyph} (h : g ∈ decode source) : g.Proper := by
  fun_induction decode source with
  | case1 => simp at h
  | case2 lead rest c hc ih =>
    rcases List.mem_cons.1 h with rfl | h
    · trivial
    · exact ih h
  | case3 lead rest hc ih =>
    rcases List.mem_cons.1 h with rfl | h
    · have : ¬ lead.toNat < 0x80 := fun hlt => by simp [sequence?_one hlt] at hc
      exact Nat.le_of_not_lt this
    · exact ih h

/-! ## Line ends -/

/-- Only an ASCII character has an ASCII byte. -/
theorem toNat_of_mem_utf8EncodeChar {c : Char} {b : UInt8} (h : b ∈ String.utf8EncodeChar c) :
    b.toNat = c.val.toNat ∨ 0x80 ≤ b.toNat := by
  simp only [String.utf8EncodeChar] at h
  split at h
  · rw [List.mem_singleton] at h
    subst h
    exact .inl (toNat_ofNat_of_lt (by omega))
  · right
    have high {n : Nat} (hle : 0x80 ≤ n) (hlt : n < 0x100) : 0x80 ≤ (UInt8.ofNat n).toNat := by
      rw [toNat_ofNat_of_lt hlt]
      exact hle
    split at h
    · simp only [List.mem_cons, List.not_mem_nil, or_false] at h
      rcases h with rfl | rfl <;> exact high (by omega) (by omega)
    split at h
    · simp only [List.mem_cons, List.not_mem_nil, or_false] at h
      rcases h with rfl | rfl | rfl <;> exact high (by omega) (by omega)
    · simp only [List.mem_cons, List.not_mem_nil, or_false] at h
      rcases h with rfl | rfl | rfl | rfl <;> exact high (by omega) (by omega)

/-- In UTF-8 only the line ends themselves have a byte of a line end. -/
theorem forall_bytes_of_not_isBreak {g : Glyph} (hg : g.Proper) (h : g.isBreak = false) :
    ∀ b ∈ g.bytes, b ≠ 0x0D ∧ b ≠ 0x0A := by
  cases g with
  | stray b =>
    intro x hx
    rw [Glyph.bytes, List.mem_singleton] at hx
    subst hx
    have hle : 0x80 ≤ x.toNat := hg
    constructor <;> rintro rfl <;> revert hle <;> decide
  | char c =>
    simp only [Glyph.isBreak, Glyph.is_char, Bool.or_eq_false_iff, beq_eq_false_iff_ne] at h
    have ne_of {x : UInt8} {e : Char} (hx : x.toNat = e.val.toNat) (hlt : x.toNat < 0x80)
        (hne : c ≠ e) (hmem : x ∈ (Glyph.char c).bytes) : False := by
      rcases toNat_of_mem_utf8EncodeChar hmem with hc | hle
      · exact hne (Char.ext (UInt32.toNat_inj.1 (by omega)))
      · omega
    intro b hb
    constructor <;> rintro rfl
    · exact ne_of rfl (by decide) h.1 hb
    · exact ne_of rfl (by decide) h.2 hb

/-- A text opens with the byte of a line feed only if it opens with a line feed. -/
theorem head?_eq_of_head?_bytes {t : Text} (h : ∀ g ∈ t, g.Proper)
    (hb : t.bytes.head? = some 0x0A) : t.head? = some (.char '\n') := by
  cases t with
  | nil => simp at hb
  | cons g t =>
    have hmem : 0x0A ∈ g.bytes := by
      have hpos := g.width_pos
      cases hg : g.bytes with
      | nil => simp [← Glyph.length_bytes, hg] at hpos
      | cons b bs =>
        rw [bytes_cons, hg] at hb
        simp_all
    have hbreak : g.isBreak = true := by
      rw [← Bool.not_eq_false]
      exact fun hf => (forall_bytes_of_not_isBreak (h g List.mem_cons_self) hf _ hmem).2 rfl
    rcases Glyph.isBreak_iff.1 hbreak with rfl | rfl
    · simp [Glyph.bytes, String.utf8EncodeChar] at hmem
    · rfl

end Text

end Asm6502
