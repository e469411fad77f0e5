import Asm6502.Debug.OffsetTable
import Asm6502.Debug.RoundTrip

/-!
# Reading a section

What a reader finds is the number at its place, and reading moves it behind that number. From this
the reading of a unit header and of a sequence of offsets can be said in closed form.

## Main definitions

- `ByteOrder.numberAt`: the number at a place of a section.
- `OffsetFormat.lengthSize`, `SectionReader.LengthField`: the size and the contents of a unit
  length.
- `OffsetTable.entryCount`: how many entries start within a stretch of bytes.

## Main statements

- `SectionReader.readLength_eq_ok_iff`, `SectionReader.readHeader_eq_iff`: reading a unit header.
- `SectionReader.unitStop_eq_of_le`: the end of an accepted unit has not wrapped around.
- `OffsetTable.readOffsets_eq`: reading offsets up to a place.
-/

namespace Asm6502

/-- The number of `width` bytes at `place`. -/
def ByteOrder.numberAt (order : ByteOrder) (data : Bytes) (place width : Nat) : Nat :=
  order.number ((data.drop place).take width)

theorem ByteOrder.numberAt_lt (order : ByteOrder) (data : Bytes) (place width : Nat) :
    order.numberAt data place width < 256 ^ width :=
  (order.number_lt _).trans_le (Nat.pow_le_pow_right (by decide) (List.length_take_le width _))

/-- The number of bytes that the length of a unit takes up. -/
def OffsetFormat.lengthSize : OffsetFormat → Nat
  | narrow => 4
  | wide => 12

theorem OffsetFormat.width_pos (format : OffsetFormat) : 0 < format.width := by
  cases format <;> decide

namespace SectionReader

variable {r : SectionReader} {width : Nat}

theorem read_of_le (h : r.position + width ≤ r.data.length) :
    r.read width = .ok (r.order.numberAt r.data r.position width,
      { r with position := r.position + width }) :=
  if_pos h

theorem read_of_lt (h : r.data.length < r.position + width) : r.read width = .error .truncated :=
  if_neg (by omega)

theorem read_eq_ok_iff {n : Nat} {r' : SectionReader} :
    r.read width = .ok (n, r') ↔ r.position + width ≤ r.data.length ∧
      n = r.order.numberAt r.data r.position width ∧
      r' = { r with position := r.position + width } := by
  by_cases h : r.position + width ≤ r.data.length
  · simp [read_of_le h, h, eq_comm]
  · simp [read_of_lt (Nat.lt_of_not_le h), h]

/-! ## Unit headers -/

/-- The length of the unit at the place of the reader, and its format. -/
inductive LengthField (r : SectionReader) : OffsetFormat → Nat → Prop where
  | narrow {n : Nat} (complete : r.position + 4 ≤ r.data.length)
      (stored : r.order.numberAt r.data r.position 4 = n) (plain : n ≠ wideEscape) :
      LengthField r .narrow n
  | wide {n : Nat} (complete : r.position + 12 ≤ r.data.length)
      (escape : r.order.numberAt r.data r.position 4 = wideEscape)
      (stored : r.order.numberAt r.data (r.position + 4) 8 = n) : LengthField r .wide n

theorem LengthField.lt {format : OffsetFormat} {n : Nat} (h : r.LengthField format n) :
    n < 2 ^ 64 := by
  cases h with
  | narrow _ stored => exact stored ▸ (r.order.numberAt_lt _ _ _).trans_le (by decide)
  | wide _ _ stored => exact stored ▸ (r.order.numberAt_lt _ _ _).trans_le (by decide)

/-- The reader behind the length of a unit. -/
def behindLength (r : SectionReader) (format : OffsetFormat) : SectionReader :=
  { r with position := r.position + format.lengthSize, format }

theorem readLength_eq_ok_iff {format : OffsetFormat} {n : Nat} {r' : SectionReader} :
    r.readLength = ((format, .ok n), r') ↔ r.LengthField format n ∧ r' = r.behindLength format := by
  constructor
  · intro h
    unfold readLength at h
    by_cases h₄ : r.position + 4 ≤ r.data.length
    · rw [read_of_le h₄] at h
      dsimp only at h
      split at h
      · rename_i escape
        by_cases h₁₂ : r.position + 4 + 8 ≤ r.data.length
        · rw [read_of_le h₁₂] at h
          cases h
          exact ⟨.wide h₁₂ escape rfl, rfl⟩
        · rw [read_of_lt (by simpa using h₁₂)] at h
          cases h
      · rename_i plain
        cases h
        exact ⟨.narrow h₄ rfl plain, rfl⟩
    · rw [read_of_lt (by omega)] at h
      cases h
  · rintro ⟨length, rfl⟩
    unfold readLength
    cases length with
    | narrow complete stored plain =>
      rw [read_of_le complete, stored]
      simp [plain, behindLength, OffsetFormat.lengthSize]
    | wide complete escape stored =>
      have h₁₂ : r.position + 4 + 8 ≤ r.data.length := complete
      rw [read_of_le (by omega)]
      dsimp only
      rw [if_pos escape, read_of_le h₁₂]
      simp [behindLength, OffsetFormat.lengthSize, Nat.add_assoc, stored]

/-- The end of a unit is exact, or it lies in front of the unit. -/
theorem unitStop_eq_of_le {position unitLength : Nat} (hp : position < 2 ^ 63)
    (hu : unitLength < 2 ^ 64) (h : position ≤ unitStop position unitLength) :
    unitStop position unitLength = position + unitLength ∧ position + unitLength < 2 ^ 63 := by
  unfold unitStop at h ⊢
  rw [Int.bmod_def] at h ⊢
  split at h <;> rename_i hlt
  · rw [if_pos hlt]
    omega
  · omega

theorem unitStop_of_lt {position unitLength : Nat} (h : position + unitLength < 2 ^ 63) :
    unitStop position unitLength = position + unitLength := by
  unfold unitStop
  rw [Int.bmod_def, if_pos (by omega)]
  omega

/-- The header of the unit at the place of the reader. The unit lies within the section, but for its
version. -/
structure HeaderField (r : SectionReader) (header : UnitHeader) : Prop where
  length : r.LengthField header.format header.unitLength
  stop_eq : header.stop = (r.behindLength header.format).position + header.unitLength
  stop_lt : (r.behindLength header.format).position + header.unitLength < 2 ^ 63
  stop_le : (r.behindLength header.format).position + header.unitLength ≤ r.data.length
  complete : (r.behindLength header.format).position + 2 ≤ r.data.length
  version_eq :
    header.version = r.order.numberAt r.data (r.behindLength header.format).position 2

/-- The reader behind the header of a unit. -/
def behindHeader (r : SectionReader) (format : OffsetFormat) : SectionReader :=
  { r.behindLength format with position := (r.behindLength format).position + 2 }

theorem readHeader_eq_iff {header : UnitHeader} {r' : SectionReader}
    (place : r.position + 12 < 2 ^ 63) :
    r.readHeader = ⟨header, none, r'⟩ ↔
      r.HeaderField header ∧ r' = r.behindHeader header.format := by
  have hstart (format : OffsetFormat) : (r.behindLength format).position < 2 ^ 63 := by
    cases format <;> simp only [behindLength, OffsetFormat.lengthSize] <;> omega
  constructor
  · intro h
    unfold readHeader at h
    split at h
    · cases h
    · rename_i format unitLength behind hlength
      obtain ⟨length, rfl⟩ := readLength_eq_ok_iff.1 hlength
      dsimp only at h
      split at h
      · cases h
      · rename_i accepted
        rw [not_or, Int.not_lt, Int.not_lt] at accepted
        obtain ⟨hstop, hlt⟩ := unitStop_eq_of_le (hstart format) length.lt accepted.2
        rw [hstop] at accepted h
        have hle : (r.behindLength format).position + unitLength ≤ r.data.length := by
          exact_mod_cast accepted.1
        by_cases complete : (r.behindLength format).position + 2 ≤ r.data.length
        · rw [readHalf, read_of_le complete] at h
          cases h
          exact ⟨⟨length, rfl, hlt, hle, complete, rfl⟩, rfl⟩
        · rw [readHalf, read_of_lt (by simpa [behindLength] using complete)] at h
          cases h
  · rintro ⟨field, rfl⟩
    have hlength := readLength_eq_ok_iff.2 ⟨field.length, rfl⟩
    have hle : (r.behindLength header.format).position + header.unitLength ≤
        (r.behindLength header.format).data.length := field.stop_le
    have hstop := unitStop_of_lt field.stop_lt
    unfold readHeader
    rw [hlength]
    dsimp only
    have hversion : (r.behindLength header.format).order.numberAt
        (r.behindLength header.format).data (r.behindLength header.format).position 2 =
        header.version := field.version_eq.symm
    rw [hstop, if_neg (by omega), readHalf, read_of_le field.complete, hversion, ← field.stop_eq]
    rfl

end SectionReader

namespace OffsetTable

/-! ## Sequences of offsets -/

/-- How many entries of `width` bytes start among the first `bytes` bytes. -/
def entryCount (bytes width : Nat) : Nat :=
  (bytes + width - 1) / width

theorem entryCount_mul {width : Nat} (h : 0 < width) (n : Nat) :
    entryCount (width * n) width = n := by
  refine Nat.div_eq_of_lt_le ?_ ?_ <;> rw [Nat.mul_comm width n]
  · omega
  · rw [Nat.succ_mul]
    omega

theorem entryCount_bounds {width : Nat} (h : 0 < width) (bytes : Nat) :
    bytes ≤ width * entryCount bytes width ∧ width * entryCount bytes width < bytes + width := by
  have hdiv := Nat.div_add_mod (bytes + width - 1) width
  have hmod := Nat.mod_lt (bytes + width - 1) h
  unfold entryCount
  omega

theorem entryCount_of_pos {bytes width : Nat} (h : 0 < width) (hbytes : 0 < bytes) :
    entryCount bytes width = entryCount (bytes - width) width + 1 := by
  unfold entryCount
  rw [← Nat.add_div_right _ h]
  by_cases hle : width ≤ bytes
  · congr 1
    omega
  · have e₁ : (bytes + width - 1) / width = 1 := Nat.div_eq_of_lt_le (by omega) (by omega)
    have e₂ : (bytes - width + width - 1 + width) / width = 1 :=
      Nat.div_eq_of_lt_le (by omega) (by omega)
    rw [e₁, e₂]

/-- The numbers of `width` bytes each that follow each other from `place` on. -/
def numbersFrom (order : ByteOrder) (data : Bytes) (place width n : Nat) : List Nat :=
  (List.range n).map fun i => order.numberAt data (place + width * i) width

theorem numbersFrom_succ (order : ByteOrder) (data : Bytes) (place width n : Nat) :
    numbersFrom order data place width (n + 1) =
      order.numberAt data place width :: numbersFrom order data (place + width) width n := by
  simp [numbersFrom, List.range_succ_eq_map, Nat.mul_add, Nat.add_assoc, Nat.add_comm width]

/-- Offsets are read one after the other until one starts at `stop` or behind it. The last one may
reach beyond `stop`. -/
theorem readOffsets_eq (stop : Int) (r : SectionReader) (within : r.position ≤ r.data.length) :
    let width := r.format.width
    let n := entryCount (stop.toNat - r.position) width
    readOffsets stop r =
      if r.position + width * n ≤ r.data.length then
        .ok (numbersFrom r.order r.data r.position width n,
          { r with position := r.position + width * n })
      else .error .truncated := by
  have width_pos := r.format.width_pos
  dsimp only
  fun_induction readOffsets stop r with
  | case1 r hlt e he =>
    rw [entryCount_of_pos width_pos (by omega), Nat.mul_succ]
    by_cases hread : r.position + r.format.width ≤ r.data.length
    · rw [SectionReader.readOffset, SectionReader.read_of_le hread] at he
      cases he
    · rw [SectionReader.readOffset, SectionReader.read_of_lt (by omega)] at he
      cases he
      rw [if_neg (by omega)]
  | case2 r hlt offset next hnext _ e he ih =>
    obtain ⟨hread, -, rfl⟩ := SectionReader.read_eq_ok_iff.1 hnext
    have rest := he.symm.trans (ih hread width_pos)
    rw [entryCount_of_pos width_pos (by omega), Nat.mul_succ, Nat.sub_sub]
    dsimp only at rest
    split at rest
    · cases rest
    · cases rest
      rw [if_neg (by omega)]
  | case3 r hlt offset next hnext _ offsets last he ih =>
    obtain ⟨hread, rfl, rfl⟩ := SectionReader.read_eq_ok_iff.1 hnext
    have rest := he.symm.trans (ih hread width_pos)
    rw [entryCount_of_pos width_pos (by omega), Nat.mul_succ, Nat.sub_sub, numbersFrom_succ]
    dsimp only at rest
    split at rest
    · cases rest
      rw [if_pos (by omega), ← Nat.add_assoc, Nat.add_right_comm]
    · cases rest
  | case4 r hlt =>
    have hn : entryCount (stop.toNat - r.position) r.format.width = 0 := by
      rw [Nat.sub_eq_zero_of_le (by omega)]
      exact entryCount_mul width_pos 0
    simp [hn, within, numbersFrom]

end OffsetTable

end Asm6502
