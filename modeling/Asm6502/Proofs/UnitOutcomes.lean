import Asm6502.Proofs.StoredOffsets

/-!
# Outcomes of reading a unit

The bytes at the place of a reader announce a unit, whether or not all of it is there. What they
announce decides how reading ends: with a table, with a version that is not understood, or with the
end of the section. The end of a unit is computed in machine words, and no length leads them astray.

## Main definitions

- `SectionReader.announcedFormat`, `SectionReader.announcedLength`, `SectionReader.announcedHeader`:
  what the bytes at the place of a reader say about a unit.
- `SectionReader.HeaderFits`: the announced unit and its header lie within the section.

## Main statements

- `SectionReader.unitStop_outside_iff`: the test for the end of a unit is exact.
- `SectionReader.readHeader_of_lengthField`: reading a header in closed form.
- `OffsetTable.read_eq`: reading a table in closed form.
-/

namespace Asm6502

namespace SectionReader

/-! ## The end of a unit -/

/-- The end of a unit is a sum of signed words of 64 bits, the second of which has the bits of the
unsigned length. -/
theorem unitStop_eq_toInt (position unitLength : Nat) :
    unitStop position unitLength =
      (Int64.ofNat position + (UInt64.ofNat unitLength).toInt64).toInt := by
  have hlength : (UInt64.ofNat unitLength).toInt64 = Int64.ofNat unitLength := rfl
  rw [hlength, Int64.toInt_add, Int64.toInt_ofNat', Int64.toInt_ofNat', Int.bmod_add_bmod,
    Int.add_bmod_bmod]
  rfl

/-- A unit reaches beyond the section exactly if its end seems to, or seems to lie in front of its
start. -/
theorem unitStop_outside_iff {position unitLength size : Nat} (within : position ≤ size)
    (hsize : size < 2 ^ 63) (hlength : unitLength < 2 ^ 64) :
    (size < unitStop position unitLength ∨ unitStop position unitLength < position) ↔
      size < position + unitLength := by
  constructor
  · intro outside
    by_contra inside
    have exact_stop := unitStop_of_lt (show position + unitLength < 2 ^ 63 by omega)
    omega
  · intro beyond
    by_contra inside
    rw [not_or, Int.not_lt, Int.not_lt] at inside
    obtain ⟨exact_stop, -⟩ := unitStop_eq_of_le (by omega) hlength inside.2
    omega

variable {r : SectionReader} {format : OffsetFormat} {unitLength : Nat}

theorem LengthField.complete_position (h : r.LengthField format unitLength) :
    (r.behindLength format).position ≤ r.data.length := by
  cases h with
  | narrow complete => exact complete
  | wide complete => exact complete

/-- Behind a complete length, reading a header fails if the unit or the version reaches beyond the
section. The end that is kept is exact unless it is the reason for failing. -/
theorem readHeader_of_lengthField (h : r.LengthField format unitLength)
    (hdata : r.data.length < 2 ^ 63) :
    let behind := r.behindLength format
    let stop := behind.position + unitLength
    r.readHeader =
      if r.data.length < stop then
        ⟨{ unitLength, format, stop := unitStop behind.position unitLength },
          some .truncated, behind⟩
      else if behind.position + 2 ≤ r.data.length then
        ⟨{ unitLength, format, stop, version := r.order.numberAt r.data behind.position 2 },
          none, r.behindHeader format⟩
      else ⟨{ unitLength, format, stop }, some .truncated, behind⟩ := by
  intro behind stop
  have outside : (r.behindLength format).data.length < unitStop behind.position unitLength ∨
      unitStop behind.position unitLength < behind.position ↔ r.data.length < stop :=
    unitStop_outside_iff h.complete_position hdata h.lt
  unfold readHeader
  rw [readLength_eq_ok_iff.2 ⟨h, rfl⟩]
  dsimp only
  by_cases beyond : r.data.length < stop
  · rw [if_pos (outside.2 beyond), if_pos beyond]
  · have exact_stop : unitStop behind.position unitLength = stop := unitStop_of_lt (by omega)
    rw [if_neg (mt outside.1 beyond), if_neg beyond, readHalf]
    by_cases complete : behind.position + 2 ≤ r.data.length
    · rw [read_of_le complete, if_pos complete, exact_stop]
      rfl
    · rw [read_of_lt (Nat.lt_of_not_le complete), if_neg complete, exact_stop]

/-- The test for the end of a unit, made in signed words of 64 bits, turns a unit down exactly if it
reaches beyond the section, whatever its length. The end of a unit that passes is exact. -/
theorem unit_bound_exact (r behind : SectionReader) (format : OffsetFormat) (unitLength : Nat)
    (hlength : r.readLength = ((format, .ok unitLength), behind)) (hdata : r.data.length < 2 ^ 63) :
    let stop := unitStop behind.position unitLength
    stop = (Int64.ofNat behind.position + (UInt64.ofNat unitLength).toInt64).toInt ∧
    ((r.data.length < stop ∨ stop < behind.position) ↔
      r.data.length < behind.position + unitLength) ∧
    (r.data.length < behind.position + unitLength →
      r.readHeader = ⟨{ unitLength, format, stop }, some .truncated, behind⟩) ∧
    (behind.position + unitLength ≤ r.data.length →
      r.readHeader.header.stop = behind.position + unitLength ∧
      (r.readHeader.error = none ↔ behind.position + 2 ≤ r.data.length)) := by
  intro stop
  obtain ⟨field, rfl⟩ := readLength_eq_ok_iff.1 hlength
  have header := readHeader_of_lengthField field hdata
  refine ⟨unitStop_eq_toInt _ _, unitStop_outside_iff field.complete_position hdata field.lt,
    fun beyond => ?_, fun inside => ?_⟩
  · rw [header, if_pos beyond]
  · rw [header, if_neg (Nat.not_lt.2 inside)]
    split <;> rename_i complete <;> simp [complete]

/-- The end of a unit with the greatest length seems to lie within the section. -/
theorem unit_bound_exact_greatest_length :
    let r : SectionReader := { data := List.replicate 12 0xFF ++ [5, 0], order := .little }
    let behind : SectionReader := { r with position := 12, format := .wide }
    r.readLength = ((.wide, .ok (2 ^ 64 - 1)), behind) ∧ r.data.length < 2 ^ 63 ∧
      unitStop 12 (2 ^ 64 - 1) = 11 ∧
      r.readHeader =
        ⟨{ unitLength := 2 ^ 64 - 1, format := .wide, stop := 11 }, some .truncated, behind⟩ := by
  intro r behind
  have hlength : r.readLength = ((.wide, .ok (2 ^ 64 - 1)), behind) :=
    readLength_eq_ok_iff.2 ⟨.wide (by decide) (by decide) (by decide), rfl⟩
  have hdata : r.data.length < 2 ^ 63 := by decide
  have stop : unitStop 12 (2 ^ 64 - 1) = 11 := by decide
  obtain ⟨-, -, rejected, -⟩ := unit_bound_exact r behind .wide _ hlength hdata
  have outcome := rejected (by decide)
  rw [show behind.position = 12 from rfl, stop] at outcome
  exact ⟨hlength, hdata, stop, outcome⟩

/-! ## What a unit announces -/

/-- The format that the first word of a unit stands for. -/
def announcedFormat (r : SectionReader) : OffsetFormat :=
  if r.order.numberAt r.data r.position 4 = wideEscape then .wide else .narrow

/-- The length of a unit: its first word, or the number behind it. -/
def announcedLength (r : SectionReader) : Nat :=
  match r.announcedFormat with
  | .narrow => r.order.numberAt r.data r.position 4
  | .wide => r.order.numberAt r.data (r.position + 4) 8

/-- The place behind the length of a unit. -/
def announcedStart (r : SectionReader) : Nat :=
  r.position + r.announcedFormat.lengthSize

/-- The header of a unit. -/
def announcedHeader (r : SectionReader) : UnitHeader where
  unitLength := r.announcedLength
  format := r.announcedFormat
  version := r.order.numberAt r.data r.announcedStart 2
  stop := r.announcedStart + r.announcedLength

/-- The unit and its header lie within the section. -/
def HeaderFits (r : SectionReader) : Prop :=
  r.announcedStart + r.announcedLength ≤ r.data.length ∧ r.announcedStart + 2 ≤ r.data.length

instance (r : SectionReader) : Decidable r.HeaderFits :=
  inferInstanceAs (Decidable (_ ∧ _))

theorem lengthField_iff : r.LengthField format unitLength ↔
    format = r.announcedFormat ∧ unitLength = r.announcedLength ∧
      r.announcedStart ≤ r.data.length := by
  constructor
  · intro h
    cases h with
    | narrow complete stored plain =>
      have hformat : r.announcedFormat = .narrow := if_neg (stored ▸ plain)
      simp [announcedStart, announcedLength, hformat, stored, OffsetFormat.lengthSize, complete]
    | wide complete escape stored =>
      have hformat : r.announcedFormat = .wide := if_pos escape
      simp [announcedStart, announcedLength, hformat, stored, OffsetFormat.lengthSize, complete]
  · rintro ⟨rfl, rfl, complete⟩
    by_cases escape : r.order.numberAt r.data r.position 4 = wideEscape
    · have hformat : r.announcedFormat = .wide := if_pos escape
      simp only [announcedStart, announcedLength, hformat] at complete ⊢
      exact .wide complete escape rfl
    · have hformat : r.announcedFormat = .narrow := if_neg escape
      simp only [announcedStart, announcedLength, hformat] at complete ⊢
      exact .narrow complete rfl escape

theorem headerField_iff {header : UnitHeader} (hdata : r.data.length < 2 ^ 63) :
    r.HeaderField header ↔ header = r.announcedHeader ∧ r.HeaderFits := by
  constructor
  · rintro ⟨length, stop_eq, -, stop_le, complete, version_eq⟩
    obtain ⟨hformat, hlength, -⟩ := lengthField_iff.1 length
    cases header with
    | mk unitLength format version stop =>
      subst hformat hlength
      dsimp only at stop_eq stop_le complete version_eq
      subst stop_eq version_eq
      exact ⟨rfl, stop_le, complete⟩
  · rintro ⟨rfl, stop_le, complete⟩
    have start_le : r.announcedStart ≤ r.data.length := by omega
    have length := lengthField_iff.2 ⟨rfl, rfl, start_le⟩
    exact ⟨length, rfl, stop_le.trans_lt hdata, stop_le, complete, rfl⟩

theorem error_readHeader_of_lt (h : r.data.length < r.announcedStart) :
    r.readHeader.error = some .truncated := by
  unfold readHeader readLength
  by_cases word : r.position + 4 ≤ r.data.length
  · rw [read_of_le word]
    dsimp only
    by_cases escape : r.order.numberAt r.data r.position 4 = wideEscape
    · have hformat : r.announcedFormat = .wide := if_pos escape
      have short : r.data.length < r.position + 4 + 8 := by
        simpa [announcedStart, hformat, OffsetFormat.lengthSize] using h
      rw [if_pos escape, read_of_lt short]
    · have hformat : r.announcedFormat = .narrow := if_neg escape
      simp only [announcedStart, hformat, OffsetFormat.lengthSize] at h
      omega
  · rw [read_of_lt (Nat.lt_of_not_le word)]

/-- Reading a header that is not there fails at the end of the section. -/
theorem error_readHeader_of_not_fits (hdata : r.data.length < 2 ^ 63) (h : ¬ r.HeaderFits) :
    r.readHeader.error = some .truncated := by
  by_cases complete : r.announcedStart ≤ r.data.length
  · rw [readHeader_of_lengthField (lengthField_iff.2 ⟨rfl, rfl, complete⟩) hdata]
    split
    · rfl
    · rename_i inside
      split
      · rename_i version
        exact absurd ⟨Nat.not_lt.1 inside, version⟩ h
      · rfl
  · exact error_readHeader_of_lt (Nat.lt_of_not_le complete)

end SectionReader

namespace OffsetTable

open SectionError (supportedVersion)

/-! ## Reading and decoding -/

/-- Reading a table fails at the first thing that is not there, or at another version. -/
theorem read_eq {r : SectionReader} (place : r.position + 12 < 2 ^ 63)
    (hdata : r.data.length < 2 ^ 63) :
    let header := r.announcedHeader
    let first := r.announcedStart + 4
    let width := header.format.width
    read r =
      if ¬ r.HeaderFits then .error .truncated
      else if header.version ≠ supportedVersion then .error (.unsupportedVersion header.version)
      else if first + width * offsetCount header ≤ r.data.length then
        .ok (⟨header, numbersFrom r.order r.data first width (offsetCount header)⟩,
          behindOffsets r header)
      else .error .truncated := by
  intro header first width
  by_cases fits : r.HeaderFits
  · have field := (SectionReader.headerField_iff hdata).2 ⟨rfl, fits⟩
    rw [if_neg (not_not.2 fits)]
    by_cases version : header.version = supportedVersion
    · rw [read_of_headerField place field version, if_neg (not_not.2 version)]
      rfl
    · rw [if_pos version, read, (SectionReader.readHeader_eq_iff place).2 ⟨field, rfl⟩]
      dsimp only
      rw [if_pos version]
      rfl
  · have error := SectionReader.error_readHeader_of_not_fits hdata fits
    rw [if_pos fits, read]
    generalize r.readHeader = outcome at error
    obtain ⟨_, _, _⟩ := outcome
    obtain rfl : _ = some SectionError.truncated := error
    rfl

/-- A stored table has an offset for every place in the announced unit where one starts. -/
theorem Stored.size_get?_eq {r : SectionReader} {t : OffsetTable} (h : Stored r t)
    (hdata : r.data.length < 2 ^ 63) :
    let width := r.announcedFormat.width
    t.size = (r.announcedLength - 4) ⌈/⌉ width ∧
      ∀ i < t.size, t.get? i =
        some (r.order.numberAt r.data (r.announcedStart + 4 + width * i) width) := by
  obtain ⟨hheader, -⟩ := (SectionReader.headerField_iff hdata).1 h.header
  refine ⟨?_, fun i hi => ?_⟩
  · rw [h.size_eq, hheader]
    rfl
  · rw [h.get?_eq hi, hheader]
    rfl

/-- How decoding ends. The length of a unit takes up `start` bytes, and its offsets `width` bytes
each. There is a table exactly if the length, the unit, the version with its padding, and every
offset that starts within the unit lie within the section, and the version is understood. Another
version is reported if the unit and its version lie within the section, and in all other cases it is
the section that is too short. -/
theorem decode_outcome_exact (data : Bytes) (order : ByteOrder) (hdata : data.length < 2 ^ 63) :
    let unit : SectionReader := { data, order }
    let start := unit.announcedFormat.lengthSize
    let width := unit.announcedFormat.width
    let length := unit.announcedLength
    let version := order.numberAt data start 2
    let n := (length - 4) ⌈/⌉ width
    let accepted := start ≤ data.length ∧ start + length ≤ data.length ∧
      start + 4 ≤ data.length ∧ version = 5 ∧ start + 4 + width * n ≤ data.length
    let unsupported := start ≤ data.length ∧ start + 2 ≤ data.length ∧
      start + length ≤ data.length ∧ version ≠ 5
    ((∃ t, decode data order = .ok t) ↔ accepted) ∧
    (∀ t, decode data order = .ok t → t.size = n ∧
      ∀ i < n, t.get? i = some (order.numberAt data (start + 4 + width * i) width)) ∧
    (∀ v, decode data order = .error (.unsupportedVersion v) ↔ unsupported ∧ v = version) ∧
    (decode data order = .error .truncated ↔ ¬ accepted ∧ ¬ unsupported) := by
  intro unit start width length version n accepted unsupported
  have hstart : unit.announcedStart = start := Nat.zero_add _
  have fits_iff : unit.HeaderFits ↔ start + length ≤ data.length ∧ start + 2 ≤ data.length := by
    rw [SectionReader.HeaderFits, hstart]
  have accepted_iff : accepted ↔
      unit.HeaderFits ∧ version = 5 ∧ start + 4 + width * n ≤ data.length := by
    grind
  have unsupported_iff : unsupported ↔ unit.HeaderFits ∧ version ≠ 5 := by
    grind
  have contents (t : OffsetTable) (ht : decode data order = .ok t) : t.size = n ∧
      ∀ i < n, t.get? i = some (order.numberAt data (start + 4 + width * i) width) := by
    obtain ⟨hsize, hget⟩ := (decode_eq_ok_iff.1 ht).size_get?_eq hdata
    rw [hsize, hstart] at hget
    exact ⟨hsize, hget⟩
  have hversion : unit.announcedHeader.version = version :=
    congrArg (order.numberAt data · 2) hstart
  have hdecode : decode data order = Prod.fst <$> read unit := rfl
  rw [read_eq (show 0 + 12 < 2 ^ 63 by decide) hdata, hstart, hversion] at hdecode
  rw [accepted_iff, unsupported_iff]
  -- one case for each way that reading can end
  split at hdecode
  · rename_i fits
    refine ⟨?_, contents, ?_⟩ <;> simp [hdecode, fits]
  · rename_i fits
    replace fits := not_not.1 fits
    split at hdecode
    · rename_i unsupported
      replace unsupported : version ≠ 5 := unsupported
      refine ⟨?_, contents, ?_⟩ <;> simp [hdecode, fits, unsupported, eq_comm]
    · rename_i supported
      replace supported : version = 5 := not_not.1 supported
      split at hdecode
      · rename_i complete
        replace complete : start + 4 + width * n ≤ data.length := complete
        refine ⟨?_, contents, ?_⟩ <;> simp [hdecode, fits, supported, complete]
      · rename_i incomplete
        replace incomplete : ¬ start + 4 + width * n ≤ data.length := incomplete
        refine ⟨?_, contents, ?_⟩ <;> simp [hdecode, fits, supported, incomplete]

/-- A unit that ends within its only offset, a unit of another version, and a unit that is shorter
than its own version, at the end of a section. -/
theorem decode_outcome_exact_uneven_units :
    let uneven : Bytes := [6, 0, 0, 0, 5, 0, 0, 0, 1, 0, 4, 0]
    let older : Bytes := [0, 0, 0, 2, 0, 4]
    let short : Bytes := [1, 0, 0, 0, 5]
    uneven.length < 2 ^ 63 ∧
      (∃ t, decode uneven .little = .ok t ∧ t.size = 1 ∧ t.get? 0 = some 0x40001) ∧
      decode older .big = .error (.unsupportedVersion 4) ∧
      decode short .little = .error .truncated := by
  intro uneven older short
  have hdata : uneven.length < 2 ^ 63 := by decide
  obtain ⟨accepted, contents, -, -⟩ := decode_outcome_exact uneven .little hdata
  obtain ⟨-, -, unsupported, -⟩ := decode_outcome_exact older .big (by decide)
  obtain ⟨-, -, -, truncated⟩ := decode_outcome_exact short .little (by decide)
  obtain ⟨t, ht⟩ := accepted.2 (by decide)
  obtain ⟨hsize, hget⟩ := contents t ht
  refine ⟨hdata, ⟨t, ht, hsize.trans (by decide), ?_⟩, (unsupported 4).2 (by decide),
    truncated.2 (by decide)⟩
  exact (hget 0 (by decide)).trans (by decide)

end OffsetTable

end Asm6502
