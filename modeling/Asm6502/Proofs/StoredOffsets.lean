import Asm6502.Proofs.SectionReading

/-!
# Stored offset tables

A table is read from a section exactly if it is stored there. What encoding lays out is stored, so
decoding gives it back. A unit need not be as long as its offsets: decoding does not object to a
length that ends within an offset, and then reads beyond the unit.

## Main definitions

- `OffsetTable.Stored`: the table that the bytes at the place of a reader make up.
- `OffsetTable.Encodable`: the offsets that a format has room for.

## Main statements

- `OffsetTable.read_eq_ok_iff`: reading finds the stored table and nothing else.
- `OffsetTable.stored_encode`: the bytes of a table store it.
-/

namespace Asm6502.OffsetTable

open SectionError (supportedVersion)

/-! ## Reading -/

/-- The number of offsets that start within a unit. -/
def offsetCount (header : UnitHeader) : Nat :=
  entryCount (header.unitLength - 4) header.format.width

/-- The place of the first offset of the unit at the place of the reader. -/
def offsetsPlace (r : SectionReader) (format : OffsetFormat) : Nat :=
  r.position + format.lengthSize + 4

/-- The table is stored at the place of the reader: its header, two bytes of padding, and its
offsets. -/
structure Stored (r : SectionReader) (t : OffsetTable) : Prop where
  header : r.HeaderField t.header
  version : t.header.version = supportedVersion
  complete : offsetsPlace r t.header.format + t.header.format.width * offsetCount t.header ≤
    r.data.length
  offsets_eq : t.offsets = numbersFrom r.order r.data (offsetsPlace r t.header.format)
    t.header.format.width (offsetCount t.header)

/-- The reader behind the offsets of a unit. -/
def behindOffsets (r : SectionReader) (header : UnitHeader) : SectionReader :=
  { r with
    position := offsetsPlace r header.format + header.format.width * offsetCount header
    format := header.format }

/-- Behind a header of the right version there is nothing to go wrong but the end of the
section. -/
theorem read_of_headerField {r : SectionReader} {header : UnitHeader}
    (place : r.position + 12 < 2 ^ 63) (field : r.HeaderField header)
    (version : header.version = supportedVersion) :
    let first := offsetsPlace r header.format
    let width := header.format.width
    let n := offsetCount header
    read r =
      if first + width * n ≤ r.data.length then
        .ok (⟨header, numbersFrom r.order r.data first width n⟩, behindOffsets r header)
      else .error .truncated := by
  dsimp only
  have hheader := (SectionReader.readHeader_eq_iff place).2 ⟨field, rfl⟩
  unfold read
  rw [hheader]
  dsimp only
  rw [if_neg (by simpa using version), SectionReader.readHalf]
  by_cases padding : offsetsPlace r header.format ≤ r.data.length
  · have hcount : entryCount (header.stop.toNat - offsetsPlace r header.format)
        header.format.width = offsetCount header := by
      rw [field.stop_eq, offsetCount]
      congr 1
      simp only [SectionReader.behindLength, offsetsPlace]
      omega
    have hoffsets := readOffsets_eq header.stop
      ⟨r.data, r.order, offsetsPlace r header.format, header.format⟩ padding
    simp only [hcount] at hoffsets
    have hpadding : (r.behindHeader header.format).read 2 =
        .ok (_, ⟨r.data, r.order, offsetsPlace r header.format, header.format⟩) :=
      SectionReader.read_of_le padding
    by_cases complete : offsetsPlace r header.format +
        header.format.width * offsetCount header ≤ r.data.length
    · simp only [hpadding, bind, Except.bind, hoffsets, if_pos complete]
      rfl
    · simp only [hpadding, bind, Except.bind, hoffsets, if_neg complete]
  · have hshort : r.data.length < offsetsPlace r header.format := Nat.lt_of_not_le padding
    rw [SectionReader.read_of_lt hshort, if_neg (by omega)]
    rfl

theorem read_eq_ok_iff {r r' : SectionReader} {t : OffsetTable} (place : r.position + 12 < 2 ^ 63) :
    read r = .ok (t, r') ↔ Stored r t ∧ r' = behindOffsets r t.header := by
  constructor
  · intro h
    have hread := h
    unfold read at hread
    generalize ho : r.readHeader = outcome at hread
    obtain ⟨header, error, r₁⟩ := outcome
    cases error with
    | some e => cases hread
    | none =>
      obtain ⟨field, rfl⟩ := (SectionReader.readHeader_eq_iff place).1 ho
      dsimp only at hread
      split at hread
      · cases hread
      · rename_i version
        rw [Decidable.not_not] at version
        rw [read_of_headerField place field version] at h
        split at h
        · rename_i complete
          cases h
          exact ⟨⟨field, version, complete, rfl⟩, rfl⟩
        · cases h
  · rintro ⟨stored, rfl⟩
    rw [read_of_headerField place stored.header stored.version, if_pos stored.complete,
      ← stored.offsets_eq]

theorem decode_eq_ok_iff {data : Bytes} {order : ByteOrder} {t : OffsetTable} :
    decode data order = .ok t ↔ Stored { data, order } t := by
  have place : (0 : Nat) + 12 < 2 ^ 63 := by decide
  rw [decode]
  constructor
  · intro h
    cases hread : read { data, order } with
    | error e =>
      rw [hread] at h
      cases h
    | ok result =>
      rw [hread] at h
      cases h
      exact ((read_eq_ok_iff place).1 hread).1
  · intro stored
    rw [(read_eq_ok_iff place).2 ⟨stored, rfl⟩]
    rfl

/-! ## Encoding -/

/-- The format has room for the offsets and for the length of the unit. A narrow length must not be
taken for the escape, and a wide unit has to end at a place that a section can have, which is less
than 2^63. -/
structure Encodable (format : OffsetFormat) (offsets : List Nat) : Prop where
  offset_lt : ∀ offset ∈ offsets, offset < 2 ^ (8 * format.width)
  length_lt : match format with
    | .narrow => 4 + 4 * offsets.length < wideEscape
    | .wide => 16 + 8 * offsets.length < 2 ^ 63

theorem numberAt_append {order : ByteOrder} {width n place : Nat} (h : n < 2 ^ (8 * width))
    (front back : Bytes) (hplace : front.length = place) :
    order.numberAt (front ++ (order.bytes width n ++ back)) place width = n := by
  have hn : n < 256 ^ width := by rwa [Nat.pow_mul] at h
  have htake : (order.bytes width n ++ back).take width = order.bytes width n := by simp
  rw [ByteOrder.numberAt, ← hplace, List.drop_left, htake, ByteOrder.number_bytes order hn]

theorem numberAt_zero_append {order : ByteOrder} {width n : Nat} (h : n < 2 ^ (8 * width))
    (back : Bytes) : order.numberAt (order.bytes width n ++ back) 0 width = n :=
  numberAt_append h [] back rfl

theorem numbersFrom_append {order : ByteOrder} {width place : Nat} {offsets : List Nat}
    (h : ∀ offset ∈ offsets, offset < 2 ^ (8 * width)) (front back : Bytes)
    (hplace : front.length = place) :
    numbersFrom order (front ++ (offsets.flatMap (order.bytes width) ++ back)) place width
      offsets.length = offsets := by
  induction offsets generalizing front place with
  | nil => rfl
  | cons offset offsets ih =>
    have hnext : (front ++ order.bytes width offset).length = place + width := by simp [hplace]
    have rest := ih (fun x hx => h x (List.mem_cons_of_mem offset hx)) _ hnext
    rw [List.length_cons, numbersFrom_succ, List.flatMap_cons, List.append_assoc,
      numberAt_append (h offset List.mem_cons_self) front _ hplace, ← List.append_assoc front, rest]

theorem length_encode (order : ByteOrder) (format : OffsetFormat) (padding : UInt8 × UInt8)
    (offsets : List Nat) : (encode order format padding offsets).length =
      format.lengthSize + 4 + format.width * offsets.length := by
  cases format <;>
    simp [encode, OffsetFormat.lengthSize, OffsetFormat.width] <;> omega

/-- A unit opens with its length, which can be told from what follows. -/
theorem exists_lengthField {format : OffsetFormat} {offsets : List Nat}
    (h : Encodable format offsets) (order : ByteOrder) (padding : UInt8 × UInt8) :
    ∃ length : Bytes, length.length = format.lengthSize ∧
      encode order format padding offsets =
        length ++ (order.bytes 2 supportedVersion ++
          ([padding.1, padding.2] ++ offsets.flatMap (order.bytes format.width))) ∧
      ∀ more, SectionReader.LengthField { data := length ++ more, order } format
        (4 + format.width * offsets.length) := by
  cases format with
  | narrow =>
    have hlt : 4 + 4 * offsets.length < wideEscape := h.length_lt
    have hn : 4 + 4 * offsets.length < 2 ^ (8 * 4) := hlt.trans (by decide)
    refine ⟨order.bytes 4 (4 + 4 * offsets.length), by simp [OffsetFormat.lengthSize],
      by simp [encode, OffsetFormat.width], fun more => .narrow (by simp) ?_ hlt.ne⟩
    exact numberAt_zero_append hn more
  | wide =>
    have hlt : 16 + 8 * offsets.length < 2 ^ 63 := h.length_lt
    have hn : 4 + 8 * offsets.length < 2 ^ (8 * 8) := by omega
    have hescape : wideEscape < 2 ^ (8 * 4) := by decide
    refine ⟨order.bytes 4 wideEscape ++ order.bytes 8 (4 + 8 * offsets.length),
      by simp [OffsetFormat.lengthSize], by simp [encode, OffsetFormat.width],
      fun more => .wide (by simp; omega) ?_ ?_⟩ <;> rw [List.append_assoc]
    · exact numberAt_zero_append hescape _
    · exact numberAt_append hn _ more (by simp)

/-- The header of the unit that holds `n` offsets. -/
def headerFor (format : OffsetFormat) (n : Nat) : UnitHeader :=
  { unitLength := 4 + format.width * n, format, version := supportedVersion
    stop := format.lengthSize + 4 + format.width * n }

theorem offsetCount_headerFor (format : OffsetFormat) (n : Nat) :
    offsetCount (headerFor format n) = n := by
  rw [offsetCount, headerFor, Nat.add_sub_cancel_left]
  exact entryCount_mul format.width_pos n

/-- The bytes of a table store it, whatever comes behind. -/
theorem stored_encode {format : OffsetFormat} {offsets : List Nat} (h : Encodable format offsets)
    (order : ByteOrder) (padding : UInt8 × UInt8) (more : Bytes) :
    Stored { data := encode order format padding offsets ++ more, order }
      ⟨headerFor format offsets.length, offsets⟩ := by
  obtain ⟨length, hlength, hencode, field⟩ := exists_lengthField h order padding
  have hstop : format.lengthSize + (4 + format.width * offsets.length) < 2 ^ 63 := by
    have := h.length_lt
    cases format <;>
      simp only [OffsetFormat.lengthSize, OffsetFormat.width, wideEscape] at this ⊢ <;> omega
  have hsize : (encode order format padding offsets ++ more).length =
      format.lengthSize + 4 + format.width * offsets.length + more.length := by
    rw [List.length_append, length_encode]
  have hversion : order.numberAt (encode order format padding offsets ++ more) format.lengthSize 2 =
      supportedVersion := by
    rw [hencode, List.append_assoc, List.append_assoc]
    exact numberAt_append (by decide) length _ hlength
  have hoffsets : numbersFrom order (encode order format padding offsets ++ more)
      (format.lengthSize + 4) format.width offsets.length = offsets := by
    have hfront : (length ++ order.bytes 2 supportedVersion ++ [padding.1, padding.2]).length =
        format.lengthSize + 4 := by simp [hlength]
    simpa [hencode] using numbersFrom_append h.offset_lt _ more hfront
  refine ⟨⟨?_, ?_, ?_, ?_, ?_, ?_⟩, rfl, ?_, ?_⟩ <;>
    simp only [offsetsPlace, SectionReader.behindLength, Nat.zero_add]
  · rw [hencode, List.append_assoc]
    exact field _
  · simp [headerFor, Int.add_assoc]
  · exact hstop
  · simp only [headerFor]
    omega
  · simp only [headerFor]
    omega
  · exact hversion.symm
  · rw [offsetCount_headerFor]
    simp only [headerFor]
    omega
  · rw [offsetCount_headerFor]
    exact hoffsets.symm

/-- Decoding undoes encoding, whatever the padding and whatever comes behind: the table has exactly
the offsets that were encoded, and the header says where it ends. -/
theorem decode_encode (order : ByteOrder) (format : OffsetFormat) (padding : UInt8 × UInt8)
    (offsets : List Nat) (more : Bytes) (h : Encodable format offsets) :
    ∃ t, decode (encode order format padding offsets ++ more) order = .ok t ∧
      t.offsets = offsets ∧ t.header.format = format ∧
      t.header.unitLength = 4 + format.width * offsets.length ∧ t.header.version = 5 ∧
      t.header.stop = (encode order format padding offsets).length ∧
      t.size = offsets.length ∧
      (∀ (i : Nat) (hi : i < offsets.length), t.get? i = some offsets[i]) ∧
      ∀ i : Int, i < 0 ∨ offsets.length ≤ i → t.get? i = none := by
  refine ⟨_, decode_eq_ok_iff.2 (stored_encode h order padding more), rfl, rfl, rfl, rfl, ?_, rfl,
    fun i hi => ?_, fun i hi => ?_⟩
  · simp [length_encode, headerFor]
  · simp [get?, hi]
  · rw [get?]
    split
    · rfl
    · exact List.getElem?_eq_none (by dsimp only; omega)

theorem decode_encode_two_wide_offsets :
    let data : Bytes :=
      [0xFF, 0xFF, 0xFF, 0xFF, 0, 0, 0, 0, 0, 0, 0, 20, 0, 5, 1, 2, 0, 0, 0, 1, 0, 0, 0, 0,
        0, 0, 0, 0, 0, 0, 0, 42, 0xAA]
    Encodable .wide [0x100000000, 42] ∧ ∃ t, decode data .big = .ok t ∧
      t.offsets = [0x100000000, 42] ∧ t.header = ⟨20, .wide, 5, 32⟩ ∧
      t.get? 1 = some 42 ∧ t.get? 2 = none ∧ t.get? (-1) = none := by
  intro data
  have encodable : Encodable .wide [0x100000000, 42] := ⟨by decide, by decide⟩
  have hdata : data = encode .big .wide (1, 2) [0x100000000, 42] ++ [0xAA] := by decide
  obtain ⟨t, hdecode, hoffsets, hformat, hlength, hversion, hstop, -, inside, outside⟩ :=
    decode_encode .big .wide (1, 2) [0x100000000, 42] [0xAA] encodable
  refine ⟨encodable, t, hdata ▸ hdecode, hoffsets, ?_, inside 1 (by decide),
    outside 2 (.inr (by decide)), outside (-1) (.inl (by decide))⟩
  obtain ⟨⟨unitLength, format, version, stop⟩, offsets⟩ := t
  obtain rfl : format = .wide := hformat
  rw [UnitHeader.mk.injEq]
  exact ⟨hlength, rfl, hversion, hstop⟩

/-! ## The end of the unit -/

/-- The unit holds its version, its padding and a whole number of offsets. -/
def WholeOffsets (header : UnitHeader) : Prop :=
  4 ≤ header.unitLength ∧ header.format.width ∣ header.unitLength - 4

/-- The offsets that start within a unit fill it, or reach beyond it. -/
theorem unitLength_cases (header : UnitHeader) :
    WholeOffsets header ∧ header.unitLength = 4 + header.format.width * offsetCount header ∨
      ¬ WholeOffsets header ∧ header.unitLength < 4 + header.format.width * offsetCount header := by
  obtain ⟨hle, -⟩ := entryCount_bounds header.format.width_pos (header.unitLength - 4)
  rw [← offsetCount] at hle
  by_cases whole : WholeOffsets header
  · have ⟨hfour, n, hn⟩ := whole
    have hcount : offsetCount header = n := by
      rw [offsetCount, hn, entryCount_mul header.format.width_pos]
    exact .inl ⟨whole, by rw [hcount]; omega⟩
  · refine .inr ⟨whole, ?_⟩
    by_contra hge
    exact whole ⟨by omega, offsetCount header, by omega⟩

theorem Stored.size_eq {r : SectionReader} {t : OffsetTable} (h : Stored r t) :
    t.size = offsetCount t.header := by
  simp [size, h.offsets_eq, numbersFrom]

theorem Stored.get?_eq {r : SectionReader} {t : OffsetTable} (h : Stored r t) {i : Nat}
    (hi : i < t.size) : t.get? i = some (r.order.numberAt r.data
      (offsetsPlace r t.header.format + t.header.format.width * i) t.header.format.width) := by
  rw [h.size_eq] at hi
  simp [get?, h.offsets_eq, numbersFrom, hi]

/-- Reading a table ends behind the last offset that starts within the unit. That is the end of the
unit if the unit holds a whole number of offsets. If it does not, reading goes beyond the unit all
the same. -/
theorem read_ends_with_whole_unit (data : Bytes) (order : ByteOrder) (t : OffsetTable)
    (r : SectionReader) (h : read { data, order } = .ok (t, r)) :
    let header := t.header
    let width := header.format.width
    let start := header.format.lengthSize
    header.version = order.numberAt data start 2 ∧
    (∀ i, i < t.size → t.get? i = some (order.numberAt data (start + 4 + width * i) width)) ∧
    r.position = start + 4 + width * t.size ∧ r.position ≤ data.length ∧
    (WholeOffsets header → r.position = header.stop ∧ header.unitLength = 4 + width * t.size) ∧
    (¬ WholeOffsets header → header.stop < r.position) := by
  obtain ⟨stored, rfl⟩ := (read_eq_ok_iff (show (0 : Nat) + 12 < 2 ^ 63 by decide)).1 h
  have hstop := stored.header.stop_eq
  have hversion := stored.header.version_eq
  have hcomplete := stored.complete
  have hget (i : Nat) (hi : i < t.size) := stored.get?_eq hi
  simp only [offsetsPlace, SectionReader.behindLength, Nat.zero_add]
    at hstop hversion hcomplete hget
  simp only [behindOffsets, offsetsPlace, Nat.zero_add, ← stored.size_eq] at hcomplete ⊢
  refine ⟨hversion, hget, trivial, hcomplete, fun whole => ?_, fun part => ?_⟩
  · obtain ⟨-, hlength⟩ := (unitLength_cases t.header).resolve_right fun hr => hr.1 whole
    rw [← stored.size_eq] at hlength
    refine ⟨?_, hlength⟩
    rw [hstop, hlength]
    omega
  · obtain ⟨-, hlength⟩ := (unitLength_cases t.header).resolve_left fun hl => part hl.1
    rw [← stored.size_eq] at hlength
    rw [hstop]
    omega

theorem read_ends_with_one_offset :
    let data : Bytes := [8, 0, 0, 0, 5, 0, 0, 0, 7, 1, 0, 0, 0xFF]
    let t : OffsetTable := ⟨⟨8, .narrow, 5, 12⟩, [0x107]⟩
    ∃ r, read { data, order := .little } = .ok (t, r) ∧ t.get? 0 = some 0x107 ∧
      r.position = t.header.stop ∧ t.header.unitLength = 4 + t.header.format.width * t.size := by
  intro data t
  have stored : Stored { data, order := .little } t :=
    ⟨⟨.narrow (by decide) (by decide) (by decide), by decide, by decide, by decide, by decide,
      by decide⟩, by decide, by decide, by decide⟩
  have hread := (read_eq_ok_iff (show (0 : Nat) + 12 < 2 ^ 63 by decide)).2 ⟨stored, rfl⟩
  obtain ⟨-, hget, -, -, whole, -⟩ := read_ends_with_whole_unit data .little t _ hread
  exact ⟨_, hread, hget 0 (by decide), whole ⟨by decide, by decide⟩⟩

/-- A unit that ends within an offset, the rest of which is taken from the unit behind it. -/
theorem read_beyond_unit :
    let data : Bytes := [6, 0, 0, 0, 5, 0, 0, 0, 1, 0, 4, 0, 0, 0, 5, 0, 0, 0]
    let t : OffsetTable := ⟨⟨6, .narrow, 5, 10⟩, [0x40001]⟩
    ∃ r, read { data, order := .little } = .ok (t, r) ∧ r.position = 12 ∧
      ¬ (r.position = t.header.stop ∧
        t.header.unitLength = 4 + t.header.format.width * t.size) := by
  intro data t
  have stored : Stored { data, order := .little } t :=
    ⟨⟨.narrow (by decide) (by decide) (by decide), by decide, by decide, by decide, by decide,
      by decide⟩, by decide, by decide, by decide⟩
  exact ⟨_, (read_eq_ok_iff (show (0 : Nat) + 12 < 2 ^ 63 by decide)).2 ⟨stored, rfl⟩, by decide,
    by decide⟩

end Asm6502.OffsetTable
