import Asm6502.Debug.ByteOrder

/-!
# Reading debug sections

A debug section is a sequence of units. A unit starts with its length, and the form of the length
decides how wide the offsets inside the unit are.

## Main definitions

- `OffsetFormat`, `UnitHeader`: the width of offsets, and the start of a unit.
- `SectionReader`: a section with a place in it.
- `SectionReader.readHalf`, `SectionReader.readOffset`, `SectionReader.readHeader`: reading numbers
  and the start of a unit.
-/

namespace Asm6502

inductive OffsetFormat where
  | narrow
  | wide
  deriving DecidableEq, Repr

def OffsetFormat.width : OffsetFormat → Nat
  | narrow => 4
  | wide => 8

/-- The number in place of a unit length that says that the unit has wide offsets and that its
length follows. -/
def wideEscape : Nat := 0xFFFFFFFF

/-- The start of a unit. -/
structure UnitHeader where
  /-- The number of bytes behind the length. -/
  unitLength : Nat := 0
  format : OffsetFormat := .narrow
  version : Nat := 0
  /-- The place just behind the unit, in signed 64-bit arithmetic. -/
  stop : Int := 0
  deriving DecidableEq, Repr

inductive SectionError where
  | truncated
  | unsupportedVersion (version : Nat)
  deriving DecidableEq, Repr

namespace SectionError

def supportedVersion : Nat := 5

def message : SectionError → String
  | truncated => "dwarf: section data truncated"
  | unsupportedVersion v =>
    s!"DWARF version {v} is not supported, expected {supportedVersion}"

end SectionError

/-- The contents of a section and the place of the next read. -/
structure SectionReader where
  data : Bytes
  order : ByteOrder
  position : Nat := 0
  /-- The format of the last unit whose length was read. -/
  format : OffsetFormat := .narrow
  deriving DecidableEq, Repr

namespace SectionReader

def remaining (r : SectionReader) : Nat :=
  r.data.length - r.position

/-- A number of `width` bytes at the current place. -/
def read (r : SectionReader) (width : Nat) : Except SectionError (Nat × SectionReader) :=
  if r.position + width ≤ r.data.length then
    .ok (r.order.number ((r.data.drop r.position).take width),
      { r with position := r.position + width })
  else .error .truncated

def readHalf (r : SectionReader) : Except SectionError (Nat × SectionReader) :=
  r.read 2

/-- An offset, as wide as the last unit header says. -/
def readOffset (r : SectionReader) : Except SectionError (Nat × SectionReader) :=
  r.read r.format.width

/-- The length of a unit and its format. The second part is where the reader stands, also if the
length is incomplete. -/
def readLength (r : SectionReader) :
    (OffsetFormat × Except SectionError Nat) × SectionReader :=
  match r.read 4 with
  | .error e => ((.narrow, .error e), r)
  | .ok (n, r) =>
    if n = wideEscape then
      match r.read 8 with
      | .error e => ((.wide, .error e), r)
      | .ok (n, r) => ((.wide, .ok n), { r with format := .wide })
    else ((.narrow, .ok n), { r with format := .narrow })

/-- The outcome of reading a unit header: as much of it as could be read, what went wrong, and where
the reader stands. -/
structure HeaderOutcome where
  header : UnitHeader
  error : Option SectionError
  reader : SectionReader

/-- The place behind a unit of `unitLength` bytes from `position` on, in signed 64-bit
arithmetic. -/
def unitStop (position unitLength : Nat) : Int :=
  ((position : Int) + unitLength).bmod 0x10000000000000000

/-- The start of a unit: its length, and its version. The unit must lie inside the section. -/
def readHeader (r : SectionReader) : HeaderOutcome :=
  match r.readLength with
  | ((format, .error e), r) => ⟨{ format }, some e, r⟩
  | ((format, .ok unitLength), r) =>
    -- a length that makes the place wrap around ends up in front of the reader
    let stop := unitStop r.position unitLength
    let header : UnitHeader := { unitLength, format, stop }
    if r.data.length < stop ∨ stop < r.position then ⟨header, some .truncated, r⟩
    else match r.readHalf with
      | .error e => ⟨header, some e, r⟩
      | .ok (version, r) => ⟨{ header with version }, none, r⟩

theorem position_of_read {r r' : SectionReader} {width n : Nat} (h : r.read width = .ok (n, r')) :
    r'.position = r.position + width ∧ r'.data = r.data ∧ r'.position ≤ r.data.length := by
  unfold read at h
  split at h
  · simp only [Except.ok.injEq, Prod.mk.injEq] at h
    obtain ⟨-, rfl⟩ := h
    exact ⟨rfl, rfl, by assumption⟩
  · simp at h

theorem remaining_lt_of_readOffset {r r' : SectionReader} {n : Nat}
    (h : r.readOffset = .ok (n, r')) : r'.remaining < r.remaining := by
  obtain ⟨hpos, hdata, hle⟩ := position_of_read h
  have hw : 0 < r.format.width := by cases r.format <;> decide
  simp only [remaining, hdata]
  omega

end SectionReader

end Asm6502
