import Asm6502.Debug.Section

/-!
# String offset tables

A table of string offsets is one unit of a debug section: a header, two bytes of padding, and the
offsets up to the end of the unit.

## Main definitions

- `OffsetTable`: a decoded table.
- `OffsetTable.decode`: the table at the place of a reader.
- `OffsetTable.get?`: an offset by its index.
- `OffsetTable.encode`: the bytes of a table.
-/

namespace Asm6502

structure OffsetTable where
  header : UnitHeader
  offsets : List Nat
  deriving DecidableEq, Repr

namespace OffsetTable

/-- Offsets one after the other, as long as the next one starts in front of `stop`. -/
def readOffsets (stop : Int) (r : SectionReader) :
    Except SectionError (List Nat × SectionReader) :=
  if r.position < stop then
    match h : r.readOffset with
    | .error e => .error e
    | .ok (offset, next) =>
      have := SectionReader.remaining_lt_of_readOffset h
      match readOffsets stop next with
      | .error e => .error e
      | .ok (offsets, last) => .ok (offset :: offsets, last)
  else .ok ([], r)
termination_by r.remaining

/-- The table at the place of the reader, and where the reader stands behind it. -/
def read (r : SectionReader) : Except SectionError (OffsetTable × SectionReader) := do
  let ⟨header, error, r⟩ := r.readHeader
  if let some e := error then throw e
  if header.version ≠ SectionError.supportedVersion then throw (.unsupportedVersion header.version)
  let (_, r) ← r.readHalf
  let (offsets, r) ← readOffsets header.stop r
  pure (⟨header, offsets⟩, r)

def decode (data : Bytes) (order : ByteOrder) : Except SectionError OffsetTable :=
  Prod.fst <$> read { data, order }

def get? (t : OffsetTable) (index : Int) : Option Nat :=
  if index < 0 then none else t.offsets[index.toNat]?

def size (t : OffsetTable) : Nat :=
  t.offsets.length

/-- The bytes of a table with the given offsets and the given two bytes of padding. -/
def encode (order : ByteOrder) (format : OffsetFormat) (padding : UInt8 × UInt8)
    (offsets : List Nat) : Bytes :=
  let unitLength := 4 + format.width * offsets.length
  let length := match format with
    | .narrow => order.bytes 4 unitLength
    | .wide => order.bytes 4 wideEscape ++ order.bytes 8 unitLength
  length ++ order.bytes 2 SectionError.supportedVersion ++ [padding.1, padding.2] ++
    offsets.flatMap (order.bytes format.width)

end OffsetTable

end Asm6502
