import Asm6502.Debug.OffsetTable
import Asm6502.FileStore
import Asm6502.Text.Hex

/-!
# Object files

An ELF file holds named sections. Both classes, of 32 and of 64 bits, and both byte orders are read.

## Main definitions

- `ObjectFile`, `ObjectFile.parse`: the sections of a file.
- `ObjectFile.contents`: the bytes of a section.
- `OffsetTable.load`: the string offset table of a file.
-/

namespace Asm6502

inductive ObjectError where
  | endOfFile
  | malformed (what value : String) (place : Nat)
  deriving DecidableEq, Repr

def ObjectError.message : ObjectError → String
  | endOfFile => "EOF"
  | malformed what value place => s!"{what} '{value}' in record at byte 0x{Text.hex place}"

/-- The places of numbers in the records of one class of object files. -/
structure ObjectLayout where
  headerSize : Nat
  wordSize : Nat
  programTable : Nat
  sectionTable : Nat
  /-- The sizes and counts of table entries, two bytes each. -/
  counts : Nat
  programEntrySize : Nat
  sectionEntrySize : Nat
  sectionOffset : Nat
  sectionSize : Nat

namespace ObjectLayout

def class32 : ObjectLayout where
  headerSize := 52
  wordSize := 4
  programTable := 28
  sectionTable := 32
  counts := 42
  programEntrySize := 32
  sectionEntrySize := 40
  sectionOffset := 16
  sectionSize := 20

def class64 : ObjectLayout where
  headerSize := 64
  wordSize := 8
  programTable := 32
  sectionTable := 40
  counts := 54
  programEntrySize := 56
  sectionEntrySize := 64
  sectionOffset := 24
  sectionSize := 32

end ObjectLayout

structure ObjectSection where
  name : Bytes
  kind : Nat
  offset : Nat
  size : Nat
  deriving Repr

structure ObjectFile where
  order : ByteOrder
  sections : List ObjectSection
  deriving Repr

namespace ObjectFile

/-- The kind of sections that hold names. -/
def stringTableKind : Nat := 3

/-- The kind of sections that take no room in the file. -/
def emptyKind : Nat := 8

/-- A number of `width` bytes at `offset`; what lies beyond the end reads as nothing. -/
def numberAt (file : Bytes) (order : ByteOrder) (offset width : Nat) : Nat :=
  order.number ((file.drop offset).take width)

/-- The text from `offset` up to the next zero byte. -/
def nameAt? (table : Bytes) (offset : Nat) : Option Bytes :=
  let rest := table.drop offset
  let name := rest.takeWhile (· != 0)
  if name.length < rest.length then some name else none

/-- A stretch of the file, which must lie inside it. -/
def stretch (file : Bytes) (offset size : Nat) : Except ObjectError Bytes :=
  -- nothing can be taken from anywhere
  if size = 0 ∨ offset + size ≤ file.length then .ok ((file.drop offset).take size)
  else .error .endOfFile

/-- Checks the identification at the start of a file. -/
def identify (file : Bytes) : Except ObjectError (ObjectLayout × ByteOrder) := do
  if file.length < 16 then throw .endOfFile
  let magic := file.take 4
  let byte (i : Nat) : Nat := (file.getD i 0).toNat
  if magic ≠ [0x7F, 0x45, 0x4C, 0x46] then
    let shown := " ".intercalate (magic.map fun b => toString b.toNat)
    throw (.malformed "bad magic number" s!"[{shown}]" 0)
  let layout ← match byte 4 with
    | 1 => pure ObjectLayout.class32
    | 2 => pure ObjectLayout.class64
    | c => throw (.malformed "unknown ELF class" (toString c) 0)
  let order ← match byte 5 with
    | 1 => pure ByteOrder.little
    | 2 => pure ByteOrder.big
    | d => throw (.malformed "unknown ELF data encoding" (toString d) 0)
  if byte 6 ≠ 1 then throw (.malformed "unknown ELF version" (toString (byte 6)) 0)
  pure (layout, order)

def parse (file : Bytes) : Except ObjectError ObjectFile := do
  let (layout, order) ← identify file
  let header ← stretch file 0 layout.headerSize
  let word (offset : Nat) : Nat := numberAt header order offset layout.wordSize
  let count (i : Nat) : Nat := numberAt header order (layout.counts + 2 * i) 2
  let version := numberAt header order 20 4
  if version ≠ 1 then throw (.malformed "mismatched ELF version" (toString version) 0)
  let sectionTable := word layout.sectionTable
  let sectionCount := count 3
  let nameIndex := count 4
  if sectionTable = 0 ∧ sectionCount ≠ 0 then
    throw (.malformed "invalid ELF shnum for shoff=0" (toString sectionCount) 0)
  if 0 < sectionCount ∧ sectionCount ≤ nameIndex then
    throw (.malformed "invalid ELF shstrndx" (toString nameIndex) 0)
  if 0 < count 1 ∧ count 0 < layout.programEntrySize then
    throw (.malformed "invalid ELF phentsize" (toString (count 0)) 0)
  let _ ← stretch file (word layout.programTable) (count 1 * count 0)
  if 0 < sectionCount ∧ count 2 < layout.sectionEntrySize then
    throw (.malformed "invalid ELF shentsize" (toString (count 2)) 0)
  if 0 < sectionTable ∧ sectionCount = 0 then
    throw (.malformed "invalid ELF shnum contained in sh_size" "0" sectionTable)
  let records ← stretch file sectionTable (sectionCount * count 2)
  let entry (i : Nat) : Bytes := records.drop (i * count 2)
  let sections := (List.range sectionCount).map fun i =>
    { name := []
      kind := numberAt (entry i) order 4 4
      offset := numberAt (entry i) order layout.sectionOffset layout.wordSize
      size := numberAt (entry i) order layout.sectionSize layout.wordSize : ObjectSection }
  if nameIndex = 0 ∨ sectionCount = 0 then return ⟨order, sections⟩
  let place (i : Nat) : Nat := sectionTable + i * count 2
  match sections[nameIndex]? with
  | none => throw (.malformed "invalid ELF shstrndx" (toString nameIndex) 0)
  | some table =>
    if table.kind ≠ stringTableKind then
      throw (.malformed "invalid ELF section name string table type" (toString table.kind)
        (place nameIndex))
    let names ← stretch file table.offset table.size
    let named ← sections.zipIdx.mapM fun (s, i) =>
      let index := numberAt (entry i) order 0 4
      match nameAt? names index with
      | some name => .ok { s with name }
      | none => .error (.malformed "bad section name index" (toString index) (place i))
    pure ⟨order, named⟩

def section? (f : ObjectFile) (name : String) : Option ObjectSection :=
  f.sections.find? (·.name == (Text.ofString name).bytes)

/-- The bytes of a section, or why they cannot be had. -/
def contents (file : Bytes) (s : ObjectSection) : Except String Bytes :=
  if s.size = 0 then .ok []
  else if s.kind = emptyKind then .error "unexpected read from SHT_NOBITS section"
  else if s.offset + s.size ≤ file.length then .ok ((file.drop s.offset).take s.size)
  else if s.offset < file.length then .error "unexpected EOF"
  else .error "EOF"

end ObjectFile

/-! ## Loading a table -/

inductive LoadError where
  | file (error : FileError)
  | object (error : ObjectError)
  | noSection
  | unreadable (reason : String)
  | table (error : SectionError)
  deriving DecidableEq, Repr

namespace OffsetTable

def sectionName : String := ".debug_str_offsets"

/-- The first string offset table of the object file at `path`. -/
def load (store : FileStore) (path : Text) : Except LoadError OffsetTable := do
  let file ← (store.read path).mapError .file
  let object ← (ObjectFile.parse file).mapError .object
  match object.section? sectionName with
  | none => throw .noSection
  | some s =>
    let data ← (ObjectFile.contents file s).mapError .unreadable
    (decode data object.order).mapError .table

end OffsetTable

/-- What is said about the file at `path`. -/
def LoadError.message (path : Text) : LoadError → Text
  | file e => e.message path
  | object e => Text.ofString e.message
  | noSection => path ++ Text.ofString s!": no {OffsetTable.sectionName} section"
  | unreadable reason =>
    path ++ Text.ofString s!": could not read {OffsetTable.sectionName}: {reason}"
  | table e => Text.ofString e.message

end Asm6502
