import Asm6502.Text.Glyph

/-!
# Byte order

## Main definitions

- `ByteOrder`: which end of a number comes first.
- `ByteOrder.number`, `ByteOrder.bytes`: from bytes to a number and back.
-/

namespace Asm6502

/-- Which byte of a number is stored first. -/
inductive ByteOrder where
  | little
  | big
  deriving DecidableEq, Repr

namespace ByteOrder

/-- The number with the given bytes, the least significant one first. -/
def littleNumber : Bytes → Nat
  | [] => 0
  | b :: bs => b.toNat + 256 * littleNumber bs

/-- The `width` bytes of a number, the least significant one first. -/
def littleBytes : Nat → Nat → Bytes
  | 0, _ => []
  | width + 1, n => UInt8.ofNat (n % 256) :: littleBytes width (n / 256)

def number (order : ByteOrder) (bs : Bytes) : Nat :=
  match order with
  | little => littleNumber bs
  | big => littleNumber bs.reverse

def bytes (order : ByteOrder) (width n : Nat) : Bytes :=
  match order with
  | little => littleBytes width n
  | big => (littleBytes width n).reverse

@[simp] theorem length_littleBytes (width n : Nat) : (littleBytes width n).length = width := by
  induction width generalizing n with
  | zero => rfl
  | succ width ih => simp [littleBytes, ih]

@[simp] theorem length_bytes (order : ByteOrder) (width n : Nat) :
    (order.bytes width n).length = width := by
  cases order <;> simp [bytes]

end ByteOrder

end Asm6502
