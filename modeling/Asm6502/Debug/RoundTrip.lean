import Asm6502.Debug.ByteOrder
import Mathlib

/-!
# Numbers and their bytes

## Main statements

- `ByteOrder.number_bytes`: a number that fits is read back from its bytes.
- `ByteOrder.bytes_number`: bytes are written again by the number they stand for.
- `ByteOrder.number_lt`: the bytes bound the number.
-/

namespace Asm6502.ByteOrder

theorem littleNumber_littleBytes {width n : Nat} (h : n < 256 ^ width) :
    littleNumber (littleBytes width n) = n := by
  induction width generalizing n with
  | zero => simp_all [littleBytes, littleNumber]
  | succ width ih =>
    have hn : n / 256 < 256 ^ width := by
      rw [Nat.div_lt_iff_lt_mul (by decide)]
      simpa [Nat.pow_succ] using h
    simp only [littleBytes, littleNumber, ih hn, UInt8.toNat_ofNat']
    omega

theorem number_bytes (order : ByteOrder) {width n : Nat} (h : n < 256 ^ width) :
    order.number (order.bytes width n) = n := by
  cases order <;> simp [number, bytes, littleNumber_littleBytes h]

theorem littleNumber_lt (bs : Bytes) : littleNumber bs < 256 ^ bs.length := by
  induction bs with
  | nil => simp [littleNumber]
  | cons b bs ih =>
    have hb : b.toNat < 256 := b.toNat_lt
    simp only [littleNumber, List.length_cons, Nat.pow_succ]
    omega

theorem number_lt (order : ByteOrder) (bs : Bytes) : order.number bs < 256 ^ bs.length := by
  cases order with
  | little => exact littleNumber_lt bs
  | big => simpa [number] using littleNumber_lt bs.reverse

theorem littleBytes_littleNumber (bs : Bytes) :
    littleBytes bs.length (littleNumber bs) = bs := by
  induction bs with
  | nil => rfl
  | cons b bs ih =>
    have hb : b.toNat < 256 := b.toNat_lt
    have hmod : (b.toNat + 256 * littleNumber bs) % 256 = b.toNat := by omega
    have hdiv : (b.toNat + 256 * littleNumber bs) / 256 = littleNumber bs := by omega
    rw [List.length_cons, littleBytes, littleNumber, hmod, hdiv, ih, UInt8.ofNat_toNat]

theorem bytes_number (order : ByteOrder) (bs : Bytes) :
    order.bytes bs.length (order.number bs) = bs := by
  cases order with
  | little => exact littleBytes_littleNumber bs
  | big =>
    have h := littleBytes_littleNumber bs.reverse
    rw [List.length_reverse] at h
    rw [bytes, number, h, List.reverse_reverse]

end Asm6502.ByteOrder
