import Asm6502.Text.Glyph

/-!
# Decoding loses nothing

## Main statements

- `Text.bytes_decode`: the bytes of a decoded text are those it was decoded from.
-/

namespace Asm6502.Text

theorem val_ofNat {n : Nat} (h : n.isValidChar) : (Char.ofNat n).val.toNat = n := by
  rw [Char.ofNat, dif_pos h]
  rfl

theorem val_of_scalar? {least code : Nat} {c : Char} (h : scalar? least code = some c) :
    c.val.toNat = code ∧ least ≤ code := by
  unfold scalar? at h
  split at h
  · rename_i hc
    cases h
    exact ⟨val_ofNat (by unfold Nat.isValidChar; omega), hc.1⟩
  · simp at h

theorem toNat_of_tailBits? {b : UInt8} {x : Nat} (h : tailBits? b = some x) :
    b.toNat = x + 0x80 ∧ x < 0x40 := by
  unfold tailBits? at h
  split at h
  · rename_i hb
    have := Option.some.inj h
    omega
  · simp at h

theorem ofNat_eq_of_toNat_eq {n : Nat} {b : UInt8} (h : b.toNat = n) : UInt8.ofNat n = b := by
  subst h
  exact UInt8.ofNat_toNat

/-- A well-formed sequence is the UTF-8 form of its character. -/
theorem cons_eq_of_sequence? {lead : UInt8} {rest : Bytes} {c : Char}
    (h : sequence? lead rest = some c) :
    lead :: rest = String.utf8EncodeChar c ++ rest.drop (c.utf8Size - 1) := by
  have hl : lead.toNat < 256 := UInt8.toNat_lt lead
  simp only [sequence?] at h
  rw [← String.length_utf8EncodeChar c]
  split at h
  · cases h
    have hc : (Char.ofNat lead.toNat).val.toNat = lead.toNat :=
      val_ofNat (by unfold Nat.isValidChar; omega)
    have h₁ : lead.toNat ≤ 127 := by omega
    have e : String.utf8EncodeChar (Char.ofNat lead.toNat) = [lead] := by
      simp only [String.utf8EncodeChar, hc, h₁, ↓reduceIte, UInt8.ofNat_toNat]
    rw [e]
    rfl
  split at h
  · simp at h
  split at h
  · split at h
    · rename_i b _
      simp only [Option.bind_eq_bind, Option.bind_eq_some_iff] at h
      obtain ⟨x, hx, h⟩ := h
      obtain ⟨hb, hx⟩ := toNat_of_tailBits? hx
      obtain ⟨hc, hle⟩ := val_of_scalar? h
      have e : String.utf8EncodeChar c = [lead, b] := by
        have h₁ : ¬ c.val.toNat ≤ 127 := by omega
        have h₂ : c.val.toNat ≤ 2047 := by omega
        simp only [String.utf8EncodeChar, h₁, h₂, ↓reduceIte]
        rw [ofNat_eq_of_toNat_eq (b := lead) (by omega), ofNat_eq_of_toNat_eq (b := b) (by omega)]
      rw [e]
      rfl
    · simp at h
  split at h
  · split at h
    · rename_i b b' _
      simp only [Option.bind_eq_bind, Option.bind_eq_some_iff] at h
      obtain ⟨x, hx, y, hy, h⟩ := h
      obtain ⟨hb, hx⟩ := toNat_of_tailBits? hx
      obtain ⟨hb', hy⟩ := toNat_of_tailBits? hy
      obtain ⟨hc, hle⟩ := val_of_scalar? h
      have e : String.utf8EncodeChar c = [lead, b, b'] := by
        have h₁ : ¬ c.val.toNat ≤ 127 := by omega
        have h₂ : ¬ c.val.toNat ≤ 2047 := by omega
        have h₃ : c.val.toNat ≤ 65535 := by omega
        simp only [String.utf8EncodeChar, h₁, h₂, h₃, ↓reduceIte]
        rw [ofNat_eq_of_toNat_eq (b := lead) (by omega), ofNat_eq_of_toNat_eq (b := b) (by omega),
          ofNat_eq_of_toNat_eq (b := b') (by omega)]
      rw [e]
      rfl
    · simp at h
  split at h
  · split at h
    · rename_i b b' b'' _
      simp only [Option.bind_eq_bind, Option.bind_eq_some_iff] at h
      obtain ⟨x, hx, y, hy, z, hz, h⟩ := h
      obtain ⟨hb, hx⟩ := toNat_of_tailBits? hx
      obtain ⟨hb', hy⟩ := toNat_of_tailBits? hy
      obtain ⟨hb'', hz⟩ := toNat_of_tailBits? hz
      obtain ⟨hc, hle⟩ := val_of_scalar? h
      have e : String.utf8EncodeChar c = [lead, b, b', b''] := by
        have h₁ : ¬ c.val.toNat ≤ 127 := by omega
        have h₂ : ¬ c.val.toNat ≤ 2047 := by omega
        have h₃ : ¬ c.val.toNat ≤ 65535 := by omega
        simp only [String.utf8EncodeChar, h₁, h₂, h₃, ↓reduceIte]
        rw [ofNat_eq_of_toNat_eq (b := lead) (by omega), ofNat_eq_of_toNat_eq (b := b) (by omega),
          ofNat_eq_of_toNat_eq (b := b') (by omega), ofNat_eq_of_toNat_eq (b := b'') (by omega)]
      rw [e]
      rfl
    · simp at h
  · simp at h

/-- Decoding loses nothing: the bytes of the decoded text are the bytes it was decoded from. -/
@[simp] theorem bytes_decode (b : Bytes) : (decode b).bytes = b := by
  fun_induction decode b with
  | case1 => rfl
  | case2 lead rest c h ih =>
    rw [bytes_cons, ih]
    exact (cons_eq_of_sequence? h).symm
  | case3 lead rest h ih =>
    rw [bytes_cons, ih]
    rfl
end Asm6502.Text
