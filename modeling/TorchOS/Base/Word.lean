import Mathlib.Data.Nat.Bitwise
import Mathlib.Tactic.NormNum

/-!
# Arithmetic of 32-bit words

Masks, shifts and tag bits of `UInt32` words, read as arithmetic on the numbers
they stand for.
-/

namespace Base.Word

/-- Masking with a shifted mask keeps the shifted-out bits apart. -/
theorem nat_and_shiftLeft (value mask shift : Nat) :
    value &&& (mask <<< shift) = ((value >>> shift) &&& mask) <<< shift := by
  apply Nat.eq_of_testBit_eq
  intro index
  by_cases low : shift ≤ index
  · simp [Nat.testBit_and, Nat.testBit_shiftLeft, Nat.testBit_shiftRight, low]
  · simp [Nat.testBit_and, Nat.testBit_shiftLeft, low]

theorem toNat_inj_iff {a b : UInt32} : a = b ↔ a.toNat = b.toNat :=
  UInt32.toNat_inj.symm

/-- Clearing the low twelve bits rounds down to a multiple of 4096. -/
theorem toNat_and_high (value : UInt32) :
    (value &&& 0xFFFFF000).toNat = value.toNat / 4096 * 4096 := by
  have bound := value.toNat_lt
  have mask : (0xFFFFF000 : UInt32).toNat = (2 ^ 20 - 1) <<< 12 := rfl
  rw [UInt32.toNat_and, mask, nat_and_shiftLeft, Nat.and_two_pow_sub_one_eq_mod,
    Nat.shiftRight_eq_div_pow, Nat.shiftLeft_eq]
  omega

theorem toNat_and_one (value : UInt32) : (value &&& 1).toNat = value.toNat % 2 := by
  simp [Nat.and_one_is_mod]

theorem toNat_shiftRight_22 (value : UInt32) : (value >>> 22).toNat = value.toNat / 2 ^ 22 := by
  simp [Nat.shiftRight_eq_div_pow]

/-- The ten bits above the low twelve. -/
theorem toNat_shiftRight_12_and (value : UInt32) :
    (value >>> 12 &&& 0x03FF).toNat = value.toNat / 4096 % 1024 := by
  have masked := Nat.and_two_pow_sub_one_eq_mod (value.toNat >>> 12) 10
  simp only [Nat.shiftRight_eq_div_pow] at masked
  simpa [Nat.shiftRight_eq_div_pow] using masked

/-- The low twelve bits are the remainder modulo 4096. -/
theorem toNat_and_low (value : UInt32) : (value &&& 0xFFF).toNat = value.toNat % 4096 := by
  have masked := Nat.and_two_pow_sub_one_eq_mod value.toNat 12
  rw [UInt32.toNat_and]
  exact masked

/-- Low bits or-ed into a multiple of their range are added to it. -/
theorem toNat_or_low {value low : UInt32} (shift : Nat) (aligned : value.toNat % 2 ^ shift = 0)
    (small : low.toNat < 2 ^ shift) : (value ||| low).toNat = value.toNat + low.toNat := by
  have joined := Nat.two_pow_add_eq_or_of_lt small (value.toNat / 2 ^ shift)
  have whole : 2 ^ shift * (value.toNat / 2 ^ shift) = value.toNat :=
    Nat.mul_div_cancel' (Nat.dvd_of_mod_eq_zero aligned)
  rw [whole] at joined
  rw [UInt32.toNat_or, ← joined]

/-- The low half of a word, widened again. -/
theorem toNat_low_half (word : UInt32) :
    (word &&& 0xFFFF).toUInt16.toUInt32.toNat = word.toNat % 65536 := by
  have masked := Nat.and_two_pow_sub_one_eq_mod word.toNat 16
  have wide : (0xFFFF : UInt32).toNat = 2 ^ 16 - 1 := rfl
  rw [UInt16.toNat_toUInt32, UInt32.toNat_toUInt16, UInt32.toNat_and, wide, masked]
  omega

/-- The halves of a word make it up again. -/
theorem or_halves (word : UInt32) :
    (word &&& 0xFFFF).toUInt16.toUInt32 ||| ((word >>> 16 &&& 0xFFFF).toUInt16.toUInt32 <<< 16) =
      word := by
  have wide := word.toNat_lt
  have low := toNat_low_half word
  have high : ((word >>> 16 &&& 0xFFFF).toUInt16.toUInt32 <<< 16).toNat =
      word.toNat / 65536 * 65536 := by
    have sixteen : (16 : UInt32).toNat % 32 = 16 := rfl
    rw [UInt32.toNat_shiftLeft, toNat_low_half, UInt32.toNat_shiftRight, sixteen,
      Nat.shiftRight_eq_div_pow, Nat.shiftLeft_eq]
    omega
  rw [← UInt32.toNat_inj, UInt32.or_comm, toNat_or_low 16, high, low]
  · omega
  · omega
  · omega

/-- Masking distributes over joining. -/
theorem or_and_distrib (left right mask : UInt32) :
    (left ||| right) &&& mask = (left &&& mask) ||| (right &&& mask) := by
  rw [← UInt32.toBitVec_inj]
  exact BitVec.and_or_distrib_right

/-- The low half of a word whose low half was replaced. -/
theorem toUInt16_or_high (value : UInt32) (low : UInt16) :
    ((value &&& 0xFFFF0000) ||| low.toUInt32).toUInt16 = low := by
  have cleared : (value &&& 0xFFFF0000).toUInt16 = 0 := by
    rw [UInt32.toUInt16_and]
    exact UInt16.and_zero
  rw [UInt32.toUInt16_or, cleared, UInt16.toUInt16_toUInt32, UInt16.zero_or]

end Base.Word
