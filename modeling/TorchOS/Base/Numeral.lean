import Mathlib.Data.Nat.Digits.Lemmas
import Mathlib.Tactic.Common

/-!
# Numerals in ASCII

The decimal numeral of a number, without leading zeros, and its hexadecimal digits, as
many as asked for. Hexadecimal digits come apart at any place, and decimal digits come off
one by one at the low end.
-/

namespace Base.Numeral

/-! ## Decimal -/

/-- A decimal digit. -/
def decimalDigit (digit : Nat) : UInt8 := 48 + UInt8.ofNat digit

/-- The decimal digits of a number, lowest first. -/
def lowDigits (n : Nat) : List UInt8 := (Nat.digits 10 n).map decimalDigit

/-- The decimal numeral of a number. -/
def decimal (n : Nat) : List UInt8 := if n = 0 then [decimalDigit 0] else (lowDigits n).reverse

@[simp] theorem lowDigits_zero : lowDigits 0 = [] := by
  rw [lowDigits, Nat.digits_zero, List.map_nil]

/-- The lowest digit comes off first. -/
theorem lowDigits_pos {n : Nat} (positive : 0 < n) :
    lowDigits n = decimalDigit (n % 10) :: lowDigits (n / 10) := by
  rw [lowDigits, Nat.digits_def' (by decide) positive, List.map_cons]
  rfl

theorem decimalDigit_ne_zero {digit : Nat} (small : digit < 10) : decimalDigit digit ≠ 0 := by
  rw [decimalDigit, ne_eq, ← UInt8.toNat_inj, UInt8.toNat_add, UInt8.toNat_ofNat']
  change ¬ (48 + digit % 2 ^ 8) % 2 ^ 8 = 0
  omega

/-- No digit is the zero byte. -/
theorem zero_notMem_lowDigits (n : Nat) : 0 ∉ lowDigits n := by
  intro member
  obtain ⟨digit, digits, zero⟩ := List.mem_map.mp member
  exact decimalDigit_ne_zero (Nat.digits_lt_base (by decide) digits) zero

theorem length_lowDigits_le {n count : Nat} (small : n < 10 ^ count) :
    (lowDigits n).length ≤ count := by
  rw [lowDigits, List.length_map]
  exact (Nat.digits_length_le_iff (by decide) n).mpr small

/-- A 32-bit number has at most ten decimal digits. -/
theorem length_lowDigits_word (n : UInt32) : (lowDigits n.toNat).length ≤ 10 :=
  length_lowDigits_le (Nat.lt_trans n.toNat_lt (by decide))

theorem decimal_pos {n : Nat} (positive : 0 < n) : decimal n = (lowDigits n).reverse :=
  if_neg (Nat.ne_of_gt positive)

/-! ## Hexadecimal -/

/-- An upper-case hexadecimal digit. -/
def hexDigit (digit : Nat) : UInt8 :=
  if digit < 10 then 48 + UInt8.ofNat digit else 55 + UInt8.ofNat digit

/-- The lowest `count` hexadecimal digits of a number, highest first. -/
def hex (count n : Nat) : List UInt8 :=
  (List.range count).map fun place => hexDigit (n / 16 ^ (count - 1 - place) % 16)

@[simp] theorem length_hex (count n : Nat) : (hex count n).length = count := by
  rw [hex, List.length_map, List.length_range]

/-- Every hexadecimal digit is a decimal one or a capital letter up to F. -/
theorem mem_hex {count n : Nat} {digit : UInt8} (member : digit ∈ hex count n) :
    (48 ≤ digit ∧ digit ≤ 57) ∨ (65 ≤ digit ∧ digit ≤ 70) := by
  have inRange : ∀ value < 16, (48 ≤ hexDigit value ∧ hexDigit value ≤ 57) ∨
      (65 ≤ hexDigit value ∧ hexDigit value ≤ 70) := by decide
  obtain ⟨place, _, rfl⟩ := List.mem_map.mp member
  exact inRange _ (Nat.mod_lt _ (by decide))

theorem hex_one (n : Nat) : hex 1 n = [hexDigit (n % 16)] := by
  simp [hex]

/-- High digits come before low ones. -/
theorem hex_add (high low n : Nat) :
    hex (high + low) n = hex high (n / 16 ^ low) ++ hex low n := by
  rw [hex, hex, hex, List.range_add, List.map_append, List.map_map]
  congr 1
  · apply List.map_congr_left
    intro place inside
    have below := List.mem_range.mp inside
    have split : high + low - 1 - place = low + (high - 1 - place) := by omega
    rw [split, Nat.pow_add, Nat.div_div_eq_div_mul]
  · apply List.map_congr_left
    intro place _
    have same : high + low - 1 - (high + place) = low - 1 - place := by omega
    rw [Function.comp_apply, same]

/-- The upper half of twice as many digits, shifted down, comes before the lower half. -/
theorem hex_halves {digits : Nat} {n count : UInt32} (narrow : 4 * digits < 32)
    (wide : count.toNat = 4 * digits) :
    hex digits (n >>> count).toNat ++ hex digits n.toNat = hex (digits + digits) n.toNat := by
  have high : (n >>> count).toNat = n.toNat / 16 ^ digits := by
    rw [UInt32.toNat_shiftRight, wide, Nat.mod_eq_of_lt narrow, Nat.shiftRight_eq_div_pow,
      Nat.pow_mul]
  rw [hex_add, high]

/-! ## Reading back -/

/-- The value of a digit. -/
def digitValue (digit : UInt8) : Nat :=
  if digit ≤ 57 then digit.toNat - 48 else digit.toNat - 55

/-- The number that a numeral stands for. -/
def readBack (base : Nat) (numeral : List UInt8) : Nat :=
  numeral.foldl (fun value digit => base * value + digitValue digit) 0

/-- Low digits behind high ones. -/
theorem readBack_snoc (base : Nat) (numeral : List UInt8) (digit : UInt8) :
    readBack base (numeral ++ [digit]) = base * readBack base numeral + digitValue digit := by
  rw [readBack, List.foldl_append]
  rfl

theorem digitValue_decimalDigit : ∀ digit < 10, digitValue (decimalDigit digit) = digit := by
  decide

theorem digitValue_hexDigit : ∀ digit < 16, digitValue (hexDigit digit) = digit := by
  decide

/-- Read from the last digit to the first, the low digits give the number. -/
theorem readBack_lowDigits (n : Nat) : readBack 10 (lowDigits n).reverse = n := by
  induction n using Nat.strongRecOn with
  | ind n ih =>
      by_cases zero : n = 0
      · rw [zero, lowDigits_zero]
        rfl
      · have positive := Nat.pos_of_ne_zero zero
        rw [lowDigits_pos positive, List.reverse_cons, readBack_snoc,
          ih _ (Nat.div_lt_self positive (by decide)),
          digitValue_decimalDigit _ (Nat.mod_lt _ (by decide))]
        omega

theorem readBack_decimal (n : Nat) : readBack 10 (decimal n) = n := by
  by_cases zero : n = 0
  · rw [zero]
    rfl
  · rw [decimal_pos (Nat.pos_of_ne_zero zero), readBack_lowDigits]

/-- Every byte of a decimal numeral is a digit. -/
theorem mem_decimal {n : Nat} {digit : UInt8} (member : digit ∈ decimal n) :
    48 ≤ digit ∧ digit ≤ 57 := by
  have inRange : ∀ value < 10, 48 ≤ decimalDigit value ∧ decimalDigit value ≤ 57 := by decide
  rw [decimal] at member
  split at member
  · rw [List.mem_singleton.mp member]
    exact inRange 0 (by decide)
  · obtain ⟨value, digits, rfl⟩ := List.mem_map.mp (List.mem_reverse.mp member)
    exact inRange value (Nat.digits_lt_base (by decide) digits)

/-- A decimal numeral that starts with a zero is the numeral of zero. -/
theorem decimal_head_zero {n : Nat} (leading : (decimal n).head? = some 48) : n = 0 := by
  by_contra nonzero
  have positive := Nat.pos_of_ne_zero nonzero
  have notEmpty : Nat.digits 10 n ≠ [] := Nat.digits_ne_nil_iff_ne_zero.mpr nonzero
  rw [decimal_pos positive, List.head?_reverse, lowDigits, List.getLast?_map,
    List.getLast?_eq_some_getLast notEmpty, Option.map_some, Option.some.injEq] at leading
  have highest := Nat.getLast_digit_ne_zero 10 nonzero
  have small := Nat.digits_lt_base (by decide) (List.getLast_mem notEmpty)
  have same := digitValue_decimalDigit _ small
  rw [leading] at same
  exact highest same.symm

/-- The digits of the lower part of a number, read back. -/
theorem readBack_hex (count n : Nat) : readBack 16 (hex count n) = n % 16 ^ count := by
  induction count generalizing n with
  | zero =>
      rw [Nat.pow_zero, Nat.mod_one]
      rfl
  | succ count ih =>
      rw [hex_add count 1, hex_one, readBack_snoc, ih,
        digitValue_hexDigit _ (Nat.mod_lt _ (by decide)), Nat.pow_one, Nat.pow_succ', Nat.mod_mul]
      omega

end Base.Numeral
