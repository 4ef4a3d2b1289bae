import Mathlib.Data.Nat.Bitwise
import Mathlib.Tactic.Common

/-!
# First-fit bitmaps

A bitmap is a fixed number of 32-bit words; bit `index` is bit `index % 32` of
word `index / 32`. `firstFit` takes the lowest clear bit by scanning for a word
that is not full and then for a clear bit in it.
-/

namespace Base

/-- A bitmap of `size` words. -/
abbrev Bitmap (size : Nat) := Vector UInt32 size

namespace Bitmap

variable {size : Nat}

/-- The mask of one bit of a word. -/
def mask (position : Nat) : UInt32 := 1 <<< UInt32.ofNat position

theorem toNat_mask {position : Nat} (inWord : position < 32) :
    (mask position).toNat = 2 ^ position := by
  have small : position < UInt32.size := by simp only [UInt32.size]; omega
  have below : 2 ^ position < 2 ^ 32 := Nat.pow_lt_pow_right (by decide) inWord
  simp only [mask, UInt32.toNat_shiftLeft, UInt32.toNat_one, UInt32.toNat_ofNat_of_lt' small,
    Nat.mod_eq_of_lt inWord, Nat.one_shiftLeft, Nat.mod_eq_of_lt below]

/-- A masked word is zero exactly when the bit is clear. -/
theorem and_mask_eq_zero_iff {word : UInt32} {position : Nat} (inWord : position < 32) :
    word &&& mask position = 0 ↔ word.toNat.testBit position = false := by
  rw [← UInt32.toNat_inj, UInt32.toNat_and, toNat_mask inWord, Nat.and_two_pow]
  have positive : 0 < 2 ^ position := Nat.two_pow_pos position
  cases word.toNat.testBit position <;> simp

/-- Or-ing a mask in sets that bit and no other. -/
theorem testBit_or_mask {word : UInt32} {position other : Nat} (inWord : position < 32) :
    (word ||| mask position).toNat.testBit other =
      (word.toNat.testBit other || decide (other = position)) := by
  rw [UInt32.toNat_or, toNat_mask inWord, Nat.testBit_or, Nat.testBit_two_pow]
  simp [eq_comm]

/-- A word whose 32 bits are all set is the full word. -/
theorem eq_full_of_testBit {word : UInt32}
    (set : ∀ position < 32, word.toNat.testBit position = true) : word = 0xFFFFFFFF := by
  rw [← UInt32.toNat_inj]
  apply Nat.eq_of_testBit_eq
  intro position
  have full : (0xFFFFFFFF : UInt32).toNat = 2 ^ 32 - 1 := rfl
  rw [full, Nat.testBit_two_pow_sub_one]
  by_cases inWord : position < 32
  · simp [set position inWord, inWord]
  · have wide : word.toNat < 2 ^ position :=
      Nat.lt_of_lt_of_le word.toNat_lt (Nat.pow_le_pow_right (by decide) (by omega))
    simp [Nat.testBit_lt_two_pow wide, inWord]

/-- A word of the bitmap. -/
def word (bitmap : Bitmap size) (index : Nat) : UInt32 := bitmap[index]?.getD 0

/-- The bitmap with one word replaced. -/
def setWord (bitmap : Bitmap size) (index : Nat) (value : UInt32) : Bitmap size :=
  bitmap.setIfInBounds index value

/-- Whether a bit of the bitmap is set. -/
def isSet (bitmap : Bitmap size) (index : Nat) : Bool :=
  (bitmap.word (index / 32)).toNat.testBit (index % 32)

/-- The bitmap with every bit clear. -/
def clear (size : Nat) : Bitmap size := Vector.replicate size 0

@[simp] theorem isSet_clear (index : Nat) : (clear size).isSet index = false := by
  by_cases inside : index / 32 < size <;> simp [isSet, word, clear, inside]

/-- Take the lowest clear bit: its index, and the bitmap with it set. -/
def firstFit (bitmap : Bitmap size) : Option (Nat × Bitmap size) :=
  match (List.range size).find? fun i => bitmap.word i ≠ 0xFFFFFFFF with
  | none => none
  | some i =>
      match (List.range 32).find? fun j => bitmap.word i &&& mask j = 0 with
      | none => none
      | some j => some (i * 32 + j, bitmap.setWord i (bitmap.word i ||| mask j))

theorem word_setWord {bitmap : Bitmap size} {index other : Nat} {value : UInt32}
    (inside : index < size) :
    (bitmap.setWord index value).word other =
      if other = index then value else bitmap.word other := by
  by_cases same : other = index
  · subst other
    simp [word, setWord, inside]
  · simp [word, setWord, same, Vector.getElem?_setIfInBounds_ne (Ne.symm same)]

/-- Setting a bit of one word sets that bit of the bitmap and no other. -/
theorem isSet_setWord {bitmap : Bitmap size} {index position other : Nat} (inside : index < size)
    (inWord : position < 32) :
    (bitmap.setWord index (bitmap.word index ||| mask position)).isSet other =
      (bitmap.isSet other || decide (other = index * 32 + position)) := by
  rw [isSet, word_setWord inside]
  by_cases here : other / 32 = index
  · subst index
    rw [if_pos rfl, testBit_or_mask inWord, isSet]
    congr 1
    exact decide_eq_decide.mpr (by omega)
  · have elsewhere : other ≠ index * 32 + position := by omega
    rw [if_neg here, isSet]
    simp [elsewhere]

/-- What taking the lowest clear bit does: it was clear, all before it were set,
and it alone is set afterwards. -/
theorem firstFit_some {bitmap after : Bitmap size} {index : Nat}
    (taken : bitmap.firstFit = some (index, after)) :
    index < 32 * size ∧ bitmap.isSet index = false ∧
      (∀ lower < index, bitmap.isSet lower = true) ∧
      ∀ other, after.isSet other = (bitmap.isSet other || decide (other = index)) := by
  unfold firstFit at taken
  split at taken
  · cases taken
  · rename_i i word
    split at taken
    · cases taken
    · rename_i j position
      cases taken
      simp only [List.find?_range_eq_some, List.mem_range, decide_eq_true_eq,
        Bool.not_eq_true', decide_eq_false_iff_not, not_not] at word position
      obtain ⟨notFull, inside, lowerFull⟩ := word
      obtain ⟨clearBit, inWord, lowerSet⟩ := position
      have quotient : (i * 32 + j) / 32 = i := by omega
      have remainder : (i * 32 + j) % 32 = j := by omega
      refine ⟨by omega, ?_, ?_, fun other => isSet_setWord inside inWord⟩
      · rw [isSet, quotient, remainder]
        exact (and_mask_eq_zero_iff inWord).mp clearBit
      · intro lower below
        rw [isSet]
        by_cases sameWord : lower / 32 = i
        · rw [sameWord]
          have earlier : lower % 32 < j := by omega
          have occupied := lowerSet (lower % 32) earlier
          rw [and_mask_eq_zero_iff (by omega)] at occupied
          simpa using occupied
        · rw [lowerFull (lower / 32) (by omega)]
          have full : (0xFFFFFFFF : UInt32).toNat = 2 ^ 32 - 1 := rfl
          rw [full, Nat.testBit_two_pow_sub_one]
          simpa using Nat.mod_lt lower (by decide : 32 > 0)

/-- A bitmap has no lowest clear bit exactly when it is full. -/
theorem firstFit_eq_none_iff {bitmap : Bitmap size} :
    bitmap.firstFit = none ↔ ∀ index < 32 * size, bitmap.isSet index = true := by
  constructor
  · intro exhausted index inside
    unfold firstFit at exhausted
    split at exhausted
    · rename_i full
      simp only [List.find?_range_eq_none, Bool.not_eq_true',
        decide_eq_false_iff_not, not_not] at full
      have wordFull := full (index / 32) (by omega)
      have ones : (0xFFFFFFFF : UInt32).toNat = 2 ^ 32 - 1 := rfl
      rw [isSet, wordFull, ones, Nat.testBit_two_pow_sub_one]
      simpa using Nat.mod_lt index (by decide : 32 > 0)
    · rename_i i notFull
      split at exhausted
      · rename_i noBit
        simp only [List.find?_range_eq_some, decide_eq_true_eq] at notFull
        simp only [List.find?_range_eq_none, Bool.not_eq_true', decide_eq_false_iff_not] at noBit
        refine absurd (eq_full_of_testBit fun position inWord => ?_) notFull.1
        have occupied := noBit position inWord
        rw [and_mask_eq_zero_iff inWord] at occupied
        simpa using occupied
      · cases exhausted
  · intro full
    cases taken : bitmap.firstFit with
    | none => rfl
    | some result =>
        obtain ⟨index, after⟩ := result
        obtain ⟨inside, clearBit, _⟩ := firstFit_some taken
        rw [full index inside] at clearBit
        cases clearBit

/-- Exactly the first `count` bits are set. -/
def Filled (bitmap : Bitmap size) (count : Nat) : Prop :=
  ∀ index, bitmap.isSet index = decide (index < count)

theorem filled_clear : (clear size).Filled 0 := fun index => by simp

/-- With the first bits set the next one is taken, and they are set one further. -/
theorem Filled.firstFit {bitmap : Bitmap size} {count : Nat} (filled : bitmap.Filled count)
    (room : count < 32 * size) :
    ∃ after, bitmap.firstFit = some (count, after) ∧ after.Filled (count + 1) := by
  cases taken : bitmap.firstFit with
  | none =>
      have occupied := firstFit_eq_none_iff.mp taken count room
      simp [filled count] at occupied
  | some result =>
      obtain ⟨index, after⟩ := result
      obtain ⟨_, clearBit, lower, sets⟩ := firstFit_some taken
      have above : count ≤ index := by
        simpa [filled index] using clearBit
      have below : index ≤ count := by
        by_contra past
        have occupied := lower count (by omega)
        simp [filled count] at occupied
      obtain rfl : index = count := by omega
      refine ⟨after, rfl, fun other => ?_⟩
      rw [sets, filled other, ← Bool.decide_or]
      exact decide_eq_decide.mpr (by omega)

/-- The lowest clear bit of a clear bitmap is its first. -/
theorem firstFit_clear (nonempty : 0 < size) :
    ∃ after, (clear size).firstFit = some (0, after) := by
  obtain ⟨after, taken, _⟩ := filled_clear.firstFit (by omega : 0 < 32 * size)
  exact ⟨after, taken⟩

end Bitmap

end Base
