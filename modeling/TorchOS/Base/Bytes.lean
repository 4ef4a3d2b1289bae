import Mathlib.Algebra.Group.Nat.Defs
import Mathlib.Data.Set.BooleanAlgebra
import Mathlib.Data.Set.Disjoint
import Mathlib.Data.Set.Insert
import Mathlib.Data.List.GetD
import Mathlib.Order.CompletePartialOrder
import Mathlib.Tactic.Common

/-!
# A flat memory of bytes

Memory is one byte at every 32-bit address. A `Span` is the set of addresses a
C object occupies, counted modulo 2^32 as pointer arithmetic does. Every store
is a `write` of a list of bytes; words are little-endian.
-/

namespace Base

/-- One byte at each 32-bit address. -/
abbrev Bytes := UInt32 → UInt8

/-- The `length` addresses from `start` on. -/
def Span (start : UInt32) (length : Nat) : Set UInt32 :=
  {address | (address - start).toNat < length}

namespace Span

variable {start other address : UInt32} {length count : Nat}

theorem mem_def : address ∈ Span start length ↔ (address - start).toNat < length := Iff.rfl

instance : DecidablePred (· ∈ Span start length) := fun address =>
  inferInstanceAs (Decidable ((address - start).toNat < length))

/-- A span that does not wrap is an interval. -/
theorem mem_iff (fits : start.toNat + length ≤ 2 ^ 32) :
    address ∈ Span start length ↔
      start.toNat ≤ address.toNat ∧ address.toNat < start.toNat + length := by
  have below := address.toNat_lt
  have origin := start.toNat_lt
  rw [mem_def, UInt32.toNat_sub]
  omega

theorem add_ofNat_mem {index : Nat} (inside : index < length) :
    start + UInt32.ofNat index ∈ Span start length := by
  have offset : start + UInt32.ofNat index - start = UInt32.ofNat index := by grind
  rw [mem_def, offset, UInt32.toNat_ofNat']
  exact Nat.lt_of_le_of_lt (Nat.mod_le _ _) inside

theorem add_mem {offset : UInt32} (inside : offset.toNat < length) :
    start + offset ∈ Span start length := by
  have distance : start + offset - start = offset := by grind
  rw [mem_def, distance]
  exact inside

theorem start_mem (nonempty : 0 < length) : start ∈ Span start length := by
  rw [mem_def, UInt32.sub_self]
  exact nonempty

/-- Every address of a span is its start plus an index below the length. -/
theorem exists_index (inside : address ∈ Span start length) :
    ∃ index, index < length ∧ index < 2 ^ 32 ∧ address = start + UInt32.ofNat index := by
  refine ⟨(address - start).toNat, inside, UInt32.toNat_lt _, ?_⟩
  rw [UInt32.ofNat_toNat]
  grind

theorem mono (shorter : count ≤ length) : Span start count ⊆ Span start length :=
  fun _ inside => Nat.lt_of_lt_of_le inside shorter

/-- A part of a span, named by its offset and length, lies inside it. -/
theorem shift_subset {offset : UInt32} (fits : offset.toNat + count ≤ length) :
    Span (start + offset) count ⊆ Span start length := by
  intro address inside
  rw [mem_def] at inside ⊢
  have split : address - start = (address - (start + offset)) + offset := by grind
  rw [split, UInt32.toNat_add]
  exact Nat.lt_of_le_of_lt (Nat.mod_le _ _) (by omega)

/-- Two spans that do not wrap are disjoint when one ends before the other starts. -/
theorem disjoint_of_le (apart : start.toNat + length ≤ other.toNat)
    (fits : other.toNat + count ≤ 2 ^ 32) : Disjoint (Span start length) (Span other count) := by
  rw [Set.disjoint_left]
  intro address left right
  rw [mem_iff (by omega)] at left
  rw [mem_iff fits] at right
  omega

/-- What lies below a span is not in it. -/
theorem notMem_below {below : UInt32} (inside : address ∈ Span start length)
    (reach : count ≤ below.toNat) (fits : below.toNat + length ≤ 2 ^ 32) :
    address ∉ Span (start - below) count := by
  intro member
  rw [mem_def] at inside member
  have split : address - (start - below) = address - start + below := by grind
  rw [split, UInt32.toNat_add] at member
  omega

/-- Two parts of one object are disjoint when one ends before the other starts. -/
theorem shift_disjoint {left right : UInt32} (apart : left.toNat + length ≤ right.toNat)
    (fits : right.toNat + count ≤ 2 ^ 32) :
    Disjoint (Span (start + left) length) (Span (start + right) count) := by
  rw [Set.disjoint_left]
  intro address inLeft inRight
  rw [mem_def] at inLeft inRight
  have fromLeft : address - (start + left) = (address - start) - left := by grind
  have fromRight : address - (start + right) = (address - start) - right := by grind
  rw [fromLeft, UInt32.toNat_sub] at inLeft
  rw [fromRight, UInt32.toNat_sub] at inRight
  have wide := (address - start).toNat_lt
  omega

end Span

namespace Bytes

variable {memory memory' : Bytes} {start other address : UInt32} {bytes rest : List UInt8}
  {count : Nat}

/-- Store consecutive bytes from `start` on. -/
def write (memory : Bytes) (start : UInt32) (bytes : List UInt8) : Bytes := fun address =>
  bytes.getD (address - start).toNat (memory address)

/-- Load `count` consecutive bytes from `start` on. -/
def read (memory : Bytes) (start : UInt32) (count : Nat) : List UInt8 :=
  (List.range count).map fun index => memory (start + UInt32.ofNat index)

@[simp] theorem write_nil : memory.write start [] = memory := by
  funext address
  simp [write]

/-- A store changes nothing outside its own span. -/
theorem write_of_notMem (outside : address ∉ Span start bytes.length) :
    memory.write start bytes address = memory address := by
  rw [Span.mem_def, Nat.not_lt] at outside
  simp [write, List.getElem?_eq_none outside]

/-- Inside its span, a store does not look at what was there. -/
theorem write_of_mem (inside : address ∈ Span start bytes.length) :
    memory.write start bytes address = memory'.write start bytes address := by
  rw [Span.mem_def] at inside
  simp [write, List.getElem?_eq_getElem inside]

/-- Storing one value throughout a span. -/
theorem write_replicate {value : UInt8} :
    memory.write start (List.replicate count value) address =
      if address ∈ Span start count then value else memory address := by
  by_cases inside : (address - start).toNat < count
  · simp [write, Span.mem_def, inside]
  · simp [write, Span.mem_def, inside]

/-- Storing one byte. -/
theorem write_singleton {byte : UInt8} :
    memory.write start [byte] address = if address = start then byte else memory address := by
  by_cases same : address = start
  · simp [write, same]
  · have apart : (address - start).toNat ≠ 0 := by
      intro zero
      apply same
      have none : address - start = 0 := UInt32.toNat_inj.mp zero
      grind
    have outside : address ∉ Span start [byte].length := by
      rw [Span.mem_def, List.length_singleton]
      omega
    rw [write_of_notMem outside, if_neg same]

theorem write_at {index : Nat} (inside : index < bytes.length) (bound : index < 2 ^ 32) :
    memory.write start bytes (start + UInt32.ofNat index) = bytes[index] := by
  have offset : start + UInt32.ofNat index - start = UInt32.ofNat index := by grind
  have position : (UInt32.ofNat index).toNat = index := UInt32.toNat_ofNat_of_lt' bound
  simp [write, offset, position, inside]

@[simp] theorem length_read : (memory.read start count).length = count := by simp [read]

theorem getElem_read {index : Nat} (inside : index < (memory.read start count).length) :
    (memory.read start count)[index] = memory (start + UInt32.ofNat index) := by
  simp [read]

/-- Reading looks at nothing outside its own span. -/
theorem read_congr (agree : ∀ address ∈ Span start count, memory' address = memory address) :
    memory'.read start count = memory.read start count := by
  apply List.map_congr_left
  intro index inside
  exact agree _ (Span.add_ofNat_mem (List.mem_range.mp inside))

theorem read_write_same (bound : bytes.length ≤ 2 ^ 32) :
    (memory.write start bytes).read start bytes.length = bytes := by
  apply List.ext_getElem (by simp)
  intro index left right
  rw [getElem_read, write_at right (by omega)]

theorem read_write_of_disjoint (apart : Disjoint (Span other count) (Span start bytes.length)) :
    (memory.write start bytes).read other count = memory.read other count :=
  read_congr fun _ inside => write_of_notMem (Set.disjoint_left.mp apart inside)

theorem read_add (first second : Nat) :
    memory.read start (first + second) =
      memory.read start first ++ memory.read (start + UInt32.ofNat first) second := by
  simp only [read, List.range_add, List.map_append, List.map_map]
  congr 1
  apply List.map_congr_left
  intro index _
  simp only [Function.comp_apply, UInt32.ofNat_add]
  congr 1
  grind

/-- Reading a part is reading the whole and cutting the part out. -/
theorem read_part {position length : Nat} (inside : position + count ≤ length) :
    memory.read (start + UInt32.ofNat position) count =
      ((memory.read start length).drop position).take count := by
  obtain ⟨rest, rfl⟩ : ∃ rest, length = position + (count + rest) :=
    ⟨length - position - count, by omega⟩
  rw [read_add, read_add, List.drop_append, length_read, Nat.sub_self, List.drop_zero,
    List.drop_eq_nil_of_le (by rw [length_read]), List.nil_append, List.take_append, length_read,
    Nat.sub_self, List.take_zero, List.append_nil, List.take_of_length_le (by rw [length_read])]

/-- Storing one list after another is storing their concatenation. -/
theorem write_append (bound : bytes.length + rest.length ≤ 2 ^ 32) :
    (memory.write start bytes).write (start + UInt32.ofNat bytes.length) rest =
      memory.write start (bytes ++ rest) := by
  funext address
  have split : address - (start + UInt32.ofNat bytes.length) =
      (address - start) - UInt32.ofNat bytes.length := by grind
  simp only [write, split]
  generalize address - start = position
  have wide := position.toNat_lt
  have shift : (position - UInt32.ofNat bytes.length).toNat =
      (2 ^ 32 - bytes.length % 2 ^ 32 + position.toNat) % 2 ^ 32 := by
    rw [UInt32.toNat_sub, UInt32.toNat_ofNat']
  by_cases before : position.toNat < bytes.length
  · have past : rest.length ≤ (position - UInt32.ofNat bytes.length).toNat := by omega
    simp only [List.getD_eq_getElem?_getD]
    rw [List.getElem?_append_left before, List.getElem?_eq_none past]
    rfl
  · have inRest : (position - UInt32.ofNat bytes.length).toNat =
        position.toNat - bytes.length := by omega
    simp only [List.getD_eq_getElem?_getD, inRest]
    rw [List.getElem?_append_right (by omega), List.getElem?_eq_none (l := bytes) (by omega)]
    rfl

/-- Storing a value once more behind a span filled with it. -/
theorem write_replicate_succ {value : UInt8} (fits : count + 1 ≤ 2 ^ 32) :
    (memory.write start (List.replicate count value)).write (start + UInt32.ofNat count) [value] =
      memory.write start (List.replicate (count + 1) value) := by
  have bound : (List.replicate count value).length + [value].length ≤ 2 ^ 32 := by
    rwa [List.length_replicate, List.length_singleton]
  rw [List.replicate_succ', ← write_append bound, List.length_replicate]

/-- The four bytes of a word, low byte first. -/
def ofWord (value : UInt32) : List UInt8 :=
  [value.toUInt8, (value >>> 8).toUInt8, (value >>> 16).toUInt8, (value >>> 24).toUInt8]

/-- The word that four bytes make, low byte first. -/
def toWord (bytes : List UInt8) : UInt32 :=
  UInt32.ofNat (bytes.foldr (fun byte high => byte.toNat + 256 * high) 0)

@[simp] theorem length_ofWord (value : UInt32) : (ofWord value).length = 4 := rfl

@[simp] theorem toWord_ofWord (value : UInt32) : toWord (ofWord value) = value := by
  have wide := value.toNat_lt
  rw [← UInt32.toNat_inj]
  simp only [ofWord, toWord, List.foldr, UInt32.toNat_ofNat', UInt32.toNat_toUInt8,
    UInt32.toNat_shiftRight, UInt32.reduceToNat, Nat.shiftRight_eq_div_pow, Nat.reduceMod,
    Nat.reducePow]
  omega

theorem ofWord_toWord {bytes : List UInt8} (four : bytes.length = 4) :
    ofWord (toWord bytes) = bytes := by
  match bytes, four with
  | [first, second, third, fourth], _ =>
      have firstWide := first.toNat_lt
      have secondWide := second.toNat_lt
      have thirdWide := third.toNat_lt
      have fourthWide := fourth.toNat_lt
      simp only [ofWord, toWord, List.foldr, List.cons.injEq, ← UInt8.toNat_inj,
        UInt32.toNat_ofNat', UInt32.toNat_toUInt8, UInt32.toNat_shiftRight, UInt32.reduceToNat,
        Nat.shiftRight_eq_div_pow, Nat.reduceMod, Nat.reducePow, and_true]
      omega

/-- Load the word at an address. -/
def load32 (memory : Bytes) (start : UInt32) : UInt32 := toWord (memory.read start 4)

/-- Store a word at an address. -/
def store32 (memory : Bytes) (start : UInt32) (value : UInt32) : Bytes :=
  memory.write start (ofWord value)

/-- A word in memory is its four bytes. -/
theorem read_eq_ofWord : memory.read start 4 = ofWord (memory.load32 start) :=
  (ofWord_toWord length_read).symm

@[simp] theorem load32_store32 (value : UInt32) :
    (memory.store32 start value).load32 start = value := by
  have same : (memory.write start (ofWord value)).read start (ofWord value).length =
      ofWord value := read_write_same (by simp)
  rw [length_ofWord] at same
  rw [load32, store32, same, toWord_ofWord]

theorem load32_congr (agree : ∀ address ∈ Span start 4, memory' address = memory address) :
    memory'.load32 start = memory.load32 start := by
  rw [load32, load32, read_congr agree]

theorem store32_of_notMem {value : UInt32} (outside : address ∉ Span start 4) :
    memory.store32 start value address = memory address :=
  write_of_notMem outside

theorem store32_of_mem {value : UInt32} (inside : address ∈ Span start 4) :
    memory.store32 start value address = memory'.store32 start value address :=
  write_of_mem inside

theorem load32_store32_of_disjoint {value : UInt32}
    (apart : Disjoint (Span other 4) (Span start 4)) :
    (memory.store32 start value).load32 other = memory.load32 other :=
  load32_congr fun _ inside => store32_of_notMem (Set.disjoint_left.mp apart inside)

end Bytes

/-! ## Fields of a record -/

section Fields

variable {mem mem' : Bytes} {record value : UInt32} {field other : UInt32} {size : Nat}

theorem field_subset (inside : field.toNat + 4 ≤ size) :
    Span (record + field) 4 ⊆ Span record size :=
  Span.shift_subset inside

/-- A store to one field of a record leaves the other fields. -/
theorem load32_other_field (apart : field.toNat + 4 ≤ other.toNat ∨ other.toNat + 4 ≤ field.toNat)
    (fieldFits : field.toNat + 4 ≤ 2 ^ 32) (otherFits : other.toNat + 4 ≤ 2 ^ 32) :
    (mem.store32 (record + other) value).load32 (record + field) =
      mem.load32 (record + field) := by
  apply Bytes.load32_store32_of_disjoint
  rcases apart with below | above
  · exact Span.shift_disjoint below otherFits
  · exact (Span.shift_disjoint above fieldFits).symm

/-- Where a record is unchanged, so is each field. -/
theorem load32_field_congr (inside : field.toNat + 4 ≤ size)
    (same : ∀ address ∈ Span record size, mem' address = mem address) :
    mem'.load32 (record + field) = mem.load32 (record + field) :=
  Bytes.load32_congr fun address member => same address (field_subset inside member)

/-- The start of a record ends before its later fields. -/
theorem disjoint_field (apart : size ≤ field.toNat) (fits : field.toNat + 4 ≤ 2 ^ 32) :
    Disjoint (Span record size) (Span (record + field) 4) := by
  have zero : record + 0 = record := by grind
  have none : (0 : UInt32).toNat = 0 := rfl
  have shifted : Disjoint (Span (record + 0) size) (Span (record + field) 4) :=
    Span.shift_disjoint (by omega) fits
  rwa [zero] at shifted

end Fields

end Base
