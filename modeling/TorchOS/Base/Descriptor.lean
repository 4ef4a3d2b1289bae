import TorchOS.Base.Bytes
import Mathlib.Tactic.NormNum

/-!
# Descriptor tables

An x86 processor looks up segments and interrupt gates in tables of eight bytes each.
This is how it puts the fields of a descriptor together from its bytes, what it checks in
ring 0 before it loads one, and which offsets a segment covers. Tables are filled by
stores of one or two bytes in any order, which `read_write_inside` reads back.
-/

namespace Base

/-! ## Fields of a few bytes -/

namespace Bytes

variable {memory : Bytes} {start : UInt32} {bytes : List UInt8} {count : Nat}

/-- The two bytes of a half-word, low byte first. -/
def ofHalf (value : UInt16) : List UInt8 := [value.toUInt8, (value >>> 8).toUInt8]

/-- Store a half-word at an address. -/
def store16 (memory : Bytes) (start : UInt32) (value : UInt16) : Bytes :=
  memory.write start (ofHalf value)

/-- Load the half-word at an address. -/
def load16 (memory : Bytes) (start : UInt32) : UInt16 := (toWord (memory.read start 2)).toUInt16

/-- Store a byte at an address. -/
def store8 (memory : Bytes) (start : UInt32) (value : UInt8) : Bytes := memory.write start [value]

@[simp] theorem length_ofHalf (value : UInt16) : (ofHalf value).length = 2 := rfl

theorem toNat_toWord_ofHalf (value : UInt16) : (toWord (ofHalf value)).toNat = value.toNat := by
  have wide := value.toNat_lt
  simp only [ofHalf, toWord, List.foldr, UInt32.toNat_ofNat', UInt16.toNat_toUInt8,
    UInt16.toNat_shiftRight, UInt16.reduceToNat, Nat.shiftRight_eq_div_pow, Nat.reduceMod,
    Nat.reducePow]
  omega

@[simp] theorem toWord_ofHalf (value : UInt16) : (toWord (ofHalf value)).toUInt16 = value := by
  rw [← UInt16.toNat_inj, UInt32.toNat_toUInt16, toNat_toWord_ofHalf]
  exact Nat.mod_eq_of_lt value.toNat_lt

theorem write_replicate_of_notMem {value : UInt8} {address : UInt32}
    (outside : address ∉ Span start count) :
    memory.write start (List.replicate count value) address = memory address := by
  rw [write_replicate, if_neg outside]

/-- Storing the byte that is there. -/
theorem store8_self {address : UInt32} : memory.store8 address (memory address) = memory := by
  funext other
  rw [store8, write_singleton]
  split
  · next same => rw [same]
  · rfl

@[simp] theorem store8_same {address : UInt32} {value : UInt8} :
    memory.store8 address value address = value := by
  rw [store8, write_singleton, if_pos rfl]

/-- What a span holds after a store inside it. -/
theorem read_write_inside (offset : Nat) (inside : offset + bytes.length ≤ count)
    (fits : count ≤ 2 ^ 32) :
    (memory.write (start + UInt32.ofNat offset) bytes).read start count =
      (memory.read start count).take offset ++ bytes ++
        (memory.read start count).drop (offset + bytes.length) := by
  obtain ⟨rest, rfl⟩ := Nat.exists_eq_add_of_le inside
  have outside : ∀ index < offset + bytes.length + rest,
      index < offset ∨ offset + bytes.length ≤ index →
        memory.write (start + UInt32.ofNat offset) bytes (start + UInt32.ofNat index) =
          memory (start + UInt32.ofNat index) := by
    intro index reached apart
    apply write_of_notMem
    have distance : start + UInt32.ofNat index - (start + UInt32.ofNat offset) =
        UInt32.ofNat index - UInt32.ofNat offset := by grind
    rw [Span.mem_def, distance, UInt32.toNat_sub, UInt32.toNat_ofNat', UInt32.toNat_ofNat']
    omega
  have cut : offset ≤ offset + bytes.length + rest := by omega
  apply List.ext_getElem
  · simp
    omega
  · intro index left right
    rw [length_read] at left
    rw [getElem_read]
    rcases Nat.lt_or_ge index offset with early | reached
    · rw [outside index left (.inl early)]
      simp [getElem_read, early, left]
    · obtain ⟨step, rfl⟩ := Nat.exists_eq_add_of_le reached
      rcases Nat.lt_or_ge step bytes.length with within | late
      · have place : start + UInt32.ofNat (offset + step) =
            start + UInt32.ofNat offset + UInt32.ofNat step := by
          rw [UInt32.ofNat_add]
          grind
        rw [place, write_at within (by omega)]
        simp [cut, within]
      · rw [outside _ left (.inr (by omega))]
        simp [getElem_read, cut, late]

theorem read_store16 (offset : UInt32) {value : UInt16} (inside : offset.toNat + 2 ≤ count)
    (fits : count ≤ 2 ^ 32) :
    (memory.store16 (start + offset) value).read start count =
      (memory.read start count).take offset.toNat ++ ofHalf value ++
        (memory.read start count).drop (offset.toNat + 2) := by
  have place : start + offset = start + UInt32.ofNat offset.toNat := by rw [UInt32.ofNat_toNat]
  rw [store16, place]
  exact read_write_inside offset.toNat inside fits

theorem read_store8 (offset : UInt32) {value : UInt8} (inside : offset.toNat + 1 ≤ count)
    (fits : count ≤ 2 ^ 32) :
    (memory.store8 (start + offset) value).read start count =
      (memory.read start count).take offset.toNat ++ [value] ++
        (memory.read start count).drop (offset.toNat + 1) := by
  have place : start + offset = start + UInt32.ofNat offset.toNat := by rw [UInt32.ofNat_toNat]
  rw [store8, place]
  exact read_write_inside offset.toNat inside fits

theorem store16_of_notMem (offset : UInt32) {value : UInt16} {address : UInt32}
    (inside : offset.toNat + 2 ≤ count) (outside : address ∉ Span start count) :
    memory.store16 (start + offset) value address = memory address :=
  write_of_notMem fun member => outside (Span.shift_subset inside member)

theorem store8_of_notMem (offset : UInt32) {value : UInt8} {address : UInt32}
    (inside : offset.toNat + 1 ≤ count) (outside : address ∉ Span start count) :
    memory.store8 (start + offset) value address = memory address :=
  write_of_notMem fun member => outside (Span.shift_subset inside member)

/-- Stores that leave some bytes in a span, and nothing changed elsewhere, are one store. -/
theorem eq_write {memory' : Bytes} (stored : memory'.read start bytes.length = bytes)
    (outside : ∀ address, address ∉ Span start bytes.length → memory' address = memory address) :
    memory' = memory.write start bytes := by
  ext address
  by_cases inside : address ∈ Span start bytes.length
  · obtain ⟨index, within, wide, rfl⟩ := Span.exists_index inside
    have reach : index < (memory'.read start bytes.length).length := by simpa using within
    have held := getElem_read reach
    simp only [stored] at held
    rw [write_at within wide, held]
  · rw [write_of_notMem inside, outside address inside]

/-- Part of what was stored. -/
theorem read_write_part (position : Nat) (inside : position + count ≤ bytes.length)
    (fits : bytes.length ≤ 2 ^ 32) :
    (memory.write start bytes).read (start + UInt32.ofNat position) count =
      (bytes.drop position).take count := by
  rw [read_part inside, read_write_same fits]

end Bytes

/-! ## Descriptors -/

/-- A segment descriptor: `limit` has twenty bits and `flags` the four above it. -/
structure Descriptor where
  base : UInt32
  limit : UInt32
  access : UInt8
  flags : UInt8
  deriving DecidableEq

/-- A gate of the interrupt table. -/
structure Gate where
  offset : UInt32
  selector : UInt16
  access : UInt8
  deriving DecidableEq

/-- What an access does with memory. -/
inductive Mode where
  | read
  | write
  deriving DecidableEq

namespace Descriptor

/-- The descriptor that eight bytes make. -/
def ofBytes : List UInt8 → Descriptor
  | [limit0, limit1, base0, base1, base2, access, mixed, base3] =>
      { base := Bytes.toWord [base0, base1, base2, base3]
        limit := Bytes.toWord [limit0, limit1, mixed &&& 0x0F]
        access := access
        flags := mixed &&& 0xF0 }
  | _ => ⟨0, 0, 0, 0⟩

variable (d : Descriptor)

/-- The descriptor is in use. -/
def present : Bool := d.access &&& 0x80 ≠ 0

/-- It describes a segment, not a gate or a task. -/
def isSegment : Bool := d.access &&& 0x10 ≠ 0

def executable : Bool := d.access &&& 0x08 ≠ 0

/-- Code that is conforming, or data that expands downwards. -/
def special : Bool := d.access &&& 0x04 ≠ 0

/-- Code that can be read, or data that can be written. -/
def extended : Bool := d.access &&& 0x02 ≠ 0

/-- The ring of the segment. -/
def privilege : UInt8 := (d.access >>> 5) &&& 3

/-- Code and stacks of 32 bits. -/
def isWide : Bool := d.flags &&& 0x40 ≠ 0

/-- The limit counts pages. -/
def inPages : Bool := d.flags &&& 0x80 ≠ 0

/-- The limit in bytes. -/
def lastOffset : UInt32 := if d.inPages then (d.limit <<< 12) ||| 0xFFF else d.limit

/-- The descriptor once the processor has used it. -/
def accessed : Descriptor := { d with access := d.access ||| 1 }

/-- Whether the segment can be read or written. -/
def allows : Mode → Bool
  | .read => d.isSegment && (!d.executable || d.extended)
  | .write => d.isSegment && !d.executable && d.extended

/-- Whether some bytes from an offset on lie in the segment. -/
def covers (offset : UInt32) (size : Nat) : Bool :=
  if !d.executable && d.special then
    d.lastOffset < offset && offset.toNat + size ≤ (if d.isWide then 2 ^ 32 else 2 ^ 16)
  else offset.toNat + size ≤ d.lastOffset.toNat + 1

end Descriptor

/-- The gate that eight bytes make. -/
def Gate.ofBytes : List UInt8 → Gate
  | [offset0, offset1, selector0, selector1, _, access, offset2, offset3] =>
      { offset := Bytes.toWord [offset0, offset1, offset2, offset3]
        selector := (Bytes.toWord [selector0, selector1]).toUInt16
        access := access }
  | _ => ⟨0, 0, 0⟩

/-- The gate is in use. -/
def Gate.present (gate : Gate) : Bool := gate.access &&& 0x80 ≠ 0

/-- It is an interrupt gate of 32 bits, which keeps further interrupts out. -/
def Gate.isInterrupt (gate : Gate) : Bool := gate.access &&& 0x1F = 0x0E

/-- It is one of the other gates that can lead to a handler: of a task, of 16 bits or a
trap gate. -/
def Gate.isOther (gate : Gate) : Bool := gate.access &&& 0x1F ∈ [0x05, 0x06, 0x07, 0x0F]

/-! ## Tables -/

/-- Where a table starts and where its last byte is. -/
structure TableRegister where
  limit : UInt16
  base : UInt32
  deriving DecidableEq

namespace TableRegister

variable (table : TableRegister) (index : Nat)

/-- The pseudo-descriptor that `lgdt` and `lidt` read. -/
def load (mem : Bytes) (pointer : UInt32) : TableRegister where
  limit := mem.load16 pointer
  base := mem.load32 (pointer + 2)

/-- Whether an entry lies in the table. -/
def holds : Bool := 8 * index + 7 ≤ table.limit.toNat

/-- Where an entry lies. -/
def entry : UInt32 := table.base + UInt32.ofNat (8 * index)

/-- The bytes of an entry. -/
def bytes (mem : Bytes) : List UInt8 := mem.read (table.entry index) 8

/-- The bytes of a pseudo-descriptor. -/
def pseudoBytes (table : TableRegister) : List UInt8 :=
  Bytes.ofHalf table.limit ++ Bytes.ofWord table.base

theorem load_eq {table : TableRegister} {mem : Bytes} {pointer : UInt32}
    (stored : mem.read pointer 6 = table.pseudoBytes) : load mem pointer = table := by
  have split : mem.read pointer 2 ++ mem.read (pointer + 2) 4 = table.pseudoBytes :=
    (Bytes.read_add 2 4).symm.trans stored
  obtain ⟨limit, base⟩ := List.append_inj split (by simp)
  have word : mem.load32 (pointer + 2) = table.base := by
    rw [Bytes.load32, base, Bytes.toWord_ofWord]
  rw [load, Bytes.load16, limit, Bytes.toWord_ofHalf, word]

end TableRegister

/-! ## Loading a segment register in ring 0 -/

/-- What stops an instruction. -/
inductive Fault where
  | generalProtection (code : UInt16)
  | notPresent (code : UInt16)
  | stackFault (code : UInt16)
  /-- Another ring, a local table, a task or a gate in place of a segment, where this model
  ends. -/
  | beyond
  deriving DecidableEq

/-- A fault on the way to a handler says whether an external event caused it. -/
def Fault.during (external : UInt16) : Fault → Fault
  | .generalProtection code => .generalProtection (code ||| external)
  | .notPresent code => .notPresent (code ||| external)
  | .stackFault code => .stackFault (code ||| external)
  | .beyond => .beyond

/-- The entry that a selector names. -/
def selectorIndex (selector : UInt16) : Nat := selector.toNat / 8

/-- The ring that a selector asks for. -/
def selectorRing (selector : UInt16) : UInt8 := (selector &&& 3).toUInt8

/-- A selector as an error code. -/
def selectorError (selector : UInt16) : UInt16 := selector &&& 0xFFFC

/-- The selector names no segment. -/
def nullSelector (selector : UInt16) : Bool := selector &&& 0xFFFC = 0

namespace Descriptor

variable (selector : UInt16) (d : Descriptor)

/-- A segment for `ds`, `es`, `fs` and `gs`. -/
def checkData : Except Fault Unit :=
  if !d.allows .read || (!(d.executable && d.special) && d.privilege < selectorRing selector) then
    .error (.generalProtection (selectorError selector))
  else if !d.present then .error (.notPresent (selectorError selector))
  else .ok ()

/-- A segment for `ss`. -/
def checkStack : Except Fault Unit :=
  if !d.allows .write || selectorRing selector ≠ 0 || d.privilege ≠ 0 then
    .error (.generalProtection (selectorError selector))
  else if !d.present then .error (.stackFault (selectorError selector))
  else .ok ()

/-- A segment that a far jump goes to. -/
def checkCode : Except Fault Unit :=
  if !d.isSegment then .error .beyond
  else if !d.executable || d.privilege ≠ 0 || (!d.special && selectorRing selector ≠ 0) then
    .error (.generalProtection (selectorError selector))
  else if !d.present then .error (.notPresent (selectorError selector))
  else .ok ()

end Descriptor

/-! ## Flat segments -/

/-- A segment of ring 0 that covers all of memory from address 0 on. -/
structure Descriptor.Flat (d : Descriptor) : Prop where
  base : d.base = 0
  limit : d.lastOffset = 0xFFFFFFFF
  isSegment : d.isSegment
  special : d.special = false
  extended : d.extended
  privilege : d.privilege = 0
  present : d.present
  isWide : d.isWide

namespace Descriptor.Flat

variable {d : Descriptor} {selector : UInt16} {mode : Mode} {offset : UInt32} {size : Nat}

instance : Decidable d.Flat :=
  decidable_of_iff (d.base = 0 ∧ d.lastOffset = 0xFFFFFFFF ∧ d.isSegment ∧ d.special = false ∧
      d.extended ∧ d.privilege = 0 ∧ d.present ∧ d.isWide)
    ⟨fun ⟨h₁, h₂, h₃, h₄, h₅, h₆, h₇, h₈⟩ => ⟨h₁, h₂, h₃, h₄, h₅, h₆, h₇, h₈⟩,
      fun ⟨h₁, h₂, h₃, h₄, h₅, h₆, h₇, h₈⟩ => ⟨h₁, h₂, h₃, h₄, h₅, h₆, h₇, h₈⟩⟩

/-- Every access that does not go past the end of memory lies in the segment. -/
theorem covers_iff (flat : d.Flat) :
    d.covers offset size ↔ offset.toNat + size ≤ 2 ^ 32 := by
  simp [covers, flat.special, flat.limit]

theorem reads (flat : d.Flat) : d.allows .read := by
  simp [allows, flat.isSegment, flat.extended]

theorem allows (flat : d.Flat) (data : d.executable = false) : d.allows mode := by
  cases mode <;> simp [Descriptor.allows, flat.isSegment, flat.extended, data]

theorem checkData (flat : d.Flat) (ring : selectorRing selector = 0) :
    d.checkData selector = .ok () := by
  simp [Descriptor.checkData, flat.reads, flat.privilege, flat.present, ring]

theorem checkStack (flat : d.Flat) (data : d.executable = false)
    (ring : selectorRing selector = 0) : d.checkStack selector = .ok () := by
  simp [Descriptor.checkStack, flat.allows data, flat.privilege, flat.present, ring]

theorem checkCode (flat : d.Flat) (code : d.executable) (ring : selectorRing selector = 0) :
    d.checkCode selector = .ok () := by
  simp [Descriptor.checkCode, flat.isSegment, code, flat.privilege, flat.present, ring]

end Descriptor.Flat

end Base
