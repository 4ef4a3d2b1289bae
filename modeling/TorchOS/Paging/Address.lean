import TorchOS.Machine
import TorchOS.Base.Word

/-!
# Directory entries, slots and the page walk

The accessors of `memory.c` for page directory and page table entries, the
addresses of the slots a virtual address selects, and the translation the
processor makes through them.
-/

namespace TorchOS.Paging

open Base

/-! ## Entries -/

/-- `get_page_table_address` -/
def getPageTableAddress (entry : UInt32) : UInt32 := entry &&& 0xFFFFF000

/-- `get_page_table_index` -/
def getPageTableIndex (virtualAddress : UInt32) : UInt32 := virtualAddress >>> 12 &&& 0x03FF

/-- The index of the directory entry that serves an address. -/
def getPageDirectoryIndex (virtualAddress : UInt32) : UInt32 := virtualAddress >>> 22

/-- `is_present` -/
def isPresent (entry : UInt32) : Bool := entry &&& 1 ≠ 0

/-- `set_present` -/
def setPresent (entry : UInt32) : UInt32 := entry ||| 1

/-- `unset_present` -/
def unsetPresent (entry : UInt32) : UInt32 := entry &&& ~~~1

/-- `set_read_write` -/
def setReadWrite (entry : UInt32) : UInt32 := entry ||| 2

/-- An address that starts a page. -/
def PageAligned (address : UInt32) : Prop := address.toNat % 4096 = 0

instance (address : UInt32) : Decidable (PageAligned address) :=
  inferInstanceAs (Decidable (_ = _))

theorem pageAligned_iff {address : UInt32} : address % pageSize = 0 ↔ PageAligned address := by
  rw [← UInt32.toNat_inj, UInt32.toNat_mod, toNat_pageSize]
  rfl

theorem getPageTableAddress_aligned (entry : UInt32) : PageAligned (getPageTableAddress entry) := by
  rw [PageAligned, getPageTableAddress, Word.toNat_and_high]
  omega

theorem getPageTableIndex_lt (virtualAddress : UInt32) :
    (getPageTableIndex virtualAddress).toNat < 1024 := by
  rw [getPageTableIndex, Word.toNat_shiftRight_12_and]
  omega

theorem getPageDirectoryIndex_lt (virtualAddress : UInt32) :
    (getPageDirectoryIndex virtualAddress).toNat < 1024 := by
  have wide := virtualAddress.toNat_lt
  rw [getPageDirectoryIndex, Word.toNat_shiftRight_22]
  omega

theorem isPresent_iff {entry : UInt32} : isPresent entry = true ↔ entry.toNat % 2 = 1 := by
  rw [isPresent, decide_eq_true_eq, ne_eq, ← UInt32.toNat_inj, Word.toNat_and_one]
  simp

/-- A frame or table address with the present and read-write bits set. -/
theorem toNat_setReadWrite_setPresent {address : UInt32} (aligned : PageAligned address) :
    (setReadWrite (setPresent address)).toNat = address.toNat + 3 := by
  have whole : address.toNat % 4 = 0 := by
    unfold PageAligned at aligned
    omega
  have tagged : setReadWrite (setPresent address) = address ||| 3 := by
    rw [setReadWrite, setPresent, UInt32.or_assoc]
    rfl
  rw [tagged, Word.toNat_or_low 2 whole (by decide)]
  rfl

theorem setReadWrite_setPresent (address : UInt32) :
    setReadWrite (setPresent address) = address ||| 3 := by
  rw [setReadWrite, setPresent, UInt32.or_assoc]
  rfl

theorem isPresent_or_three {address : UInt32} (aligned : PageAligned address) :
    isPresent (address ||| 3) = true := by
  have whole := toNat_setReadWrite_setPresent aligned
  rw [setReadWrite_setPresent] at whole
  unfold PageAligned at aligned
  rw [isPresent_iff]
  omega

theorem getPageTableAddress_or_three {address : UInt32} (aligned : PageAligned address) :
    getPageTableAddress (address ||| 3) = address := by
  have whole := toNat_setReadWrite_setPresent aligned
  rw [setReadWrite_setPresent] at whole
  unfold PageAligned at aligned
  rw [← UInt32.toNat_inj, getPageTableAddress, Word.toNat_and_high]
  omega

/-- An entry whose present bit was cleared is not present. -/
theorem isPresent_unsetPresent (entry : UInt32) : isPresent (unsetPresent entry) = false := by
  rw [isPresent, unsetPresent, UInt32.and_assoc]
  simp

/-! ## Slots -/

/-- The address of entry `index` of a table of words. -/
def slot (table index : UInt32) : UInt32 := table + 4 * index

theorem toNat_slot {table index : UInt32} (aligned : PageAligned table)
    (inside : index.toNat < 1024) : (slot table index).toNat = table.toNat + 4 * index.toNat := by
  have wide := table.toNat_lt
  unfold PageAligned at aligned
  have four : (4 : UInt32).toNat = 4 := rfl
  rw [slot, UInt32.toNat_add, UInt32.toNat_mul, four]
  omega

/-- The addresses of a page. -/
def page (start : UInt32) : Set UInt32 := Span start 4096

theorem mem_page_iff {start address : UInt32} (aligned : PageAligned start) :
    address ∈ page start ↔
      start.toNat ≤ address.toNat ∧ address.toNat < start.toNat + 4096 := by
  have wide := start.toNat_lt
  unfold PageAligned at aligned
  exact Span.mem_iff (by omega)

theorem slot_subset_page {table index : UInt32} (aligned : PageAligned table)
    (inside : index.toNat < 1024) : Span (slot table index) 4 ⊆ page table := by
  have wide := table.toNat_lt
  have position := toNat_slot aligned inside
  intro address member
  unfold PageAligned at aligned
  rw [Span.mem_iff (by omega)] at member
  rw [mem_page_iff aligned]
  omega

/-- Different pages share no address. -/
theorem page_disjoint {left right : UInt32} (leftAligned : PageAligned left)
    (rightAligned : PageAligned right) (different : left ≠ right) :
    Disjoint (page left) (page right) := by
  rw [Set.disjoint_left]
  intro address inLeft inRight
  rw [mem_page_iff leftAligned] at inLeft
  rw [mem_page_iff rightAligned] at inRight
  unfold PageAligned at leftAligned rightAligned
  exact different (UInt32.toNat_inj.mp (by omega))

/-- Different entries of one table share no address. -/
theorem slot_disjoint {table left right : UInt32} (aligned : PageAligned table)
    (leftInside : left.toNat < 1024) (rightInside : right.toNat < 1024) (different : left ≠ right) :
    Disjoint (Span (slot table left) 4) (Span (slot table right) 4) := by
  have wide := table.toNat_lt
  have leftAt := toNat_slot aligned leftInside
  have rightAt := toNat_slot aligned rightInside
  have apart : left.toNat ≠ right.toNat := fun same => different (UInt32.toNat_inj.mp same)
  unfold PageAligned at aligned
  rcases Nat.lt_or_gt_of_ne apart with lower | higher
  · exact Span.disjoint_of_le (by omega) (by omega)
  · exact (Span.disjoint_of_le (by omega) (by omega)).symm

/-- Entries of tables on different pages share no address. -/
theorem slot_disjoint_of_page {left right i j : UInt32} (leftAligned : PageAligned left)
    (rightAligned : PageAligned right) (different : left ≠ right) (leftInside : i.toNat < 1024)
    (rightInside : j.toNat < 1024) :
    Disjoint (Span (slot left i) 4) (Span (slot right j) 4) :=
  Set.disjoint_of_subset (slot_subset_page leftAligned leftInside)
    (slot_subset_page rightAligned rightInside) (page_disjoint leftAligned rightAligned different)

/-- A page-aligned address is determined by its two indices. -/
theorem eq_of_indices {left right : UInt32} (leftAligned : PageAligned left)
    (rightAligned : PageAligned right)
    (directory : getPageDirectoryIndex left = getPageDirectoryIndex right)
    (table : getPageTableIndex left = getPageTableIndex right) : left = right := by
  rw [← UInt32.toNat_inj, getPageDirectoryIndex, getPageDirectoryIndex,
    Word.toNat_shiftRight_22, Word.toNat_shiftRight_22] at directory
  rw [← UInt32.toNat_inj, getPageTableIndex, getPageTableIndex,
    Word.toNat_shiftRight_12_and, Word.toNat_shiftRight_12_and] at table
  unfold PageAligned at leftAligned rightAligned
  rw [← UInt32.toNat_inj]
  omega

/-! ## The walk -/

/-- Entry `index` of a table of words. -/
def entryAt (mem : Bytes) (table index : UInt32) : UInt32 := mem.load32 (slot table index)

/-- Storing one entry of a table leaves its other entries. -/
theorem entryAt_store32 {mem : Bytes} {table i j value : UInt32} (aligned : PageAligned table)
    (iInside : i.toNat < 1024) (jInside : j.toNat < 1024) :
    entryAt (mem.store32 (slot table i) value) table j =
      if j = i then value else entryAt mem table j := by
  split
  next same =>
    subst same
    exact Bytes.load32_store32 value
  next other =>
    exact Bytes.load32_store32_of_disjoint (slot_disjoint aligned jInside iInside other)

/-- The directory entry that serves an address. -/
def directoryEntry (mem : Bytes) (directory address : UInt32) : UInt32 :=
  entryAt mem directory (getPageDirectoryIndex address)

/-- The page table that serves an address, where the directory entry is present. -/
def servingTable (mem : Bytes) (directory address : UInt32) : UInt32 :=
  getPageTableAddress (directoryEntry mem directory address)

/-- The page table entry that serves an address. -/
def tableEntry (mem : Bytes) (directory address : UInt32) : UInt32 :=
  entryAt mem (servingTable mem directory address) (getPageTableIndex address)

/-- Where the directory entry is unchanged, the serving table is. -/
theorem tableEntry_of_directoryEntry {mem mem' : Bytes} {directory address : UInt32}
    (same : directoryEntry mem' directory address = directoryEntry mem directory address) :
    tableEntry mem' directory address =
      entryAt mem' (servingTable mem directory address) (getPageTableIndex address) := by
  rw [tableEntry, servingTable, same]
  rfl

/-- The translation the processor makes of an address: the frame of its page
table entry and the offset in the page, when both entries are present. -/
def walk (mem : Bytes) (directory address : UInt32) : Option UInt32 :=
  if isPresent (directoryEntry mem directory address) then
    if isPresent (tableEntry mem directory address) then
      some (getPageTableAddress (tableEntry mem directory address) ||| (address &&& 0xFFF))
    else none
  else none

/-- An aligned page translates to the frame of its entry. -/
theorem walk_of_present {mem : Bytes} {directory address frame : UInt32}
    (addressAligned : PageAligned address) (frameAligned : PageAligned frame)
    (present : isPresent (directoryEntry mem directory address) = true)
    (entry : tableEntry mem directory address = frame ||| 3) :
    walk mem directory address = some frame := by
  have offset : address &&& 0xFFF = 0 := by
    rw [← UInt32.toNat_inj, Word.toNat_and_low]
    exact addressAligned
  rw [walk, if_pos present, entry, if_pos (isPresent_or_three frameAligned),
    getPageTableAddress_or_three frameAligned, offset, UInt32.or_zero]

/-- Only a served page translates. -/
theorem present_of_walk {mem : Bytes} {directory address target : UInt32}
    (translates : walk mem directory address = some target) :
    isPresent (directoryEntry mem directory address) = true := by
  by_contra absent
  simp [walk, absent] at translates

theorem walk_isSome_iff {mem : Bytes} {directory address : UInt32}
    (present : isPresent (directoryEntry mem directory address) = true) :
    (walk mem directory address).isSome = true ↔
      isPresent (tableEntry mem directory address) = true := by
  rw [walk, if_pos present]
  split <;> simp_all

/-- The addresses of a page have its indices. -/
theorem indices_of_mem_page {start address : UInt32} (aligned : PageAligned start)
    (inside : address ∈ page start) :
    getPageDirectoryIndex address = getPageDirectoryIndex start ∧
      getPageTableIndex address = getPageTableIndex start := by
  rw [mem_page_iff aligned] at inside
  unfold PageAligned at aligned
  rw [Word.toNat_inj_iff, Word.toNat_inj_iff, getPageDirectoryIndex, getPageDirectoryIndex,
    getPageTableIndex, getPageTableIndex, Word.toNat_shiftRight_22, Word.toNat_shiftRight_22,
    Word.toNat_shiftRight_12_and, Word.toNat_shiftRight_12_and]
  omega

/-- An address of a page translates as the page does, at the same offset. -/
theorem walk_of_mem_page {mem : Bytes} {directory start frame address : UInt32}
    (aligned : PageAligned start) (inside : address ∈ page start)
    (translates : walk mem directory start = some frame) :
    PageAligned frame ∧ walk mem directory address = some (frame + (address - start)) := by
  obtain ⟨sameDirectory, sameTable⟩ := indices_of_mem_page aligned inside
  rw [mem_page_iff aligned] at inside
  obtain ⟨lower, upper⟩ := inside
  have startWide := start.toNat_lt
  have present := present_of_walk translates
  have entryPresent : isPresent (tableEntry mem directory start) = true := by
    by_contra absent
    simp [walk, absent] at translates
  have startOffset : start &&& 0xFFF = 0 := by
    rw [← UInt32.toNat_inj, Word.toNat_and_low]
    exact aligned
  rw [walk, if_pos present, if_pos entryPresent, startOffset, UInt32.or_zero, Option.some_inj]
    at translates
  have frameAligned := getPageTableAddress_aligned (tableEntry mem directory start)
  rw [translates] at frameAligned
  have sameEntry : directoryEntry mem directory address = directoryEntry mem directory start := by
    rw [directoryEntry, directoryEntry, sameDirectory]
  have sameTableEntry : tableEntry mem directory address = tableEntry mem directory start := by
    rw [tableEntry, tableEntry, servingTable, servingTable, sameEntry, sameTable]
  refine ⟨frameAligned, ?_⟩
  rw [walk, sameEntry, sameTableEntry, if_pos present, if_pos entryPresent, translates,
    Option.some_inj, ← UInt32.toNat_inj]
  have low : (address &&& 0xFFF).toNat < 2 ^ 12 := by
    rw [Word.toNat_and_low]
    omega
  have whole : frame.toNat % 2 ^ 12 = 0 := by
    unfold PageAligned at frameAligned
    omega
  rw [Word.toNat_or_low 12 whole low, Word.toNat_and_low, UInt32.toNat_add, UInt32.toNat_sub]
  have frameWide := frame.toNat_lt
  unfold PageAligned at aligned frameAligned
  omega

theorem walk_of_entry_absent {mem : Bytes} {directory address : UInt32}
    (absent : isPresent (tableEntry mem directory address) = false) :
    walk mem directory address = none := by
  simp [walk, absent]

/-- The walk of an address looks at its two entries only. -/
theorem walk_congr {mem mem' : Bytes} {directory address : UInt32}
    (directorySame : directoryEntry mem' directory address = directoryEntry mem directory address)
    (tableSame : tableEntry mem' directory address = tableEntry mem directory address) :
    walk mem' directory address = walk mem directory address := by
  rw [walk, walk, directorySame, tableSame]

/-- The physical address an access reaches: the walk from `cr3` once paging is
on, the address itself before. -/
def physical (s : Machine) (address : UInt32) : Option UInt32 :=
  if s.paging then walk s.mem s.cr3 address else some address

/-- A word load through a pointer. -/
def loadWord (address : UInt32) : Kernel UInt32 := fun s =>
  match physical s address with
  | some target => .ok (s.mem.load32 target) s
  | none => .error (.pageFault address) s

/-- A word store through a pointer. -/
def storeWord (address value : UInt32) : Kernel Unit := fun s =>
  match physical s address with
  | some target => .ok () { s with mem := s.mem.store32 target value }
  | none => .error (.pageFault address) s

/-- A byte store through a pointer. -/
def storeByte (address : UInt32) (value : UInt8) : Kernel Unit := fun s =>
  match physical s address with
  | some target => .ok () { s with mem := s.mem.write target [value] }
  | none => .error (.pageFault address) s

theorem loadWord_of_physical {s : Machine} {address target : UInt32}
    (reaches : physical s address = some target) :
    loadWord address s = .ok (s.mem.load32 target) s := by
  simp only [loadWord, reaches]

theorem storeWord_of_physical {s : Machine} {address target value : UInt32}
    (reaches : physical s address = some target) :
    storeWord address value s = .ok () { s with mem := s.mem.store32 target value } := by
  simp only [storeWord, reaches]

theorem storeByte_of_physical {s : Machine} {address target : UInt32} {value : UInt8}
    (reaches : physical s address = some target) :
    storeByte address value s = .ok () { s with mem := s.mem.write target [value] } := by
  simp only [storeByte, reaches]

theorem physical_of_unpaged {s : Machine} (unpaged : s.paging = false) (address : UInt32) :
    physical s address = some address := by
  simp [physical, unpaged]

end TorchOS.Paging
