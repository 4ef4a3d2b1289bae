import TorchOS.Paging.Address

/-!
# Mapping and unmapping one page

`page_table_allocate`, `map_page` and `unmap_page`, and what each does to memory
and to the page table bitmap. The results hold wherever the slots involved are
addressed directly: always while paging is off, and once it is on for the slots
that translate to themselves.
-/

namespace TorchOS.Paging

open Base Base.Program

/-- `page_table_allocate` -/
def pageTableAllocate : Kernel UInt32 := fun s =>
  match s.pageTableBitmap.firstFit with
  | none =>
      .error (.panic "Trying to allocate page tables but no page tables left to allocate!") s
  | some (index, bitmap) =>
      .ok (pageTableAreaStart + pageSize * UInt32.ofNat index) { s with pageTableBitmap := bitmap }

/-- The directory entry `map_page` works through: the one that is there, or else
one for a new page table, put into the correct spot and read back. -/
def presentEntry (kernelPageDirectory pageDirectoryIndex : UInt32) : Kernel UInt32 := do
  let pde ← loadWord (slot kernelPageDirectory pageDirectoryIndex)
  if isPresent pde then
    pure pde
  else
    let newPageTable ← pageTableAllocate
    storeWord (slot kernelPageDirectory pageDirectoryIndex) (newPageTable ||| 3)
    loadWord (slot kernelPageDirectory pageDirectoryIndex)

/-- `map_page` -/
def mapPage (kernelPageDirectory virtualAddress physicalAddress : UInt32) : Kernel Unit := do
  panicIf (virtualAddress % pageSize ≠ 0)
    "Trying to map a virtual address that is not page aligned!"
  panicIf (physicalAddress % pageSize ≠ 0)
    "Trying to map a physical address that is not page aligned!"
  let pde ← presentEntry kernelPageDirectory (getPageDirectoryIndex virtualAddress)
  storeWord (slot (getPageTableAddress pde) (getPageTableIndex virtualAddress))
    (setReadWrite (setPresent physicalAddress))

/-- `unmap_page` -/
def unmapPage (kernelPageDirectory virtualAddress : UInt32) : Kernel Unit := do
  panicIf (virtualAddress % pageSize ≠ 0)
    "Trying to unmap a virtual address that is not page aligned!"
  let pde ← loadWord (slot kernelPageDirectory (getPageDirectoryIndex virtualAddress))
  panicIf (!isPresent pde)
    "Trying to unmap a virtual address that does not have a page directory entry!"
  let entry := slot (getPageTableAddress pde) (getPageTableIndex virtualAddress)
  let physicalAddress ← loadWord entry
  panicIf (!isPresent physicalAddress)
    "Trying to unmap a virtual address that has not been mapped yet!"
  storeWord entry (unsetPresent physicalAddress)

/-- The page that bit `index` of the page table bitmap stands for. -/
def tablePage (index : Nat) : UInt32 := pageTableAreaStart + pageSize * UInt32.ofNat index

theorem toNat_tablePage {index : Nat} (inside : index < 1024) :
    (tablePage index).toNat = 0x00500000 + 4096 * index := by
  rw [tablePage, UInt32.toNat_add, UInt32.toNat_mul, UInt32.toNat_ofNat', toNat_pageSize,
    toNat_pageTableAreaStart]
  omega

theorem tablePage_aligned {index : Nat} (inside : index < 1024) :
    PageAligned (tablePage index) := by
  rw [PageAligned, toNat_tablePage inside]
  omega

theorem tablePage_inj {left right : Nat} (leftInside : left < 1024) (rightInside : right < 1024)
    (same : tablePage left = tablePage right) : left = right := by
  rw [← UInt32.toNat_inj, toNat_tablePage leftInside, toNat_tablePage rightInside] at same
  omega

/-- The bit of the page table bitmap that stands for a page. -/
def tableIndex (table : UInt32) : Nat := (table.toNat - 0x00500000) / 4096

/-- A page of the page table area. -/
def InTableArea (table : UInt32) : Prop :=
  pageTableAreaStart ≤ table ∧ table < pageTableAreaEnd

theorem inTableArea_iff {table : UInt32} :
    InTableArea table ↔ 0x00500000 ≤ table.toNat ∧ table.toNat < 0x00900000 := by
  rw [InTableArea, UInt32.le_iff_toNat_le, UInt32.lt_iff_toNat_lt]
  simp

theorem tablePage_inArea {index : Nat} (inside : index < 1024) : InTableArea (tablePage index) := by
  rw [inTableArea_iff, toNat_tablePage inside]
  omega

theorem tableIndex_tablePage {index : Nat} (inside : index < 1024) :
    tableIndex (tablePage index) = index := by
  rw [tableIndex, toNat_tablePage inside]
  omega

/-- The memory after a page table is put into the directory entry of an address. -/
def withTable (mem : Bytes) (directory address table : UInt32) : Bytes :=
  mem.store32 (slot directory (getPageDirectoryIndex address)) (table ||| 3)

/-- The memory after an entry is stored for an address in a page table. -/
def withEntry (mem : Bytes) (table address entry : UInt32) : Bytes :=
  mem.store32 (slot table (getPageTableIndex address)) entry

/-- A slot that an access reaches at its own address. -/
def Direct (s : Machine) (address : UInt32) : Prop := physical s address = some address

theorem direct_of_unpaged {s : Machine} (unpaged : s.paging = false) (address : UInt32) :
    Direct s address := physical_of_unpaged unpaged address

theorem panicIf_ok_iff {failed : Bool} {message : String} {s after : Machine} :
    panicIf failed message s = .ok () after ↔ failed = false ∧ s = after :=
  haltIf_ok_iff

theorem aligned_of_check {address : UInt32} (passed : decide (address % pageSize ≠ 0) = false) :
    PageAligned address := by
  rw [decide_eq_false_iff_not, not_not] at passed
  exact pageAligned_iff.mp passed

theorem check_of_aligned {address : UInt32} (aligned : PageAligned address) :
    decide (address % pageSize ≠ 0) = false := by
  rw [decide_eq_false_iff_not, not_not]
  exact pageAligned_iff.mpr aligned

theorem present_of_check {entry : UInt32} (passed : (!isPresent entry) = false) :
    isPresent entry = true := by
  simpa using passed

section MapPage

variable {s after : Machine} {directory virtualAddress physicalAddress : UInt32}

/-- Where the directory entry is present, `map_page` stores the new entry in its table. -/
theorem mapPage_of_present (virtualAligned : PageAligned virtualAddress)
    (physicalAligned : PageAligned physicalAddress)
    (present : isPresent (directoryEntry s.mem directory virtualAddress) = true)
    (directoryDirect : Direct s (slot directory (getPageDirectoryIndex virtualAddress)))
    (tableDirect : Direct s (slot (servingTable s.mem directory virtualAddress)
      (getPageTableIndex virtualAddress))) :
    mapPage directory virtualAddress physicalAddress s = .ok () { s with
      mem := withEntry s.mem (servingTable s.mem directory virtualAddress) virtualAddress
        (physicalAddress ||| 3) } := by
  have found : presentEntry directory (getPageDirectoryIndex virtualAddress) s =
      .ok (directoryEntry s.mem directory virtualAddress) s := by
    refine (bind_of_ok (loadWord_of_physical directoryDirect)).trans ?_
    unfold directoryEntry entryAt at present
    rw [if_pos present]
    rfl
  refine (bind_of_ok (panicIf_run (check_of_aligned virtualAligned))).trans ?_
  refine (bind_of_ok (panicIf_run (check_of_aligned physicalAligned))).trans ?_
  refine (bind_of_ok found).trans ?_
  rw [setReadWrite_setPresent]
  exact storeWord_of_physical tableDirect

theorem pageTableAllocate_of_firstFit {index : Nat} {bitmap : Bitmap pageTableBitmapSize}
    (taken : s.pageTableBitmap.firstFit = some (index, bitmap)) :
    pageTableAllocate s = .ok (tablePage index) { s with pageTableBitmap := bitmap } := by
  simp only [pageTableAllocate, taken]
  rfl

theorem firstFit_index_lt {index : Nat} {bitmap : Bitmap pageTableBitmapSize}
    (taken : s.pageTableBitmap.firstFit = some (index, bitmap)) : index < 1024 := by
  have inside := (Bitmap.firstFit_some taken).1
  rwa [pageTableBitmapSize_eq] at inside

/-- The state after a page table is taken and put into the directory. -/
def tableAdded (s : Machine) (directory virtualAddress : UInt32) (index : Nat)
    (bitmap : Bitmap pageTableBitmapSize) : Machine :=
  { s with
    pageTableBitmap := bitmap
    mem := withTable s.mem directory virtualAddress (tablePage index) }

section NewTable

variable {index : Nat} {bitmap : Bitmap pageTableBitmapSize}

/-- Where the directory entry is absent, the page table of the lowest clear bit is put
into it. -/
theorem presentEntry_of_absent
    (absent : isPresent (directoryEntry s.mem directory virtualAddress) = false)
    (taken : s.pageTableBitmap.firstFit = some (index, bitmap))
    (directoryDirect : Direct s (slot directory (getPageDirectoryIndex virtualAddress)))
    (againDirect : Direct (tableAdded s directory virtualAddress index bitmap)
      (slot directory (getPageDirectoryIndex virtualAddress))) :
    presentEntry directory (getPageDirectoryIndex virtualAddress) s =
      .ok (tablePage index ||| 3) (tableAdded s directory virtualAddress index bitmap) := by
  refine (bind_of_ok (loadWord_of_physical directoryDirect)).trans ?_
  unfold directoryEntry entryAt at absent
  rw [if_neg (by simp [absent])]
  refine (bind_of_ok (pageTableAllocate_of_firstFit taken)).trans ?_
  refine (bind_of_ok (storeWord_of_physical
    (s := { s with pageTableBitmap := bitmap }) directoryDirect)).trans ?_
  refine (loadWord_of_physical againDirect).trans ?_
  simp [tableAdded, withTable]

/-- The new entry is then stored where the slot of the new table translates to. -/
theorem mapPage_newTable (virtualAligned : PageAligned virtualAddress)
    (physicalAligned : PageAligned physicalAddress)
    (absent : isPresent (directoryEntry s.mem directory virtualAddress) = false)
    (taken : s.pageTableBitmap.firstFit = some (index, bitmap))
    (directoryDirect : Direct s (slot directory (getPageDirectoryIndex virtualAddress)))
    (againDirect : Direct (tableAdded s directory virtualAddress index bitmap)
      (slot directory (getPageDirectoryIndex virtualAddress))) :
    mapPage directory virtualAddress physicalAddress s =
      storeWord (slot (tablePage index) (getPageTableIndex virtualAddress))
        (physicalAddress ||| 3) (tableAdded s directory virtualAddress index bitmap) := by
  refine (bind_of_ok (panicIf_run (check_of_aligned virtualAligned))).trans ?_
  refine (bind_of_ok (panicIf_run (check_of_aligned physicalAligned))).trans ?_
  refine (bind_of_ok (presentEntry_of_absent absent taken directoryDirect againDirect)).trans ?_
  rw [setReadWrite_setPresent,
    getPageTableAddress_or_three (tablePage_aligned (firstFit_index_lt taken))]

/-- Where the directory entry is absent, `map_page` takes the page table of the
lowest clear bit, puts it into the directory, and stores the new entry in it. -/
theorem mapPage_of_absent (virtualAligned : PageAligned virtualAddress)
    (physicalAligned : PageAligned physicalAddress)
    (absent : isPresent (directoryEntry s.mem directory virtualAddress) = false)
    (taken : s.pageTableBitmap.firstFit = some (index, bitmap))
    (directoryDirect : Direct s (slot directory (getPageDirectoryIndex virtualAddress)))
    (againDirect : Direct (tableAdded s directory virtualAddress index bitmap)
      (slot directory (getPageDirectoryIndex virtualAddress)))
    (tableDirect : Direct (tableAdded s directory virtualAddress index bitmap)
      (slot (tablePage index) (getPageTableIndex virtualAddress))) :
    mapPage directory virtualAddress physicalAddress s = .ok () { s with
      pageTableBitmap := bitmap
      mem := withEntry (withTable s.mem directory virtualAddress (tablePage index))
        (tablePage index) virtualAddress (physicalAddress ||| 3) } :=
  (mapPage_newTable virtualAligned physicalAligned absent taken directoryDirect againDirect).trans
    (storeWord_of_physical tableDirect)

/-- With no page table left, `map_page` panics before it stores anything. -/
theorem mapPage_full (virtualAligned : PageAligned virtualAddress)
    (physicalAligned : PageAligned physicalAddress)
    (absent : isPresent (directoryEntry s.mem directory virtualAddress) = false)
    (full : s.pageTableBitmap.firstFit = none)
    (directoryDirect : Direct s (slot directory (getPageDirectoryIndex virtualAddress))) :
    mapPage directory virtualAddress physicalAddress s = .error
      (.panic "Trying to allocate page tables but no page tables left to allocate!") s := by
  have stops : presentEntry directory (getPageDirectoryIndex virtualAddress) s = .error
      (.panic "Trying to allocate page tables but no page tables left to allocate!") s := by
    refine (bind_of_ok (loadWord_of_physical directoryDirect)).trans ?_
    unfold directoryEntry entryAt at absent
    rw [if_neg (by simp [absent])]
    refine bind_of_error ?_
    simp only [pageTableAllocate, full]
  refine (bind_of_ok (panicIf_run (check_of_aligned virtualAligned))).trans ?_
  refine (bind_of_ok (panicIf_run (check_of_aligned physicalAligned))).trans ?_
  exact bind_of_error stops

end NewTable

/-- A mapping that returns was asked for two aligned addresses, and found a
present directory entry or a clear bit. -/
theorem mapPage_requires (returned : mapPage directory virtualAddress physicalAddress s =
      .ok () after) (directoryDirect :
      Direct s (slot directory (getPageDirectoryIndex virtualAddress))) :
    PageAligned virtualAddress ∧ PageAligned physicalAddress ∧
      (isPresent (directoryEntry s.mem directory virtualAddress) = true ∨
        isPresent (directoryEntry s.mem directory virtualAddress) = false ∧
          ∃ index bitmap, s.pageTableBitmap.firstFit = some (index, bitmap)) := by
  rw [mapPage, bind_ok_iff] at returned
  obtain ⟨_, _, first, rest⟩ := returned
  obtain ⟨virtualCheck, rfl⟩ := panicIf_ok_iff.mp first
  rw [bind_ok_iff] at rest
  obtain ⟨_, _, second, rest⟩ := rest
  obtain ⟨physicalCheck, rfl⟩ := panicIf_ok_iff.mp second
  refine ⟨aligned_of_check virtualCheck, aligned_of_check physicalCheck, ?_⟩
  rw [bind_ok_iff] at rest
  obtain ⟨_, _, found, _⟩ := rest
  rw [presentEntry, bind_of_ok (loadWord_of_physical directoryDirect)] at found
  cases present : isPresent (directoryEntry s.mem directory virtualAddress) with
  | true => exact .inl rfl
  | false =>
      refine .inr ⟨rfl, ?_⟩
      unfold directoryEntry entryAt at present
      rw [if_neg (by simp [present])] at found
      obtain ⟨_, _, allocated, _⟩ := bind_ok_iff.mp found
      cases taken : s.pageTableBitmap.firstFit with
      | some result => exact ⟨result.1, result.2, rfl⟩
      | none => simp [pageTableAllocate, taken] at allocated

/-- An unmapping that returns found a present directory entry. -/
theorem unmapPage_present (returned : unmapPage directory virtualAddress s = .ok () after)
    (directoryDirect : Direct s (slot directory (getPageDirectoryIndex virtualAddress))) :
    isPresent (directoryEntry s.mem directory virtualAddress) = true := by
  rw [unmapPage, bind_ok_iff] at returned
  obtain ⟨_, _, first, rest⟩ := returned
  obtain ⟨_, rfl⟩ := panicIf_ok_iff.mp first
  rw [bind_of_ok (loadWord_of_physical directoryDirect), bind_ok_iff] at rest
  obtain ⟨_, _, second, _⟩ := rest
  exact present_of_check (panicIf_ok_iff.mp second).1

/-- A mapped page is unmapped. -/
theorem unmapPage_of_present (virtualAligned : PageAligned virtualAddress)
    (served : isPresent (directoryEntry s.mem directory virtualAddress) = true)
    (mapped : isPresent (tableEntry s.mem directory virtualAddress) = true)
    (directoryDirect : Direct s (slot directory (getPageDirectoryIndex virtualAddress)))
    (tableDirect : Direct s (slot (servingTable s.mem directory virtualAddress)
      (getPageTableIndex virtualAddress))) :
    unmapPage directory virtualAddress s = .ok () { s with
      mem := withEntry s.mem (servingTable s.mem directory virtualAddress) virtualAddress
        (unsetPresent (tableEntry s.mem directory virtualAddress)) } := by
  have servedCheck : (!isPresent (directoryEntry s.mem directory virtualAddress)) = false := by
    rw [served]
    rfl
  have mappedCheck : (!isPresent (tableEntry s.mem directory virtualAddress)) = false := by
    rw [mapped]
    rfl
  refine (bind_of_ok (panicIf_run (check_of_aligned virtualAligned))).trans ?_
  refine (bind_of_ok (loadWord_of_physical directoryDirect)).trans ?_
  refine (bind_of_ok (panicIf_run servedCheck)).trans ?_
  refine (bind_of_ok (loadWord_of_physical tableDirect)).trans ?_
  exact (bind_of_ok (panicIf_run mappedCheck)).trans (storeWord_of_physical tableDirect)

/-- What `unmap_page` requires, and the entry it stores back. -/
theorem unmapPage_ok (returned : unmapPage directory virtualAddress s = .ok () after)
    (directoryDirect : Direct s (slot directory (getPageDirectoryIndex virtualAddress)))
    (tableDirect : Direct s (slot (servingTable s.mem directory virtualAddress)
      (getPageTableIndex virtualAddress))) :
    PageAligned virtualAddress ∧
      isPresent (directoryEntry s.mem directory virtualAddress) = true ∧
      isPresent (tableEntry s.mem directory virtualAddress) = true ∧
      after = { s with
        mem := withEntry s.mem (servingTable s.mem directory virtualAddress) virtualAddress
          (unsetPresent (tableEntry s.mem directory virtualAddress)) } := by
  rw [unmapPage, bind_ok_iff] at returned
  obtain ⟨_, _, first, rest⟩ := returned
  obtain ⟨virtualCheck, rfl⟩ := panicIf_ok_iff.mp first
  rw [bind_of_ok (loadWord_of_physical directoryDirect), bind_ok_iff] at rest
  obtain ⟨_, _, second, rest⟩ := rest
  obtain ⟨directoryPresent, rfl⟩ := panicIf_ok_iff.mp second
  replace rest := (bind_of_ok (loadWord_of_physical tableDirect)).symm.trans rest
  rw [bind_ok_iff] at rest
  obtain ⟨_, _, third, rest⟩ := rest
  obtain ⟨entryPresent, rfl⟩ := panicIf_ok_iff.mp third
  have stored := (storeWord_of_physical tableDirect).symm.trans rest
  refine ⟨aligned_of_check virtualCheck, present_of_check directoryPresent,
    present_of_check entryPresent, ?_⟩
  cases stored
  rfl

end MapPage

end TorchOS.Paging
