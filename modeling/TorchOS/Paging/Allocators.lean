import TorchOS.Lib.Memory
import TorchOS.Paging.Mapping

/-!
# The allocators of `memory.c` and the order they are set up in

`page_frame_allocate` and `heap_allocate` on top of `map_page`, and
`init_paging`, which maps the kernel, prepares the three allocators and turns
paging on.
-/

namespace TorchOS.Paging

open Base Base.Program

/-- `memset` through the paging unit. -/
def memset (bufptr : UInt32) (value : UInt8) (size : UInt32) : Kernel Unit :=
  Lib.memsetBy storeByte bufptr value size

/-- The loop of `identity_map_range`, from `addr` on. -/
def identityMapFrom (kernelPageDirectory endAddress addr : UInt32) : Kernel UInt32 :=
  loop (fun addr _ => addr < endAddress)
    (fun addr => do
      mapPage kernelPageDirectory addr addr
      pure (addr + pageSize))
    .endless loopBound addr

/-- `identity_map_range` -/
def identityMapRange (kernelPageDirectory startAddress endAddress : UInt32) : Kernel Unit := do
  let _ ← identityMapFrom kernelPageDirectory endAddress startAddress
  pure ()

/-- The search of `page_frame_allocate` for a free page: its physical address. -/
def takePageFrame : Kernel UInt32 := fun s =>
  match s.pageFrameBitmap.firstFit with
  | none => .error (.panic "Page frame allocator has run out of space!") s
  | some (pageIndex, bitmap) =>
      .ok (pageFrameAllocatorAreaStart + pageSize * UInt32.ofNat pageIndex)
        { s with pageFrameBitmap := bitmap }

/-- `page_frame_allocate` -/
def pageFrameAllocate (layout : Layout) (virtualAddress : UInt32) : Kernel UInt32 := do
  panicIf (virtualAddress % pageSize ≠ 0) "Trying to allocate page frame at unaligned address!"
  let physicalAddress ← takePageFrame
  mapPage layout.pageDirectory virtualAddress physicalAddress
  memset virtualAddress 0 pageSize
  pure virtualAddress

/-- One round of the mapping loop of `heap_allocate`. -/
def heapMapNext (layout : Layout) : Kernel Unit := do
  let _ ← pageFrameAllocate layout (← read Machine.heapMapped)
  update fun s => { s with heapMapped := s.heapMapped + pageSize }

/-- The mapping loop of `heap_allocate`: pages are added until `target` is covered. -/
def heapMapUpTo (layout : Layout) (size : UInt32) : Kernel Unit :=
  loop (fun _ s => s.heapCurrent + size > s.heapMapped) (fun _ => heapMapNext layout)
    .endless loopBound ()

/-- `heap_allocate` -/
def heapAllocate (layout : Layout) (size : UInt32) : Kernel UInt32 := do
  panicIf ((← read Machine.heapCurrent) + size > heapAllocatorAreaEnd)
    "Heap is overflowing! Cannot allocate!"
  heapMapUpTo layout size
  memset (← read Machine.heapCurrent) 0 size
  let ret ← read Machine.heapCurrent
  update fun s => { s with
    heapCurrent := s.heapCurrent + size
    kallocs := s.kallocs ++ [⟨ret, size⟩] }
  pure ret

/-- `init_page_frame_allocator` -/
def initPageFrameAllocator : Kernel Unit := do
  update fun s => { s with pageFrameBitmap := Bitmap.clear pageFrameBitmapSize }
  panicIf (pageFrameAllocatorAreaStart % pageSize ≠ 0)
    "Page Frame Allocator does not start at a page aligned address!"
  panicIf (pageFrameAllocatorAreaEnd % pageSize ≠ 0)
    "Page Frame Allocator does not end at a page aligned address!"

/-- The size of `page_table_bitmap` in bytes. -/
def pageTableBitmapBytes : UInt32 := 4 * UInt32.ofNat pageTableBitmapSize

/-- The size of `page_frame_bitmap` in bytes. -/
def pageFrameBitmapBytes : UInt32 := 4 * UInt32.ofNat pageFrameBitmapSize

/-- `init_page_table_allocator`. The `memset` runs over `sizeof(page_frame_bitmap)`
bytes: it clears the page table bitmap, and then the memory behind it. -/
def initPageTableAllocator (layout : Layout) : Kernel Unit := do
  identityMapRange layout.pageDirectory pageTableAreaStart pageTableAreaEnd
  update fun s => { s with pageTableBitmap := Bitmap.clear pageTableBitmapSize }
  memset (layout.pageTableBitmap + pageTableBitmapBytes) 0
    (pageFrameBitmapBytes - pageTableBitmapBytes)
  panicIf (pageTableAreaStart % pageSize ≠ 0)
    "Page Table Allocator does not start at a page aligned address!"
  panicIf (pageTableAreaEnd % pageSize ≠ 0)
    "Page Table Allocator does not end at a page aligned address!"

/-- `init_heap_allocator` -/
def initHeapAllocator : Kernel Unit := do
  panicIf (heapAllocatorAreaStart % pageSize ≠ 0)
    "Heap allocator does not start at a page aligned address!"
  panicIf (heapAllocatorAreaEnd % pageSize ≠ 0)
    "Heap allocator does not end at a page aligned address!"
  update fun s => { s with
    heapCurrent := heapAllocatorAreaStart
    heapMapped := heapAllocatorAreaStart }

/-- The number of entries of `page_directory`, kept folded as the bitmap sizes are. -/
@[irreducible] def pageDirectoryLength : Nat := 1024

theorem pageDirectoryLength_eq : pageDirectoryLength = 1024 := by
  unfold pageDirectoryLength
  rfl

/-- The first loop of `init_paging`: it marks every entry of the directory not present. -/
def clearDirectory (layout : Layout) : Kernel Unit :=
  times (fun i => storeWord (slot layout.pageDirectory (UInt32.ofNat i)) 0x00000002)
    pageDirectoryLength

/-- `init_paging`, without its log line and the registration of the page fault
handler, which leave the state below alone. -/
def initPaging (layout : Layout) : Kernel Unit := do
  clearDirectory layout
  storeWord (slot layout.pageDirectory 0) (layout.firstPageTable ||| 3)
  storeWord (slot layout.pageDirectory 1) (layout.secondPageTable ||| 3)
  identityMapRange layout.pageDirectory kernelStart kernelEnd
  initPageFrameAllocator
  initPageTableAllocator layout
  initHeapAllocator
  mapPage layout.pageDirectory vgaMemory vgaMemory
  update fun s => { s with cr3 := layout.pageDirectory }  -- load_page_directory
  update fun s => { s with paging := true }  -- enable_paging

end TorchOS.Paging
