import TorchOS.Filesystem.Blocks
import TorchOS.Paging.HeapPages

/-!
# The heap at boot

`kmain` calls `init_filesystem` before `init_paging`, so the ramdisk is read with paging
off and a heap that nothing has set up: `heap_current` and `heap_mapped` are zero, and
the first block lies at address 0. The heap grows from there; what `map_page` records of
its pages goes to one page table and one entry of the page directory, and to no other
memory, until the heap reaches the kernel.
-/

namespace TorchOS.Filesystem

open Base Base.Program Paging

/-- `heap_allocate`, but stopping where the heap would grow over the kernel. -/
def allocateBelowKernel (layout : Layout) (size : UInt32) : Kernel UInt32 := do
  panicIf ((← read Machine.heapCurrent) + size > kernelStart) "The heap reaches the kernel!"
  heapAllocate layout size

/-- The memory below the kernel. -/
def lowMemory : Set UInt32 := {address | address < kernelStart}

/-- The directory entry of the first four megabytes, and the page table behind it. -/
def lowTables (layout : Layout) : Set UInt32 :=
  Span (slot layout.pageDirectory 0) 4 ∪ page (tablePage 0)

/-- The directory entry of the first four megabytes is absent, and no table is taken, or
it holds the first table. -/
def LowTableReady (layout : Layout) (s : Machine) : Prop :=
  isPresent (directoryEntry s.mem layout.pageDirectory 0) = false ∧ s.pageTableBitmap.Filled 0 ∨
    directoryEntry s.mem layout.pageDirectory 0 = tablePage 0 ||| 3

/-- The heap from address 0 up, with its first `count` pages mapped by one page table, and
covered by blocks without a gap. -/
structure BootHeap (layout : Layout) (count : Nat) (s : Machine) : Prop where
  unpaged : s.paging = false
  frames : s.pageFrameBitmap.Filled count
  watermark : s.heapMapped.toNat = 4096 * count
  inside : 4096 * count ≤ kernelStart.toNat
  covered : s.heapCurrent.toNat ≤ 4096 * count
  tables : LowTableReady layout s
  blocks : ∀ block ∈ s.kallocs, block.start.toNat + block.size.toNat ≤ s.heapCurrent.toNat
  granted : ∀ address : UInt32, address.toNat < s.heapCurrent.toNat →
    ∃ block ∈ s.kallocs, address ∈ block.span

section Pages

variable {layout : Layout} {s : Machine} {count : Nat} {address frame size : UInt32}
  {mem : Bytes}

theorem lowTables_apart : Disjoint lowMemory (lowTables layout) := by
  have lower := layout.pageDirectory_inKernel.1
  have upper := layout.pageDirectory_inKernel.2
  rw [UInt32.le_iff_toNat_le, toNat_kernelStart] at lower
  rw [UInt32.lt_iff_toNat_lt, toNat_kernelEnd] at upper
  have place : (slot layout.pageDirectory 0).toNat = _ :=
    toNat_slot layout.pageDirectory_aligned (by decide)
  have zero : (0 : UInt32).toNat = 0 := rfl
  have table : (tablePage 0).toNat = _ := toNat_tablePage (by decide)
  rw [Set.disjoint_left]
  rintro address below (inSlot | inTable)
  · rw [Span.mem_iff (by omega)] at inSlot
    have low := UInt32.lt_iff_toNat_lt.mp below
    rw [toNat_kernelStart] at low
    omega
  · rw [mem_page_iff (tablePage_aligned (by decide))] at inTable
    have low := UInt32.lt_iff_toNat_lt.mp below
    rw [toNat_kernelStart] at low
    omega

/-- The first four megabytes are served by one directory entry. -/
theorem directoryIndex_low (below : address < kernelStart) : getPageDirectoryIndex address = 0 := by
  have low := UInt32.lt_iff_toNat_lt.mp below
  rw [toNat_kernelStart] at low
  rw [Word.toNat_inj_iff, getPageDirectoryIndex, Word.toNat_shiftRight_22]
  change _ = 0
  omega

theorem directoryEntry_low (below : address < kernelStart) :
    directoryEntry mem layout.pageDirectory address =
      directoryEntry mem layout.pageDirectory 0 := by
  rw [directoryEntry, directoryIndex_low below]
  rfl

/-- The entry of the directory is apart from every entry of the table. -/
theorem directory_apart_table (index : UInt32) (inside : index.toNat < 1024) :
    Disjoint (Span (slot layout.pageDirectory 0) 4) (Span (slot (tablePage 0) index) 4) := by
  refine slot_disjoint_of_page layout.pageDirectory_aligned (tablePage_aligned (by decide))
    (fun same => ?_) (by decide) inside
  have upper := layout.pageDirectory_inKernel.2
  rw [UInt32.lt_iff_toNat_lt, toNat_kernelEnd, same, toNat_tablePage (by decide)] at upper
  omega

/-- Mapping a page stores to the directory entry and the table only, and leaves the table
behind the entry. -/
theorem mapPage_low (ready : LowTableReady layout s) (unpaged : s.paging = false)
    (pageAligned : PageAligned address) (below : address < kernelStart)
    (aligned : PageAligned frame) :
    ∃ mem tables, mapPage layout.pageDirectory address frame s =
        .ok () { s with pageTableBitmap := tables, mem := mem } ∧
      directoryEntry mem layout.pageDirectory 0 = tablePage 0 ||| 3 ∧
      ∀ other ∉ lowTables layout, mem other = s.mem other := by
  have tableAligned : PageAligned (tablePage 0) := tablePage_aligned (by decide)
  have entryKept : ∀ (mem : Bytes) value,
      directoryEntry (withEntry mem (tablePage 0) address value) layout.pageDirectory 0 =
        directoryEntry mem layout.pageDirectory 0 := fun mem value =>
    Bytes.load32_store32_of_disjoint (directory_apart_table _ (getPageTableIndex_lt _))
  have tableKept : ∀ (mem : Bytes) value, ∀ other ∉ lowTables layout,
      withEntry mem (tablePage 0) address value other = mem other :=
    fun mem value other outside => Bytes.store32_of_notMem fun inEntry =>
      outside (.inr (slot_subset_page tableAligned (getPageTableIndex_lt _) inEntry))
  rcases ready with ⟨absent, clear⟩ | present
  · obtain ⟨tables, taken, -⟩ := clear.firstFit (by rw [pageTableBitmapSize_eq]; decide)
    have missing : isPresent (directoryEntry s.mem layout.pageDirectory address) = false :=
      (directoryEntry_low below).symm ▸ absent
    have entered : withTable s.mem layout.pageDirectory address (tablePage 0) =
        s.mem.store32 (slot layout.pageDirectory 0) (tablePage 0 ||| 3) := by
      rw [withTable, directoryIndex_low below]
    have unpagedAfter : (tableAdded s layout.pageDirectory address 0 tables).paging = false :=
      unpaged
    refine ⟨_, tables, mapPage_of_absent pageAligned aligned missing taken
      (direct_of_unpaged unpaged _) (direct_of_unpaged unpagedAfter _)
      (direct_of_unpaged unpagedAfter _), ?_, fun other outside => ?_⟩
    · rw [entryKept, entered]
      exact Bytes.load32_store32 _
    · rw [tableKept _ _ _ outside, entered]
      exact Bytes.store32_of_notMem fun inSlot => outside (.inl inSlot)
  · have entry : directoryEntry s.mem layout.pageDirectory address = tablePage 0 ||| 3 :=
      (directoryEntry_low below).trans present
    have serves : servingTable s.mem layout.pageDirectory address = tablePage 0 := by
      rw [servingTable, entry]
      exact getPageTableAddress_or_three tableAligned
    have run := mapPage_of_present pageAligned aligned (entry ▸ isPresent_or_three tableAligned)
      (direct_of_unpaged unpaged _) (direct_of_unpaged unpaged _)
    rw [serves] at run
    exact ⟨_, s.pageTableBitmap, run, (entryKept _ _).trans present,
      fun other outside => tableKept _ _ other outside⟩

/-- The next page is mapped and cleared. -/
theorem BootHeap.heapMapNext_run (holds : BootHeap layout count s)
    (more : 4096 * (count + 1) ≤ kernelStart.toNat) :
    ∃ after, heapMapNext layout s = .ok () after ∧ BootHeap layout (count + 1) after ∧
      after.heapCurrent = s.heapCurrent ∧ after.kallocs = s.kallocs ∧ after.root = s.root ∧
      ∀ address ∉ lowTables layout, (address.toNat < 4096 * count ∨ kernelStart ≤ address) →
        after.mem address = s.mem address := by
  have watermark := holds.watermark
  have below := more
  rw [toNat_kernelStart] at below
  have room : count < 8192 := by omega
  obtain ⟨frames, taken, filled⟩ := holds.frames.firstFit (by rw [pageFrameBitmapSize_eq]; omega)
  have takes : takePageFrame s = .ok (framePage count) { s with pageFrameBitmap := frames } := by
    simp only [takePageFrame, taken]
    rfl
  have pageAligned : PageAligned s.heapMapped := by
    rw [PageAligned, watermark]
    omega
  have low : s.heapMapped < kernelStart := by
    rw [UInt32.lt_iff_toNat_lt, toNat_kernelStart]
    omega
  have ready : LowTableReady layout { s with pageFrameBitmap := frames } := holds.tables
  obtain ⟨mem, tables, maps, entry, kept⟩ :=
    mapPage_low ready holds.unpaged pageAligned low (framePage_aligned room)
  have size : pageSize.toNat = 4096 := rfl
  have inPage : ∀ address : UInt32,
      address ∈ Span s.heapMapped (List.replicate pageSize.toNat (0 : UInt8)).length ↔
        4096 * count ≤ address.toNat ∧ address.toNat < 4096 * (count + 1) := by
    intro address
    rw [List.length_replicate, size, Span.mem_iff (by omega), watermark]
    omega
  have top : (s.heapMapped + pageSize).toNat = 4096 * (count + 1) := by
    rw [UInt32.toNat_add, size, watermark]
    omega
  let after : Machine := { s with
    pageFrameBitmap := frames
    pageTableBitmap := tables
    mem := mem.write s.heapMapped (List.replicate pageSize.toNat 0)
    heapMapped := s.heapMapped + pageSize }
  have booted : BootHeap layout (count + 1) after := by
    refine ⟨holds.unpaged, filled, top, more, ?_, .inr ?_, holds.blocks, holds.granted⟩
    · have covered := holds.covered
      change s.heapCurrent.toNat ≤ _
      omega
    · refine (Bytes.load32_congr fun address inEntry => Bytes.write_of_notMem fun cleared =>
        ?_).trans entry
      refine Set.disjoint_left.mp lowTables_apart ?_ (.inl inEntry)
      rw [lowMemory, Set.mem_ofPred_eq, UInt32.lt_iff_toNat_lt, toNat_kernelStart]
      have bounds := (inPage address).mp cleared
      omega
  have cleared := memset_of_unpaged (s := { s with
      pageFrameBitmap := frames
      pageTableBitmap := tables
      mem := mem }) holds.unpaged s.heapMapped 0 pageSize
  refine ⟨after, ?_, booted, rfl, rfl, rfl, fun address outside elsewhere => ?_⟩
  · rw [heapMapNext, bind_of_ok (read_run _ _), pageFrameAllocate, bind_assoc,
      bind_of_ok (panicIf_run (check_of_aligned pageAligned)), bind_assoc, bind_of_ok takes,
      bind_assoc, bind_of_ok maps, bind_assoc, bind_of_ok cleared]
    rfl
  · refine (Bytes.write_of_notMem fun cleared => ?_).trans (kept address outside)
    have bounds := (inPage address).mp cleared
    rw [UInt32.le_iff_toNat_le, toNat_kernelStart] at elsewhere
    omega

/-- A request that ends below the kernel is mapped, with a page more where it needs one. -/
theorem BootHeap.heapMapUpTo_run (holds : BootHeap layout count s) (small : size.toNat ≤ 256)
    (fits : s.heapCurrent.toNat + size.toNat ≤ kernelStart.toNat) :
    ∃ grown reached, heapMapUpTo layout size s = .ok () grown ∧ BootHeap layout reached grown ∧
      s.heapCurrent.toNat + size.toNat ≤ 4096 * reached ∧ grown.heapCurrent = s.heapCurrent ∧
      grown.kallocs = s.kallocs ∧ grown.root = s.root ∧
      ∀ address ∉ lowTables layout, (address < s.heapCurrent ∨ kernelStart ≤ address) →
        grown.mem address = s.mem address := by
  have covered := holds.covered
  have watermark := holds.watermark
  rw [toNat_kernelStart] at fits
  have top : (s.heapCurrent + size).toNat = s.heapCurrent.toNat + size.toNat := by
    rw [UInt32.toNat_add]
    omega
  by_cases enough : s.heapCurrent.toNat + size.toNat ≤ 4096 * count
  · exact ⟨s, count, heapMapUpTo_of_covered (by omega), holds, enough, rfl, rfl, rfl,
      fun _ _ _ => rfl⟩
  · obtain ⟨grown, next, grownHeap, current, kallocs, root, kept⟩ := holds.heapMapNext_run (by
      rw [toNat_kernelStart]
      omega)
    have reached := grownHeap.watermark
    refine ⟨grown, count + 1, ?_, grownHeap, by omega, current, kallocs, root,
      fun address outside elsewhere => kept address outside (elsewhere.imp_left fun below => ?_)⟩
    · have again : decide (s.heapCurrent + size > s.heapMapped) = true := by
        rw [decide_eq_true_eq, gt_iff_lt, UInt32.lt_iff_toNat_lt]
        omega
      have done : decide (grown.heapCurrent + size > grown.heapMapped) = false := by
        rw [decide_eq_false_iff_not, current, gt_iff_lt, UInt32.lt_iff_toNat_lt]
        omega
      have rounds : loopBound = 4294967295 + 1 + 1 := by
        unfold loopBound
        rfl
      have first : heapMapUpTo layout size s = (heapMapNext layout >>= loop
          (fun _ s => s.heapCurrent + size > s.heapMapped) (fun _ => heapMapNext layout) .endless
          (4294967295 + 1)) s := by
        rw [heapMapUpTo, rounds]
        exact loop_again again
      rw [first, bind_of_ok next]
      exact loop_done done
    · rw [UInt32.lt_iff_toNat_lt] at below
      omega

/-- The next block was handed out: memory below it and above the kernel's start is as it
was, the tables apart. -/
structure BootGrant (layout : Layout) (size : UInt32) (before after : Machine) : Prop where
  heap : ∃ count, BootHeap layout count after
  top : after.heapCurrent.toNat = before.heapCurrent.toNat + size.toNat
  kallocs : after.kallocs = before.kallocs ++ [⟨before.heapCurrent, size⟩]
  root : after.root = before.root
  kept : ∀ address ∉ lowTables layout, (address < before.heapCurrent ∨ kernelStart ≤ address) →
    after.mem address = before.mem address

/-- Below the kernel, `heap_allocate` hands out the next block. -/
theorem BootHeap.heapAllocate_run (holds : BootHeap layout count s) (small : size.toNat ≤ 256)
    (fits : s.heapCurrent.toNat + size.toNat ≤ kernelStart.toNat) :
    ∃ after, heapAllocate layout size s = .ok s.heapCurrent after ∧
      BootGrant layout size s after := by
  obtain ⟨grown, reached, maps, grownHeap, enough, current, kallocs, root, kept⟩ :=
    holds.heapMapUpTo_run small fits
  rw [toNat_kernelStart] at fits
  have top : (s.heapCurrent + size).toNat = s.heapCurrent.toNat + size.toNat := by
    rw [UInt32.toNat_add]
    omega
  have limit : (s.heapCurrent + size).toNat ≤ heapAllocatorAreaEnd.toNat := by
    rw [toNat_heapAllocatorAreaEnd]
    omega
  have inBlock : ∀ address : UInt32, address ∈ Span s.heapCurrent size.toNat ↔
      s.heapCurrent.toNat ≤ address.toNat ∧
        address.toNat < s.heapCurrent.toNat + size.toNat := fun address =>
    Span.mem_iff (by omega)
  have cleared : ∀ address, address ∉ Span s.heapCurrent size.toNat →
      grown.mem.write s.heapCurrent (List.replicate size.toNat 0) address = grown.mem address := by
    intro address outside
    apply Bytes.write_of_notMem
    rwa [List.length_replicate]
  have run : heapAllocate layout size s = _ :=
    heapAllocate_of_mapped grownHeap.unpaged limit maps
  rw [current, kallocs] at run
  refine ⟨_, run, ⟨reached, grownHeap.unpaged, grownHeap.frames, grownHeap.watermark,
    grownHeap.inside, top.trans_le enough, ?_, fun block member => ?_, fun address below => ?_⟩,
    top, rfl, root, fun address outside elsewhere => ?_⟩
  · have entry : directoryEntry (grown.mem.write s.heapCurrent (List.replicate size.toNat 0))
        layout.pageDirectory 0 = directoryEntry grown.mem layout.pageDirectory 0 := by
      refine Bytes.load32_congr fun address inEntry => cleared address fun inBlockHere => ?_
      refine Set.disjoint_left.mp lowTables_apart ?_ (.inl inEntry)
      have bounds := (inBlock address).mp inBlockHere
      rw [lowMemory, Set.mem_ofPred_eq, UInt32.lt_iff_toNat_lt, toNat_kernelStart]
      omega
    have tables := grownHeap.tables
    rw [LowTableReady, ← entry] at tables
    exact tables
  · change _ ≤ (s.heapCurrent + size).toNat
    rcases List.mem_append.mp member with old | new
    · have ends := holds.blocks block old
      omega
    · rw [List.mem_singleton.mp new]
      exact top.ge
  · change address.toNat < (s.heapCurrent + size).toNat at below
    by_cases old : address.toNat < s.heapCurrent.toNat
    · obtain ⟨block, member, inside⟩ := holds.granted address old
      exact ⟨block, List.mem_append_left _ member, inside⟩
    · refine ⟨⟨s.heapCurrent, size⟩, List.mem_append_right _ (List.mem_singleton.mpr rfl), ?_⟩
      exact (inBlock address).mpr (by omega)
  · refine (cleared address fun inside => ?_).trans (kept address outside elsewhere)
    have bounds := (inBlock address).mp inside
    rw [UInt32.lt_iff_toNat_lt, UInt32.le_iff_toNat_le, toNat_kernelStart] at elsewhere
    omega

theorem BootHeap.below (holds : BootHeap layout count s) :
    s.heapCurrent.toNat ≤ kernelStart.toNat :=
  holds.covered.trans holds.inside

/-- The heap's own tables lie above every block. -/
theorem BootHeap.tables_unused (holds : BootHeap layout count s)
    (inTables : address ∈ lowTables layout) : ∀ block ∈ s.kallocs, address ∉ block.span := by
  intro block member inside
  have ends := holds.blocks block member
  have below := holds.below
  rw [toNat_kernelStart] at below
  rw [Block.span, Span.mem_iff (by omega)] at inside
  refine Set.disjoint_right.mp lowTables_apart inTables ?_
  rw [lowMemory, Set.mem_ofPred_eq, UInt32.lt_iff_toNat_lt, toNat_kernelStart]
  omega

/-- Memory from the top of the heap on is unused. -/
theorem BootHeap.above_unused (holds : BootHeap layout count s)
    (above : s.heapCurrent ≤ address) : ∀ block ∈ s.kallocs, address ∉ block.span := by
  intro block member inside
  have ends := holds.blocks block member
  have below := holds.below
  rw [toNat_kernelStart] at below
  rw [UInt32.le_iff_toNat_le] at above
  rw [Block.span, Span.mem_iff (by omega)] at inside
  omega

end Pages

/-! ## As a growing heap -/

/-- Some block was handed out before, so that no further one lies at address 0. -/
structure BootReady (layout : Layout) (s : Machine) : Prop where
  heap : ∃ count, BootHeap layout count s
  started : 0 < s.heapCurrent.toNat

/-- The bytes left below the kernel. -/
def bootRoom (s : Machine) : Nat := kernelStart.toNat - s.heapCurrent.toNat

section Ready

variable {layout : Layout} {s : Machine} {size : UInt32}

/-- Below the kernel it is `heap_allocate`. -/
theorem allocateBelowKernel_eq {count : Nat} (holds : BootHeap layout count s)
    (small : size.toNat ≤ 256) :
    (bootRoom s < size.toNat ∧ allocateBelowKernel layout size s =
        .error (.panic "The heap reaches the kernel!") s) ∨
      (size.toNat ≤ bootRoom s ∧
        allocateBelowKernel layout size s = heapAllocate layout size s) := by
  have below := holds.below
  rw [toNat_kernelStart] at below
  have top : (s.heapCurrent + size).toNat = s.heapCurrent.toNat + size.toNat := by
    rw [UInt32.toNat_add]
    omega
  rw [bootRoom, toNat_kernelStart]
  by_cases fits : s.heapCurrent.toNat + size.toNat ≤ kernelStart.toNat
  · have passes : decide (s.heapCurrent + size > kernelStart) = false := by
      rw [decide_eq_false_iff_not, gt_iff_lt, UInt32.lt_iff_toNat_lt]
      omega
    rw [toNat_kernelStart] at fits
    refine .inr ⟨by omega, ?_⟩
    rw [allocateBelowKernel, bind_of_ok (read_run _ _), bind_of_ok (panicIf_run passes)]
  · have fails : decide (s.heapCurrent + size > kernelStart) = true := by
      rw [decide_eq_true_eq, gt_iff_lt, UInt32.lt_iff_toNat_lt]
      omega
    rw [toNat_kernelStart] at fits
    refine .inl ⟨by omega, ?_⟩
    rw [allocateBelowKernel, bind_of_ok (read_run _ _), bind_of_error (panicIf_panics fails)]

theorem BootReady.allocates (ready : BootReady layout s) (small : size.toNat ≤ 256) :
    (bootRoom s < size.toNat ∧ allocateBelowKernel layout size s =
        .error (.panic "The heap reaches the kernel!") s) ∨
      ∃ after, allocateBelowKernel layout size s = .ok s.heapCurrent after ∧
        BootGrant layout size s after ∧ bootRoom after + size.toNat = bootRoom s := by
  obtain ⟨count, holds⟩ := ready.heap
  rcases allocateBelowKernel_eq holds small with full | ⟨fits, same⟩
  · exact .inl full
  · have below := holds.below
    rw [bootRoom] at fits
    obtain ⟨after, run, grant⟩ := holds.heapAllocate_run small (by omega)
    have top := grant.top
    refine .inr ⟨after, same.trans run, grant, ?_⟩
    rw [bootRoom, bootRoom]
    omega

/-- A block of the boot heap is fresh, and all else is left alone. -/
theorem BootGrant.allocation {after : Machine} (grant : BootGrant layout size s after)
    (ready : BootReady layout s) (fits : size.toNat ≤ bootRoom s) :
    Allocation lowMemory (lowTables layout) size s s.heapCurrent after := by
  obtain ⟨count, holds⟩ := ready.heap
  have below := holds.below
  rw [bootRoom, toNat_kernelStart] at fits
  rw [toNat_kernelStart] at below
  refine ⟨fun null => ?_, fun address inside => ⟨?_, ?_⟩, fun address outside => ?_, grant.kallocs,
    grant.root⟩
  · have started := ready.started
    rw [null] at started
    exact absurd started (Nat.lt_irrefl _)
  · rw [Span.mem_iff (by omega)] at inside
    rw [lowMemory, Set.mem_ofPred_eq, UInt32.lt_iff_toNat_lt, toNat_kernelStart]
    omega
  · rw [Span.mem_iff (by omega)] at inside
    exact holds.above_unused (UInt32.le_iff_toNat_le.mpr inside.1)
  · have noTable : address ∉ lowTables layout := fun inTables =>
      outside ⟨.inr inTables, holds.tables_unused inTables⟩
    refine grant.kept address noTable ?_
    rw [UInt32.lt_iff_toNat_lt, UInt32.le_iff_toNat_le]
    by_contra between
    rw [not_or, Nat.not_lt, Nat.not_le] at between
    exact outside ⟨.inl (UInt32.lt_iff_toNat_lt.mpr between.2),
      holds.above_unused (UInt32.le_iff_toNat_le.mpr between.1)⟩

end Ready

section Same

variable {layout : Layout} {reason : Halt} {kalloc kalloc' : UInt32 → Kernel UInt32}

end Same

/-! ## The root directory at boot -/

section Root

open Lib

variable {layout : Layout} {kalloc : UInt32 → Kernel UInt32} {s middle : Machine}
  {node name : UInt32} {text : List UInt8} {mem : Bytes}

end Root

/-! ## A ramdisk at boot -/

section BootMem

open Lib

variable {files : List PackedFile} {address limit : UInt32}

/-- The kernel's memory, its page directory apart, belongs neither to the heap at boot nor
to its tables. -/
theorem kernel_apart (above : 0x00100000 ≤ address.toNat) (below : address.toNat < 0x00300000)
    (other : address.toNat < 0x00200000 ∨ 0x00201000 ≤ address.toNat) :
    address ∉ lowMemory ∪ lowTables Layout.sample := by
  rintro (low | inSlot | inTable)
  · have under : address < kernelStart := low
    rw [UInt32.lt_iff_toNat_lt, toNat_kernelStart] at under
    omega
  · have aligned := Layout.sample.pageDirectory_aligned
    have inPage := slot_subset_page aligned (by decide) inSlot
    have directory : Layout.sample.pageDirectory.toNat = 0x00200000 := rfl
    rw [mem_page_iff aligned, directory] at inPage
    omega
  · rw [mem_page_iff (tablePage_aligned (by decide)), toNat_tablePage (by decide)] at inTable
    omega

end BootMem

end TorchOS.Filesystem
