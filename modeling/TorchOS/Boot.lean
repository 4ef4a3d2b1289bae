import TorchOS.Filesystem.Effects
import TorchOS.Paging.Heap

/-!
# `kmain`

The boot loader's information is checked, the ramdisk located and the filesystem
set up; the kernel then stops on purpose, with `init_paging` still to come. So
the filesystem is built on a heap that nothing has initialised: its first node
is the block at address 0.
-/

namespace TorchOS.Boot

open Base Base.Program Lib Filesystem

/-! ## Boot information -/

/-! The fields of `multiboot_info_t` and of `multiboot_memory_map_t`. -/

namespace MultibootInfo

def flags (mbd : UInt32) : UInt32 := mbd
def memLower (mbd : UInt32) : UInt32 := mbd + 4
def memUpper (mbd : UInt32) : UInt32 := mbd + 8
def modsCount (mbd : UInt32) : UInt32 := mbd + 20
def modsAddr (mbd : UInt32) : UInt32 := mbd + 24
def mmapLength (mbd : UInt32) : UInt32 := mbd + 44
def mmapAddr (mbd : UInt32) : UInt32 := mbd + 48

end MultibootInfo

namespace MemoryMap

def size (map : UInt32) : UInt32 := map
def addrLower (map : UInt32) : UInt32 := map + 4
def lenLower (map : UInt32) : UInt32 := map + 12
def type (map : UInt32) : UInt32 := map + 20

end MemoryMap

def multibootBootloaderMagic : UInt32 := 0x2BADB002
def multibootInfoMemory : UInt32 := 0x00000001
def multibootInfoMemMap : UInt32 := 0x00000040

/-- The check of the magic number. -/
def checkMagic (magic : UInt32) : Kernel Unit :=
  if magic ≠ multibootBootloaderMagic then do
    logf "Magic is incorrect...: %x\n" [.number magic]
    halt (.panic "Kernel Panic due to Incorrect Magic")
  else pure ()

/-- The log lines about the amount of memory. -/
def logMemory (mbd : UInt32) : Kernel Unit := do
  if (← getWord (MultibootInfo.flags mbd)) &&& multibootInfoMemory ≠ 0 then
    logf "mem_lower = %x\n" [.number (← getWord (MultibootInfo.memLower mbd))]
    logf "mem_upper = %x\n" [.number (← getWord (MultibootInfo.memUpper mbd))]
  else pure ()

/-- One line of the memory map, and the next entry. -/
def logMapEntry (map : UInt32) : Kernel UInt32 := do
  logf "base_addr= %x, length= %x, type = %x\n"
    [.number (← getWord (MemoryMap.addrLower map)), .number (← getWord (MemoryMap.lenLower map)),
      .number (← getWord (MemoryMap.type map))]
  pure (map + (← getWord (MemoryMap.size map)) + 4)

/-- The log of the memory map. -/
def logMemoryMap (mbd : UInt32) : Kernel Unit := do
  if (← getWord (MultibootInfo.flags mbd)) &&& multibootInfoMemMap ≠ 0 then
    logf "mmap_addr = %x, mmap_length = %x\n"
      [.number (← getWord (MultibootInfo.mmapAddr mbd)),
        .number (← getWord (MultibootInfo.mmapLength mbd))]
    let _ ← loop (fun map s => map < s.mem.load32 (MultibootInfo.mmapAddr mbd) +
        s.mem.load32 (MultibootInfo.mmapLength mbd)) logMapEntry .endless loopBound
      (← getWord (MultibootInfo.mmapAddr mbd))
    pure ()
  else pure ()

/-- `check_multiboot_info` -/
def checkMultibootInfo (mbd magic : UInt32) : Kernel Unit := do
  checkMagic magic
  logf "mbd->flags: %x\n" [.number (← getWord (MultibootInfo.flags mbd))]
  logMemory mbd
  logMemoryMap mbd
  panicIf ((← getWord (MultibootInfo.modsCount mbd)) ≤ 0)
    "Module counter shows no ramdisk present"

/-- `kmain`, as far as it runs: the call of `panic` after the filesystem never
returns. `init_logger` sets up the serial port only. -/
def kmain (layout : Layout) (mbd magic : UInt32) : Kernel Unit := do
  logf "Logger initialized\n" []
  checkMultibootInfo mbd magic
  let initrdStart ← getWord (← getWord (MultibootInfo.modsAddr mbd))
  let initrdEnd ← getWord ((← getWord (MultibootInfo.modsAddr mbd)) + 4)
  logf "initrd_start: %x\n" [.number initrdStart]
  logf "initrd_end: %x\n" [.number initrdEnd]
  panicIf (initrdEnd > kernelEnd) "Ramdisk is bleeding past the kernel area!"
  initFilesystem layout (Paging.heapAllocate layout) initrdStart initrdEnd
  logf "Filesystem Initialized\n" []
  halt (.panic "stop")

/-! ## The first block -/

/-- Every block handed out is a block of the heap area, and none is `NULL`. -/
def KallocsInHeap (s : Machine) : Prop :=
  ∀ block ∈ s.kallocs, block.start ≠ 0 ∧
    block.extent ⊆ Set.Ico heapAllocatorAreaStart.toNat heapAllocatorAreaEnd.toNat

/-- The globals of `memory.c` are still as they were loaded: zero. -/
structure Untouched (s : Machine) : Prop where
  unpaged : s.paging = false
  heapCurrent : s.heapCurrent = 0
  heapMapped : s.heapMapped = 0
  pageFrameBitmap : s.pageFrameBitmap = Bitmap.clear pageFrameBitmapSize
  pageTableBitmap : s.pageTableBitmap = Bitmap.clear pageTableBitmapSize

section FirstBlock

variable {s : Machine} {virtualAddress physicalAddress size : UInt32}

/-- While paging is off, a page is mapped as long as a page table is free. -/
theorem mapPage_returns (layout : Layout) (unpaged : s.paging = false)
    (virtualAligned : Paging.PageAligned virtualAddress)
    (physicalAligned : Paging.PageAligned physicalAddress) {index : Nat}
    {bitmap : Bitmap pageTableBitmapSize}
    (taken : s.pageTableBitmap.firstFit = some (index, bitmap)) :
    ∃ mem tables, Paging.mapPage layout.pageDirectory virtualAddress physicalAddress s =
      .ok () { s with mem := mem, pageTableBitmap := tables } := by
  have direct := Paging.direct_of_unpaged unpaged
  cases present : Paging.isPresent
      (Paging.directoryEntry s.mem layout.pageDirectory virtualAddress) with
  | true =>
      exact ⟨_, s.pageTableBitmap, Paging.mapPage_of_present virtualAligned physicalAligned present
        (direct _) (direct _)⟩
  | false =>
      have added := Paging.direct_of_unpaged (s := Paging.tableAdded s layout.pageDirectory
        virtualAddress index bitmap) unpaged
      exact ⟨_, bitmap, Paging.mapPage_of_absent virtualAligned physicalAligned present taken
        (direct _) (added _) (added _)⟩

/-- With the globals still zero, the first round of the mapping loop maps page 0. -/
theorem heapMapNext_untouched (layout : Layout) (untouched : Untouched s) :
    ∃ mem frames tables, Paging.heapMapNext layout s = .ok () { s with
      mem := mem
      pageFrameBitmap := frames
      pageTableBitmap := tables
      heapMapped := pageSize } := by
  have zero : Paging.PageAligned 0 := by decide
  have tablesLeft : 0 < pageTableBitmapSize := by
    rw [pageTableBitmapSize_eq]
    omega
  have framesLeft : 0 < pageFrameBitmapSize := by
    rw [pageFrameBitmapSize_eq]
    omega
  obtain ⟨frames, frameTaken⟩ := Bitmap.firstFit_clear framesLeft
  obtain ⟨tables, tableTaken⟩ := Bitmap.firstFit_clear tablesLeft
  rw [← untouched.pageFrameBitmap] at frameTaken
  rw [← untouched.pageTableBitmap] at tableTaken
  have takes : Paging.takePageFrame s = .ok (pageFrameAllocatorAreaStart +
      pageSize * UInt32.ofNat 0) { s with pageFrameBitmap := frames } := by
    simp only [Paging.takePageFrame, frameTaken]
  have frameAligned : Paging.PageAligned (pageFrameAllocatorAreaStart + pageSize * UInt32.ofNat 0) :=
    by decide
  obtain ⟨mem, newTables, maps⟩ := mapPage_returns (s := { s with pageFrameBitmap := frames })
    layout untouched.unpaged zero frameAligned tableTaken
  have clears := Paging.memset_of_unpaged (s := { s with
    pageFrameBitmap := frames, mem := mem, pageTableBitmap := newTables }) untouched.unpaged 0 0
    pageSize
  have allocates : Paging.pageFrameAllocate layout 0 s = .ok 0 { s with
      mem := mem.write 0 (List.replicate pageSize.toNat 0)
      pageFrameBitmap := frames
      pageTableBitmap := newTables } := by
    rw [Paging.pageFrameAllocate,
      bind_of_ok (panicIf_run (Paging.check_of_aligned zero)), bind_of_ok takes, bind_of_ok maps,
      bind_of_ok clears]
    rfl
  refine ⟨mem.write 0 (List.replicate pageSize.toNat 0), frames, newTables, ?_⟩
  rw [Paging.heapMapNext, bind_of_ok (read_run _ _), untouched.heapMapped, bind_of_ok allocates,
    update_run, untouched.heapMapped]
  rfl

/-- With the globals still zero, the first block is the one at address 0. -/
theorem heapAllocate_untouched (layout : Layout) (untouched : Untouched s) (positive : 0 < size.toNat)
    (small : size.toNat ≤ 4096) :
    ∃ after, Paging.heapAllocate layout size s = .ok 0 after ∧
      after.kallocs = s.kallocs ++ [⟨0, size⟩] := by
  obtain ⟨mem, frames, tables, maps⟩ := heapMapNext_untouched layout untouched
  have top : s.heapCurrent + size = size := by
    rw [untouched.heapCurrent, UInt32.zero_add]
  have again : decide (s.heapCurrent + size > s.heapMapped) = true := by
    rw [decide_eq_true_eq, top, untouched.heapMapped, gt_iff_lt, UInt32.lt_iff_toNat_lt]
    exact positive
  have done : decide (s.heapCurrent + size > pageSize) = false := by
    rw [decide_eq_false_iff_not, top, gt_iff_lt, UInt32.lt_iff_toNat_lt, toNat_pageSize]
    omega
  have mapsUpTo : Paging.heapMapUpTo layout size s = .ok () { s with
      mem := mem
      pageFrameBitmap := frames
      pageTableBitmap := tables
      heapMapped := pageSize } := by
    refine Eq.trans (loop_again again) ?_
    rw [bind_of_ok maps]
    exact loop_done done
  have limit : decide (s.heapCurrent + size > heapAllocatorAreaEnd) = false := by
    rw [decide_eq_false_iff_not, top, gt_iff_lt, UInt32.lt_iff_toNat_lt, toNat_heapAllocatorAreaEnd]
    omega
  have clears := Paging.memset_of_unpaged (s := { s with
    mem := mem, pageFrameBitmap := frames, pageTableBitmap := tables, heapMapped := pageSize })
    untouched.unpaged s.heapCurrent 0 size
  have returned : ∃ after, Paging.heapAllocate layout size s = .ok s.heapCurrent after := by
    rw [Paging.heapAllocate, bind_of_ok (read_run _ _), bind_of_ok (panicIf_run limit),
      bind_of_ok mapsUpTo, bind_of_ok (read_run _ _), bind_of_ok clears, bind_of_ok (read_run _ _),
      bind_of_ok (update_run _ _)]
    exact ⟨_, rfl⟩
  obtain ⟨after, returned⟩ := returned
  obtain ⟨_, _, _, _, _, granted⟩ := (Paging.heapAllocate_yields layout s size).of_ok returned
  rw [untouched.heapCurrent] at returned granted
  exact ⟨after, returned, granted⟩

end FirstBlock

/-! ## Blocks are never taken back -/

/-- Every block handed out before was handed out after. -/
def Grown (before after : Machine) : Prop := before.kallocs ⊆ after.kallocs

theorem Grown.of_eq {before after : Machine} (same : after.kallocs = before.kallocs) :
    Grown before after := by
  rw [Grown, same]
  exact fun _ member => member

theorem grown_allows : Allows Grown where
  refl _ := .of_eq rfl
  trans _ _ _ first second := fun _ member => second (first member)
  mem _ _ := .of_eq rfl
  serial _ _ := .of_eq rfl
  root _ _ := .of_eq rfl

section Respects

variable (layout : Layout)

theorem loadWord_grown (address : UInt32) : Respects Grown (Paging.loadWord address) := by
  intro s
  unfold Paging.loadWord
  split <;> exact .of_eq rfl

theorem storeWord_grown (address value : UInt32) :
    Respects Grown (Paging.storeWord address value) := by
  intro s
  unfold Paging.storeWord
  split <;> exact .of_eq rfl

theorem storeByte_grown (address : UInt32) (value : UInt8) :
    Respects Grown (Paging.storeByte address value) := by
  intro s
  unfold Paging.storeByte
  split <;> exact .of_eq rfl

theorem memset_grown (bufptr : UInt32) (value : UInt8) (size : UInt32) :
    Respects Grown (Paging.memset bufptr value size) :=
  Respects.times grown_allows.refl grown_allows.trans (fun _ => storeByte_grown _ _) _

theorem presentEntry_grown (directory index : UInt32) :
    Respects Grown (Paging.presentEntry directory index) := by
  refine grown_allows.bind (loadWord_grown _) fun pde => ?_
  split
  · exact grown_allows.pure _
  · refine grown_allows.bind (fun s => ?_) fun table =>
      grown_allows.bind (storeWord_grown _ _) fun _ => loadWord_grown _
    unfold Paging.pageTableAllocate
    split <;> exact .of_eq rfl

theorem pageFrameAllocate_grown (virtualAddress : UInt32) :
    Respects Grown (Paging.pageFrameAllocate layout virtualAddress) := by
  refine grown_allows.bind (grown_allows.panicIf _ _) fun _ =>
    grown_allows.bind (fun s => ?_) fun frame => grown_allows.bind ?_ fun _ =>
      grown_allows.bind (memset_grown _ _ _) fun _ => grown_allows.pure _
  · unfold Paging.takePageFrame
    split <;> exact .of_eq rfl
  · exact grown_allows.bind (grown_allows.panicIf _ _) fun _ =>
      grown_allows.bind (grown_allows.panicIf _ _) fun _ =>
        grown_allows.bind (presentEntry_grown _ _) fun _ => storeWord_grown _ _

theorem heapAllocate_grown (size : UInt32) : Respects Grown (Paging.heapAllocate layout size) := by
  refine grown_allows.bind (grown_allows.read _) fun _ =>
    grown_allows.bind (grown_allows.panicIf _ _) fun _ =>
      grown_allows.bind (grown_allows.loop (fun _ => ?_) _ _) fun _ =>
        grown_allows.bind (grown_allows.read _) fun _ =>
          grown_allows.bind (memset_grown _ _ _) fun _ =>
            grown_allows.bind (grown_allows.read _) fun ret =>
              grown_allows.bind (fun s => ?_) fun _ => grown_allows.pure _
  · refine grown_allows.bind (grown_allows.read _) fun _ =>
      grown_allows.bind (pageFrameAllocate_grown layout _) fun _ => ?_
    intro s
    apply Grown.of_eq
    simp only [update_run, final_ok]
  · exact List.subset_append_left _ _

/-- Once its root node has a block, `init_filesystem` never loses it. -/
theorem initFilesystem_grown {s first : Machine} {node : UInt32} (initrdStart initrdEnd : UInt32)
    (returned : Paging.heapAllocate layout nodeSize s = .ok node first) :
    Grown first (final (initFilesystem layout (Paging.heapAllocate layout) initrdStart initrdEnd
      s)) := by
  have kallocs := heapAllocate_grown layout
  have constructs : Grown first (final (fsConstructNode layout (Paging.heapAllocate layout)
      layout.rootName .directory s)) := by
    rw [fsConstructNode, bind_of_ok returned]
    exact grown_allows.bind (grown_allows.initHeader layout _ _ _)
      (fun _ => grown_allows.bind (grown_allows.initContents kallocs _ _)
        fun _ => grown_allows.pure _) first
  refine Respects.after grown_allows.trans constructs fun root => ?_
  refine grown_allows.bind (fun s => grown_allows.root s root) fun _ => ?_
  exact grown_allows.bind (grown_allows.readRamdisk layout kallocs _ _) fun _ =>
    grown_allows.bind (grown_allows.listRoot layout) fun _ =>
      grown_allows.testReadBack layout kallocs

end Respects

/-! ## The boot -/

/-- Nothing but the log differs. -/
def Logged (before after : Machine) : Prop := ∃ serial, after = before.withSerial serial

theorem logged_allows : AllowsLog Logged where
  refl s := ⟨s.serial, rfl⟩
  trans := by
    rintro a _ _ ⟨_, rfl⟩ ⟨serial, rfl⟩
    exact ⟨serial, rfl⟩
  serial _ serial := ⟨serial, rfl⟩

theorem checkMagic_logged (magic : UInt32) : Respects Logged (checkMagic magic) := by
  unfold checkMagic
  split
  · exact logged_allows.bind (logged_allows.logf _ _) fun _ => logged_allows.halt _
  · exact logged_allows.pure ()

theorem logMemory_logged (mbd : UInt32) : Respects Logged (logMemory mbd) := by
  refine logged_allows.bind (logged_allows.getWord _) fun flags => ?_
  split
  · exact logged_allows.bind (logged_allows.getWord _) fun _ =>
      logged_allows.bind (logged_allows.logf _ _) fun _ =>
        logged_allows.bind (logged_allows.getWord _) fun _ => logged_allows.logf _ _
  · exact logged_allows.pure ()

theorem logMapEntry_logged (map : UInt32) : Respects Logged (logMapEntry map) :=
  logged_allows.bind (logged_allows.getWord _) fun _ =>
    logged_allows.bind (logged_allows.getWord _) fun _ =>
      logged_allows.bind (logged_allows.getWord _) fun _ =>
        logged_allows.bind (logged_allows.logf _ _) fun _ =>
          logged_allows.bind (logged_allows.getWord _) fun _ => logged_allows.pure _

theorem logMemoryMap_logged (mbd : UInt32) : Respects Logged (logMemoryMap mbd) := by
  refine logged_allows.bind (logged_allows.getWord _) fun flags => ?_
  split
  · exact logged_allows.bind (logged_allows.getWord _) fun _ =>
      logged_allows.bind (logged_allows.getWord _) fun _ =>
        logged_allows.bind (logged_allows.logf _ _) fun _ =>
          logged_allows.bind (logged_allows.getWord _) fun _ =>
            logged_allows.bind (logged_allows.loop (fun _ => logMapEntry_logged _) _ _) fun _ =>
              logged_allows.pure ()
  · exact logged_allows.pure ()

/-- The check of the boot information only prints. -/
theorem checkMultibootInfo_logged (mbd magic : UInt32) :
    Respects Logged (checkMultibootInfo mbd magic) :=
  logged_allows.bind (checkMagic_logged _) fun _ =>
    logged_allows.bind (logged_allows.getWord _) fun _ =>
      logged_allows.bind (logged_allows.logf _ _) fun _ =>
        logged_allows.bind (logMemory_logged _) fun _ =>
          logged_allows.bind (logMemoryMap_logged _) fun _ =>
            logged_allows.bind (logged_allows.getWord _) fun _ => logged_allows.panicIf _ _

section Kmain

variable {layout : Layout} {mem : Bytes} {mbd magic : UInt32} {s : Machine}

theorem untouched_boot (mem : Bytes) (serial : List LogLine) :
    Untouched ((Machine.boot mem).withSerial serial) :=
  ⟨rfl, rfl, rfl, rfl, rfl⟩

/-- A boot whose information passes the check and whose ramdisk ends inside the
kernel area hands out the block at address 0. -/
theorem kmain_first_block (layout : Layout)
    (checked : (logf "Logger initialized\n" [] >>= fun _ => checkMultibootInfo mbd magic)
      (Machine.boot mem) = .ok () s)
    (inKernel : mem.load32 (mem.load32 (MultibootInfo.modsAddr mbd) + 4) ≤ kernelEnd) :
    ⟨0, nodeSize⟩ ∈ (final (kmain layout mbd magic (Machine.boot mem))).kallocs := by
  obtain ⟨_, printed, logs, checks⟩ := bind_ok_iff.mp checked
  obtain ⟨first, rfl⟩ := (logged_allows.logf _ _).of_ok logs
  obtain ⟨second, rfl⟩ := (checkMultibootInfo_logged mbd magic).of_ok checks
  have passes : decide (mem.load32 (mem.load32 (MultibootInfo.modsAddr mbd) + 4) > kernelEnd) =
      false := by
    rw [decide_eq_false_iff_not, gt_iff_lt, UInt32.lt_iff_toNat_lt, Nat.not_lt,
      ← UInt32.le_iff_toNat_le]
    exact inKernel
  obtain ⟨third, logsStart⟩ : ∃ third, logf "initrd_start: %x\n"
      [.number (mem.load32 (mem.load32 (MultibootInfo.modsAddr mbd)))]
      ((Machine.boot mem).withSerial second) = .ok () ((Machine.boot mem).withSerial third) :=
    ⟨_, logf_numbers _ [_]⟩
  obtain ⟨fourth, logsEnd⟩ : ∃ fourth, logf "initrd_end: %x\n"
      [.number (mem.load32 (mem.load32 (MultibootInfo.modsAddr mbd) + 4))]
      ((Machine.boot mem).withSerial third) = .ok () ((Machine.boot mem).withSerial fourth) :=
    ⟨_, logf_numbers _ [_]⟩
  have globals : ∀ serial, ((Machine.boot mem).withSerial serial).mem = mem := fun _ => rfl
  rw [kmain, bind_of_ok logs, bind_of_ok checks, bind_of_ok (getWord_run _ _),
    bind_of_ok (getWord_run _ _), bind_of_ok (getWord_run _ _), bind_of_ok (getWord_run _ _)]
  simp only [Machine.withSerial_withSerial, globals]
  rw [bind_of_ok logsStart, bind_of_ok logsEnd, bind_of_ok (panicIf_run passes)]
  obtain ⟨granted, returned, kallocs⟩ := heapAllocate_untouched layout (untouched_boot mem fourth)
    (by decide : 0 < nodeSize.toNat) (by decide)
  have grown := Respects.after grown_allows.trans
    (initFilesystem_grown layout (mem.load32 (mem.load32 (MultibootInfo.modsAddr mbd)))
      (mem.load32 (mem.load32 (MultibootInfo.modsAddr mbd) + 4)) returned)
    fun _ => grown_allows.bind (grown_allows.logf "Filesystem Initialized\n" []) fun _ =>
      (grown_allows.halt (.panic "stop") : Respects Grown (halt (.panic "stop") : Kernel Unit))
  apply grown
  rw [kallocs]
  exact List.mem_append_right _ (List.mem_singleton.mpr rfl)

/-- The block at address 0 is no block of the heap. -/
theorem not_kallocsInHeap (first : ⟨0, nodeSize⟩ ∈ s.kallocs) : ¬ KallocsInHeap s :=
  fun inHeap => (inHeap _ first).1 rfl

/-- No boot that gets as far as the filesystem keeps the blocks in the heap. -/
theorem kmain_not_inHeap (layout : Layout)
    (checked : (logf "Logger initialized\n" [] >>= fun _ => checkMultibootInfo mbd magic)
      (Machine.boot mem) = .ok () s)
    (inKernel : mem.load32 (mem.load32 (MultibootInfo.modsAddr mbd) + 4) ≤ kernelEnd) :
    ¬ KallocsInHeap (final (kmain layout mbd magic (Machine.boot mem))) :=
  not_kallocsInHeap (kmain_first_block layout checked inKernel)

end Kmain

/-- Boot information at 0x9000 with one module, whose ramdisk is empty and lies at
0x00280000. -/
def emptyRamdisk : Bytes :=
  (((Bytes.store32 (fun _ => 0) (MultibootInfo.modsCount 0x9000) 1).store32
    (MultibootInfo.modsAddr 0x9000) 0xA000).store32 0xA000 0x00280000).store32 0xA004 0x00280000

theorem emptyRamdisk_checked : ∃ s,
    (logf "Logger initialized\n" [] >>= fun _ =>
      checkMultibootInfo 0x9000 multibootBootloaderMagic) (Machine.boot emptyRamdisk) =
        .ok () s := by
  have flags : emptyRamdisk.load32 (MultibootInfo.flags 0x9000) = 0 := by decide
  have modules : decide (emptyRamdisk.load32 (MultibootInfo.modsCount 0x9000) ≤ 0) = false := by
    decide
  have noMemory :
      ¬ (emptyRamdisk.load32 (MultibootInfo.flags 0x9000)) &&& multibootInfoMemory ≠ 0 := by
    rw [flags]
    decide
  have noMap :
      ¬ (emptyRamdisk.load32 (MultibootInfo.flags 0x9000)) &&& multibootInfoMemMap ≠ 0 := by
    rw [flags]
    decide
  have memory : ∀ s : Machine, s.mem = emptyRamdisk → logMemory 0x9000 s = .ok () s := by
    intro s same
    rw [logMemory, bind_of_ok (getWord_run _ _), same, if_neg noMemory, pure_run]
  have map : ∀ s : Machine, s.mem = emptyRamdisk → logMemoryMap 0x9000 s = .ok () s := by
    intro s same
    rw [logMemoryMap, bind_of_ok (getWord_run _ _), same, if_neg noMap, pure_run]
  have magic : ∀ s : Machine, checkMagic multibootBootloaderMagic s = .ok () s := fun s => by
    rw [checkMagic, if_neg (not_not.mpr rfl), pure_run]
  obtain ⟨serial, logs⟩ : ∃ serial, logf "Logger initialized\n" [] (Machine.boot emptyRamdisk) =
      .ok () ((Machine.boot emptyRamdisk).withSerial serial) := ⟨_, logf_numbers _ []⟩
  obtain ⟨serial', logsFlags⟩ : ∃ serial', logf "mbd->flags: %x\n"
      [.number (emptyRamdisk.load32 (MultibootInfo.flags 0x9000))]
      ((Machine.boot emptyRamdisk).withSerial serial) =
      .ok () ((Machine.boot emptyRamdisk).withSerial serial') := ⟨_, logf_numbers _ [_]⟩
  have same : ((Machine.boot emptyRamdisk).withSerial serial).mem = emptyRamdisk := rfl
  refine ⟨(Machine.boot emptyRamdisk).withSerial serial', ?_⟩
  rw [bind_of_ok logs, checkMultibootInfo, bind_of_ok (magic _), bind_of_ok (getWord_run _ _),
    same, bind_of_ok logsFlags, bind_of_ok (memory _ rfl), bind_of_ok (map _ rfl),
    bind_of_ok (getWord_run _ _)]
  exact panicIf_run modules

theorem kmain_not_inHeap_emptyRamdisk :
    ¬ KallocsInHeap (final (kmain Layout.sample 0x9000 multibootBootloaderMagic
      (Machine.boot emptyRamdisk))) := by
  obtain ⟨s, checked⟩ := emptyRamdisk_checked
  exact kmain_not_inHeap Layout.sample checked (by decide)

/-- Booting with an empty ramdisk, which `read_ramdisk` accepts in every state, puts
the root directory at address 0. -/
theorem kmain_hands_out_null :
    emptyRamdisk.load32 (MultibootInfo.modsCount 0x9000) = 1 ∧
    (∀ s, ∃ after, readRamdisk Layout.sample (Paging.heapAllocate Layout.sample)
      (emptyRamdisk.load32 0xA000) (emptyRamdisk.load32 0xA004) s = .ok () after) ∧
    ¬ KallocsInHeap (final (kmain Layout.sample 0x9000 multibootBootloaderMagic
      (Machine.boot emptyRamdisk))) := by
  obtain ⟨s, checked⟩ := emptyRamdisk_checked
  refine ⟨by decide, fun s => ?_, not_kallocsInHeap (kmain_first_block Layout.sample checked
    (by decide))⟩
  have logs : ∃ serial, logf "===== READING FROM RAMDISK =====\n" [] s =
      .ok () (s.withSerial serial) := ⟨_, logf_numbers _ []⟩
  obtain ⟨serial, logs⟩ := logs
  have done : decide (emptyRamdisk.load32 0xA000 < emptyRamdisk.load32 0xA004) = false := by decide
  have blocks : readBlocks Layout.sample (Paging.heapAllocate Layout.sample)
      (emptyRamdisk.load32 0xA004) (emptyRamdisk.load32 0xA000) (s.withSerial serial) =
      .ok _ (s.withSerial serial) := loop_done done
  exact ⟨_, by rw [readRamdisk, bind_of_ok logs, bind_of_ok blocks, pure_run]⟩

end TorchOS.Boot
