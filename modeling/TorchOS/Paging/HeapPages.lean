import TorchOS.Paging.Identity

/-!
# Heap pages are mapped in time and never shared

The heap takes page `k` of its area in turn, and with it frame `k` of the frame
area and, at every fourth megabyte, the next page table. Neither area is used up
before the heap is: the frame area holds more frames and the page table area more
tables than the heap has use for. The tables and the directory that this needs
translate to themselves throughout, also where the third directory entry's table
is handed out again.
-/

namespace TorchOS.Paging

open Base Base.Program

/-! ## Pages of the heap and of the frame area -/

/-- Page `k` of the heap area. -/
def heapPage (k : Nat) : UInt32 := heapAllocatorAreaStart + pageSize * UInt32.ofNat k

/-- The page that bit `k` of the page frame bitmap stands for. -/
def framePage (k : Nat) : UInt32 := pageFrameAllocatorAreaStart + pageSize * UInt32.ofNat k

/-- The bit of the page frame bitmap that stands for a page. -/
def frameIndex (frame : UInt32) : Nat := (frame.toNat - 0x00900000) / 4096

section Pages

variable {k : Nat}

theorem toNat_heapPage (inside : k ≤ 8192) : (heapPage k).toNat = 0x0F000000 + 4096 * k := by
  rw [heapPage, UInt32.toNat_add, UInt32.toNat_mul, UInt32.toNat_ofNat', toNat_pageSize,
    toNat_heapAllocatorAreaStart]
  omega

theorem heapPage_aligned (inside : k ≤ 8192) : PageAligned (heapPage k) := by
  rw [PageAligned, toNat_heapPage inside]
  omega

/-- A page of the mapped heap is one of the pages counted. -/
theorem heapPage_of_aligned {address : UInt32} (aligned : PageAligned address)
    (above : heapAllocatorAreaStart.toNat ≤ address.toNat) {count : Nat} (inside : count ≤ 8192)
    (below : address.toNat < (heapPage count).toNat) : ∃ k < count, address = heapPage k := by
  rw [toNat_heapAllocatorAreaStart] at above
  rw [toNat_heapPage inside] at below
  unfold PageAligned at aligned
  refine ⟨(address.toNat - 0x0F000000) / 4096, by omega, ?_⟩
  rw [← UInt32.toNat_inj, toNat_heapPage (by omega)]
  omega

/-- The heap is served by eight directory entries, its pages in the order of the
entries of their tables. -/
theorem heapPage_indices (inside : k < 8192) :
    (getPageDirectoryIndex (heapPage k)).toNat = 60 + k / 1024 ∧
      (getPageTableIndex (heapPage k)).toNat = k % 1024 := by
  rw [getPageDirectoryIndex, getPageTableIndex, Word.toNat_shiftRight_22,
    Word.toNat_shiftRight_12_and, toNat_heapPage (by omega)]
  omega

theorem heapPage_outside (inside : k < 8192) : ¬ IdentityPage (heapPage k) := by
  rw [identityPage_iff, toNat_heapPage (by omega)]
  omega

theorem toNat_framePage (inside : k < 8192) : (framePage k).toNat = 0x00900000 + 4096 * k := by
  rw [framePage, UInt32.toNat_add, UInt32.toNat_mul, UInt32.toNat_ofNat', toNat_pageSize,
    toNat_pageFrameAllocatorAreaStart]
  omega

theorem framePage_aligned (inside : k < 8192) : PageAligned (framePage k) := by
  rw [PageAligned, toNat_framePage inside]
  omega

theorem framePage_inFrames (inside : k < 8192) : InFrameArea (framePage k) := by
  rw [InFrameArea, toNat_framePage inside]
  omega

theorem frameIndex_framePage (inside : k < 8192) : frameIndex (framePage k) = k := by
  rw [frameIndex, toNat_framePage inside]
  omega

end Pages

/-! ## The tables of the heap -/

/-- The number of page tables that serve the first `count` pages of the heap. -/
def tablesFor (count : Nat) : Nat := (count + 1023) / 1024

/-- The first `used` directory entries of the heap hold the first `used` tables of
the page table area, whose bits alone are set; the heap's other entries are absent. -/
structure HeapTables (layout : Layout) (used : Nat) (s : Machine) : Prop where
  marked : s.pageTableBitmap.Filled used
  held : ∀ k < 8192, k / 1024 < used →
    directoryEntry s.mem layout.pageDirectory (heapPage k) = tablePage (k / 1024) ||| 3
  absent : ∀ k < 8192, used ≤ k / 1024 →
    isPresent (directoryEntry s.mem layout.pageDirectory (heapPage k)) = false

section Tables

variable {layout : Layout} {s : Machine} {count k : Nat}

theorem HeapTables.served {used : Nat} (tables : HeapTables layout used s) (inside : k < 8192)
    (below : k / 1024 < used) :
    isPresent (directoryEntry s.mem layout.pageDirectory (heapPage k)) = true ∧
      servingTable s.mem layout.pageDirectory (heapPage k) = tablePage (k / 1024) := by
  have aligned : PageAligned (tablePage (k / 1024)) := tablePage_aligned (by omega)
  rw [servingTable, tables.held k inside below]
  exact ⟨isPresent_or_three aligned, getPageTableAddress_or_three aligned⟩

/-- The tables look at the heap's directory entries and at the bitmap only. -/
theorem HeapTables.congr {used : Nat} {t : Machine} (tables : HeapTables layout used s)
    (bitmap : t.pageTableBitmap = s.pageTableBitmap)
    (entries : ∀ k < 8192, directoryEntry t.mem layout.pageDirectory (heapPage k) =
      directoryEntry s.mem layout.pageDirectory (heapPage k)) : HeapTables layout used t := by
  refine ⟨by rw [bitmap]; exact tables.marked, fun k inside below => ?_, fun k inside past => ?_⟩
  · rw [entries k inside]
    exact tables.held k inside below
  · rw [entries k inside]
    exact tables.absent k inside past

/-- Preparing the next page of the heap takes the next table where one is due. -/
theorem HeapTables.prepare (tables : HeapTables layout (tablesFor count) s)
    (room : count < 8192) :
    ∃ ready, Prepared layout s (heapPage count) (tablePage (count / 1024)) ready ∧
      HeapTables layout (tablesFor (count + 1)) ready ∧ SameGlobals s ready ∧
      ready.pageFrameBitmap = s.pageFrameBitmap := by
  by_cases first : count % 1024 = 0
  · have due : tablesFor count = count / 1024 := by
      unfold tablesFor
      omega
    have next : tablesFor (count + 1) = count / 1024 + 1 := by
      unfold tablesFor
      omega
    have absent := tables.absent count room (by omega)
    obtain ⟨bitmap, taken, marked⟩ := (due ▸ tables.marked).firstFit (by
      rw [pageTableBitmapSize_eq]
      omega)
    refine ⟨_, .added absent taken, ?_, ⟨rfl, rfl, rfl, rfl, rfl, rfl, rfl⟩, rfl⟩
    have entry : ∀ k < 8192, directoryEntry
        (tableAdded s layout.pageDirectory (heapPage count) (count / 1024) bitmap).mem
        layout.pageDirectory (heapPage k) =
        if k / 1024 = count / 1024 then tablePage (count / 1024) ||| 3
        else directoryEntry s.mem layout.pageDirectory (heapPage k) := by
      intro k inside
      have same : getPageDirectoryIndex (heapPage k) = getPageDirectoryIndex (heapPage count) ↔
          k / 1024 = count / 1024 := by
        rw [Word.toNat_inj_iff, (heapPage_indices inside).1, (heapPage_indices room).1]
        omega
      refine (entryAt_store32 layout.pageDirectory_aligned (getPageDirectoryIndex_lt _)
        (getPageDirectoryIndex_lt _)).trans ?_
      simp only [same]
      rfl
    refine ⟨next ▸ marked, fun k inside below => ?_, fun k inside past => ?_⟩
    · rw [entry k inside]
      split
      next same => rw [same]
      next other => exact tables.held k inside (by omega)
    · rw [entry k inside, if_neg (by omega)]
      exact tables.absent k inside (by omega)
  · have same : tablesFor (count + 1) = tablesFor count := by
      unfold tablesFor
      omega
    obtain ⟨present, serves⟩ := tables.served room (by unfold tablesFor; omega)
    exact ⟨s, serves ▸ .present present, same ▸ tables, .refl s, rfl⟩

end Tables

/-! ## The invariant -/

/-- The tables while `count` heap pages are mapped: page `k` to frame `k`, the
frames before `count` alone taken, and every identity page below the one that the
third directory entry serves still mapped to itself. -/
structure HeapPages (layout : Layout) (index count : Nat) (s : Machine) : Prop extends
    DirectoryKept layout index s where
  low : ∀ address, IdentityPage address → address.toNat < 0x00800000 →
    walk s.mem layout.pageDirectory address = some address
  frames : s.pageFrameBitmap.Filled count
  tables : HeapTables layout (tablesFor count) s
  pages : ∀ k < count, walk s.mem layout.pageDirectory (heapPage k) = some (framePage k)

section Invariant

variable {layout : Layout} {index count : Nat} {s : Machine}

theorem HeapPages.directory_itself (holds : HeapPages layout index count s) :
    walk s.mem layout.pageDirectory layout.pageDirectory = some layout.pageDirectory := by
  have upper := layout.pageDirectory_inKernel.2
  rw [UInt32.lt_iff_toNat_lt, toNat_kernelEnd] at upper
  exact holds.low _ (pageDirectory_identity layout) (by omega)

/-- The tables the heap uses lie where the second boot page table maps. -/
theorem HeapPages.table_itself (holds : HeapPages layout index count s) {table : Nat}
    (inside : table < 8) :
    walk s.mem layout.pageDirectory (tablePage table) = some (tablePage table) := by
  refine holds.low _ (tablePage_identity (by omega)) ?_
  rw [toNat_tablePage (by omega)]
  omega

/-- An identity page below the third directory entry's is served by a boot table. -/
theorem low_index {address : UInt32} (below : address.toNat < 0x00800000) :
    getPageDirectoryIndex address = 0 ∨ getPageDirectoryIndex address = 1 := by
  rw [Word.toNat_inj_iff, Word.toNat_inj_iff, getPageDirectoryIndex, Word.toNat_shiftRight_22]
  change _ = 0 ∨ _ = 1
  omega

/-- The invariant looks at memory through the tables only, and not at the heap's
own counters. -/
theorem HeapPages.congr (holds : HeapPages layout index count s) {t : Machine}
    (same : SameTables s.mem t.mem) (paging : t.paging = s.paging) (cr3 : t.cr3 = s.cr3)
    (frames : t.pageFrameBitmap = s.pageFrameBitmap)
    (tables : t.pageTableBitmap = s.pageTableBitmap) : HeapPages layout index count t := by
  have directory := (holds.sameEntries same).directory
  refine ⟨holds.toDirectoryKept.congr directory paging cr3, ?_, frames ▸ holds.frames,
    holds.tables.congr tables fun k _ => directory _ (getPageDirectoryIndex_lt _), ?_⟩
  · intro address identity below
    exact (holds.walk_sameTables same address).trans (holds.low address identity below)
  · intro k inside
    exact (holds.walk_sameTables same _).trans (holds.pages k inside)

end Invariant

/-! ## One more page -/

section Step

variable {layout : Layout} {index count : Nat} {s : Machine}

theorem HeapPages.takePageFrame_run (holds : HeapPages layout index count s)
    (room : count < 8192) :
    ∃ bitmap, takePageFrame s = .ok (framePage count) { s with pageFrameBitmap := bitmap } ∧
      bitmap.Filled (count + 1) := by
  obtain ⟨bitmap, taken, filled⟩ := holds.frames.firstFit (by
    rw [pageFrameBitmapSize_eq]
    omega)
  refine ⟨bitmap, ?_, filled⟩
  simp only [takePageFrame, taken]
  rfl

/-- Mapping the next page of the heap to the next frame returns, and leaves the
tables for one page more. -/
theorem HeapPages.mapPage_run (holds : HeapPages layout index count s) (room : count < 8192)
    {bitmap : Bitmap pageFrameBitmapSize} (filled : bitmap.Filled (count + 1)) :
    ∃ after, mapPage layout.pageDirectory (heapPage count) (framePage count)
        { s with pageFrameBitmap := bitmap } = .ok () after ∧
      HeapPages layout index (count + 1) after ∧ SameGlobals s after := by
  have aligned := heapPage_aligned (Nat.le_of_lt room)
  have frameAligned := framePage_aligned room
  have taken : DirectoryKept layout index { s with pageFrameBitmap := bitmap } :=
    holds.toDirectoryKept.congr (fun _ _ => rfl) rfl rfl
  have tables : HeapTables layout (tablesFor count) { s with pageFrameBitmap := bitmap } :=
    holds.tables.congr rfl fun _ _ => rfl
  obtain ⟨ready, prepared, readyTables, globals, frames⟩ := tables.prepare room
  have kept := taken.keepsPrepared prepared
  obtain ⟨-, walks⟩ := taken.prepared_keeps prepared
  obtain ⟨present, serves⟩ := prepared.serves
  have run := taken.mapPage_run aligned frameAligned holds.directory_itself
    (holds.table_itself (by omega)) prepared
  obtain ⟨-, entries⟩ := kept.store (framePage count ||| 3) present
  obtain ⟨_, translates⟩ := kept.storeEntry frameAligned present
  refine ⟨_, run,
    ⟨kept.keepsEntry _ present, ?_, ?_, readyTables.congr rfl fun k _ => (entries _).1, ?_⟩, ?_⟩
  · -- A boot table is shared with no other entry, so its pages keep theirs.
    intro address identity below
    have before := holds.low address identity below
    have served := (walks address (present_of_walk before)).trans before
    refine (translates address identity.1 (present_of_walk served)).trans ?_
    rw [if_neg, served]
    rintro ⟨sameTable, sameSlot⟩
    have sameIndex := kept.index_of_tableAt (entered_of_present (present_of_walk served))
      (entered_of_present present) (low_index below) sameTable
    exact heapPage_outside room (eq_of_indices identity.1 aligned sameIndex sameSlot ▸ identity)
  · change ready.pageFrameBitmap.Filled (count + 1)
    rw [frames]
    exact filled
  · intro k inside
    have small : k < 8192 := by omega
    obtain ⟨presentHere, servesHere⟩ := readyTables.served small (by unfold tablesFor; omega)
    refine (translates _ (heapPage_aligned (by omega)) presentHere).trans ?_
    by_cases last : k = count
    · subst last
      rw [if_pos ⟨rfl, rfl⟩]
    · -- Another page has another table, or another entry in the same one.
      rw [if_neg]
      · have before := holds.pages k (by omega)
        exact (walks _ (present_of_walk before)).trans before
      · rw [servesHere, serves]
        rintro ⟨sameTable, sameSlot⟩
        have quotient := tablePage_inj (by omega) (by omega) sameTable
        rw [Word.toNat_inj_iff, (heapPage_indices small).2, (heapPage_indices room).2] at sameSlot
        omega
  · exact ⟨globals.paging, globals.cr3, globals.heapCurrent, globals.heapMapped, globals.root,
      globals.kallocs, globals.serial⟩

/-- `page_frame_allocate` on the next page of the heap returns. -/
theorem HeapPages.pageFrameAllocate_run (holds : HeapPages layout index count s)
    (room : count < 8192) :
    ∃ after, pageFrameAllocate layout (heapPage count) s = .ok (heapPage count) after ∧
      HeapPages layout index (count + 1) after ∧ SameGlobals s after := by
  have aligned := heapPage_aligned (Nat.le_of_lt room)
  obtain ⟨bitmap, took, filled⟩ := holds.takePageFrame_run room
  obtain ⟨mapped, mapping, kept, globals⟩ := holds.mapPage_run room filled
  obtain ⟨mem, cleared, same⟩ := kept.clearPage_run aligned (framePage_inFrames room)
    (kept.pages count (Nat.lt_succ_self count))
  refine ⟨{ mapped with mem := mem }, ?_, kept.congr same rfl rfl rfl rfl, ?_⟩
  · unfold pageFrameAllocate
    rw [bind_of_ok (panicIf_run (check_of_aligned aligned)), bind_of_ok took, bind_of_ok mapping,
      bind_of_ok cleared]
    rfl
  · exact ⟨globals.paging, globals.cr3, globals.heapCurrent, globals.heapMapped, globals.root,
      globals.kallocs, globals.serial⟩

end Step

/-! ## One call of `heap_allocate` -/

/-- The heap while `count` of its pages are mapped, the watermark behind the last. -/
structure HeapMapped (layout : Layout) (index count : Nat) (s : Machine) : Prop extends
    HeapPages layout index count s where
  room : count ≤ 8192
  watermark : s.heapMapped = heapPage count

/-- Between two calls the top lies in the last mapped page, or at its end. -/
structure HeapReady (layout : Layout) (index count : Nat) (s : Machine) : Prop extends
    HeapMapped layout index count s where
  above : heapAllocatorAreaStart.toNat ≤ s.heapCurrent.toNat
  covered : s.heapCurrent.toNat ≤ s.heapMapped.toNat
  tight : s.heapMapped.toNat < s.heapCurrent.toNat + 4096

section Allocate

variable {layout : Layout} {index count : Nat} {s : Machine} {size : UInt32}

theorem HeapMapped.toNat_watermark (holds : HeapMapped layout index count s) :
    s.heapMapped.toNat = 0x0F000000 + 4096 * count := by
  rw [holds.watermark, toNat_heapPage holds.room]

/-- One round of the mapping loop of `heap_allocate` returns and moves the watermark
to the next page. -/
theorem HeapMapped.heapMapNext_run (holds : HeapMapped layout index count s)
    (room : count < 8192) :
    ∃ after, heapMapNext layout s = .ok () after ∧ HeapMapped layout index (count + 1) after ∧
      after.heapCurrent = s.heapCurrent := by
  obtain ⟨grown, allocated, kept, globals⟩ := holds.pageFrameAllocate_run room
  refine ⟨{ grown with heapMapped := grown.heapMapped + pageSize }, ?_,
    ⟨kept.congr (.refl _) rfl rfl rfl rfl, room, ?_⟩, globals.heapCurrent⟩
  · unfold heapMapNext
    rw [bind_of_ok (read_run _ _), holds.watermark, bind_of_ok allocated]
    rfl
  · change grown.heapMapped + pageSize = heapPage (count + 1)
    rw [globals.heapMapped, ← UInt32.toNat_inj, UInt32.toNat_add, toNat_pageSize,
      holds.toNat_watermark, toNat_heapPage (by omega)]
    omega

/-- The mapping loop returns with the request covered, and less than a page more. -/
theorem HeapMapped.heapMapUpTo_run (holds : HeapMapped layout index count s)
    (limit : (s.heapCurrent + size).toNat ≤ heapAllocatorAreaEnd.toNat)
    (tight : s.heapMapped.toNat < (s.heapCurrent + size).toNat + 4096) :
    ∃ grown reached, heapMapUpTo layout size s = .ok () grown ∧
      HeapMapped layout index reached grown ∧ grown.heapCurrent = s.heapCurrent ∧
      (s.heapCurrent + size).toNat ≤ grown.heapMapped.toNat ∧
      grown.heapMapped.toNat < (s.heapCurrent + size).toNat + 4096 := by
  let Inv : Unit → Machine → Prop := fun _ t =>
    (∃ reached, HeapMapped layout index reached t) ∧ t.heapCurrent = s.heapCurrent ∧
      t.heapMapped.toNat < (s.heapCurrent + size).toNat + 4096
  let variant : Unit → Machine → Nat := fun _ t =>
    (s.heapCurrent + size).toNat - t.heapMapped.toNat
  have round : ∀ value t, Inv value t → decide (t.heapCurrent + size > t.heapMapped) = true →
      Yields (heapMapNext layout t)
        (fun next after => Inv next after ∧ variant next after < variant value t)
        (fun _ => False) := by
    rintro _ t ⟨⟨reached, mapped⟩, current, _⟩ again
    rw [decide_eq_true_eq, current, gt_iff_lt, UInt32.lt_iff_toNat_lt] at again
    rw [toNat_heapAllocatorAreaEnd] at limit
    have here := mapped.toNat_watermark
    -- The request ends in the heap area, so there is a page left to map.
    obtain ⟨after, run, kept, same⟩ := mapped.heapMapNext_run (by omega)
    have next := kept.toNat_watermark
    rw [run]
    refine ⟨⟨⟨_, kept⟩, same.trans current, ?_⟩, ?_⟩
    · omega
    · change _ - after.heapMapped.toNat < _ - t.heapMapped.toNat
      omega
  have enough : variant () s < loopBound := by
    have wide := (s.heapCurrent + size).toNat_lt
    simp only [variant, loopBound]
    omega
  obtain ⟨_, grown, run, ⟨⟨reached, mapped⟩, current, upper⟩, done⟩ :=
    (Yields.loop round ⟨⟨count, holds⟩, rfl, tight⟩ enough).returns
  rw [decide_eq_false_iff_not, current, gt_iff_lt, UInt32.lt_iff_toNat_lt, Nat.not_lt] at done
  exact ⟨grown, reached, run, mapped, current, done, upper⟩

/-- Every page of the mapped heap translates to a page of the frame area. -/
theorem HeapMapped.heap (holds : HeapMapped layout index count s) (address : UInt32)
    (aligned : PageAligned address) (above : heapAllocatorAreaStart.toNat ≤ address.toNat)
    (below : address.toNat < s.heapMapped.toNat) :
    ∃ frame, PageAligned frame ∧ InFrameArea frame ∧
      walk s.mem layout.pageDirectory address = some frame := by
  have room := holds.room
  rw [holds.watermark] at below
  obtain ⟨k, inside, rfl⟩ := heapPage_of_aligned aligned above room below
  have small : k < 8192 := by omega
  exact ⟨framePage k, framePage_aligned small, framePage_inFrames small, holds.pages k inside⟩

/-- The machine once a block is handed out: the top behind the block. -/
def blockGranted (s : Machine) (start size : UInt32) : Machine :=
  { s with heapCurrent := start + size, kallocs := s.kallocs ++ [⟨start, size⟩] }

/-- A call whose block ends in the heap area maps every byte of the block, clears it,
moves the top behind it and returns it; the heap is ready for the next call. -/
theorem HeapReady.heapAllocate_run (holds : HeapReady layout index count s)
    (limit : s.heapCurrent.toNat + size.toNat ≤ heapAllocatorAreaEnd.toNat) :
    ∃ grown cleared after reached, heapMapUpTo layout size s = .ok () grown ∧
      grown.heapCurrent = s.heapCurrent ∧
      (∀ i < size.toNat, ∃ target, InFrameArea target ∧
        walk grown.mem layout.pageDirectory (grown.heapCurrent + UInt32.ofNat i) = some target) ∧
      memset grown.heapCurrent 0 size grown = .ok () cleared ∧
      heapAllocate layout size s = .ok s.heapCurrent after ∧
      after = blockGranted cleared s.heapCurrent size ∧ HeapReady layout index reached after := by
  have above := holds.above
  have tight := holds.tight
  have below : s.heapCurrent.toNat + size.toNat < 2 ^ 32 := by
    rw [toNat_heapAllocatorAreaEnd] at limit
    omega
  have top : (s.heapCurrent + size).toNat = s.heapCurrent.toNat + size.toNat := by
    rw [UInt32.toNat_add]
    omega
  obtain ⟨grown, reached, mapping, mapped, current, covered, upper⟩ :=
    holds.toHeapMapped.heapMapUpTo_run (by omega : (s.heapCurrent + size).toNat ≤ _) (by omega)
  have bytes : ∀ i < size.toNat, ∃ target, InFrameArea target ∧
      walk grown.mem layout.pageDirectory (grown.heapCurrent + UInt32.ofNat i) = some target :=
    heap_block mapped.heap (current ▸ above) (current ▸ below) (current ▸ covered)
  obtain ⟨mem, cleared, same⟩ := mapped.memset_run grown.heapCurrent 0 size bytes
  have passes : decide (s.heapCurrent + size > heapAllocatorAreaEnd) = false := by
    rw [decide_eq_false_iff_not, gt_iff_lt, UInt32.lt_iff_toNat_lt]
    omega
  let after : Machine := blockGranted { grown with mem := mem } s.heapCurrent size
  have moved : after.heapCurrent.toNat = s.heapCurrent.toNat + size.toNat := top
  have run : heapAllocate layout size s = .ok s.heapCurrent after := by
    unfold heapAllocate
    rw [bind_of_ok (read_run _ _), bind_of_ok (panicIf_run passes), bind_of_ok mapping,
      bind_of_ok (read_run _ _), bind_of_ok cleared]
    simp only [after, blockGranted, ← current]
    rfl
  refine ⟨grown, _, after, reached, mapping, current, bytes, cleared, run, rfl, ?_⟩
  refine ⟨⟨mapped.congr same rfl rfl rfl rfl, mapped.room, mapped.watermark⟩, ?_, ?_, ?_⟩
  · omega
  · change _ ≤ grown.heapMapped.toNat
    omega
  · change grown.heapMapped.toNat < _
    omega

/-- A call whose block would end past the heap area panics before it maps anything. -/
theorem heapAllocate_overflows (layout : Layout)
    (fits : s.heapCurrent.toNat + size.toNat < 2 ^ 32)
    (past : heapAllocatorAreaEnd.toNat < s.heapCurrent.toNat + size.toNat) :
    heapAllocate layout size s = .error (.panic "Heap is overflowing! Cannot allocate!") s := by
  have fails : decide (s.heapCurrent + size > heapAllocatorAreaEnd) = true := by
    rw [decide_eq_true_eq, gt_iff_lt, UInt32.lt_iff_toNat_lt, UInt32.toNat_add]
    omega
  unfold heapAllocate
  rw [bind_of_ok (read_run _ _), bind_of_error (panicIf_panics fails)]

end Allocate

/-! ## Runs of calls -/

/-- A page of the heap below the watermark. -/
def MappedHeapPage (s : Machine) (address : UInt32) : Prop :=
  PageAligned address ∧ heapAllocatorAreaStart.toNat ≤ address.toNat ∧
    address.toNat < s.heapMapped.toNat

/-- The heap's counters are in order, and every mapped heap page has a frame of the
frame area of its own that is marked as taken. -/
structure HeapSound (layout : Layout) (s : Machine) : Prop where
  above : heapAllocatorAreaStart.toNat ≤ s.heapCurrent.toNat
  covered : s.heapCurrent.toNat ≤ s.heapMapped.toNat
  limit : s.heapMapped.toNat ≤ heapAllocatorAreaEnd.toNat
  aligned : PageAligned s.heapMapped
  tight : s.heapMapped.toNat - s.heapCurrent.toNat < 4096
  backed : ∀ address, MappedHeapPage s address → ∃ frame,
    walk s.mem layout.pageDirectory address = some frame ∧ PageAligned frame ∧
      InFrameArea frame ∧ s.pageFrameBitmap.isSet (frameIndex frame) = true
  unshared : ∀ left right, MappedHeapPage s left → MappedHeapPage s right →
    walk s.mem layout.pageDirectory left = walk s.mem layout.pageDirectory right → left = right

/-- What a call of `heap_allocate` does. Where the block would end past the heap area
it panics; elsewhere the mapping loop ends with every byte of the block mapped, then
the block is cleared, the top is moved behind it, and the call returns it: it leaves
what mapping and clearing leave, but for the top. -/
structure HeapServes (layout : Layout) (s : Machine) (size : UInt32) : Prop where
  overflows : heapAllocatorAreaEnd.toNat < s.heapCurrent.toNat + size.toNat →
    heapAllocate layout size s = .error (.panic "Heap is overflowing! Cannot allocate!") s
  serves : s.heapCurrent.toNat + size.toNat ≤ heapAllocatorAreaEnd.toNat →
    ∃ grown cleared after, heapMapUpTo layout size s = .ok () grown ∧
      grown.heapCurrent = s.heapCurrent ∧
      (∀ i < size.toNat, ∃ target, InFrameArea target ∧
        walk grown.mem layout.pageDirectory (grown.heapCurrent + UInt32.ofNat i) = some target) ∧
      memset grown.heapCurrent 0 size grown = .ok () cleared ∧
      heapAllocate layout size s = .ok s.heapCurrent after ∧
      after = blockGranted cleared s.heapCurrent size

section Runs

variable {layout : Layout} {index count : Nat} {s after : Machine}

theorem Booted.heapReady (booted : Booted layout index s) : HeapReady layout index 0 s := by
  have start := booted.identity_holds
  have none : tablesFor 0 = 0 := rfl
  have counters : s.heapMapped = heapPage 0 := booted.heapMapped
  refine ⟨⟨⟨start.toDirectoryKept, fun address identity _ => start.identity address identity, ?_,
    ⟨?_, ?_, ?_⟩, ?_⟩, Nat.zero_le _, counters⟩, ?_, ?_, ?_⟩
  · rw [booted.frameBitmap]
    exact Bitmap.filled_clear
  · rw [booted.tableBitmap]
    exact Bitmap.filled_clear
  · intro k _ below
    rw [none] at below
    omega
  · intro k inside _
    have position := (heapPage_indices inside).1
    exact booted.absent _ (by omega) (getPageDirectoryIndex_lt _)
  · intro k below
    omega
  · rw [booted.heapCurrent]
  · rw [booted.heapCurrent, booted.heapMapped]
  · rw [booted.heapCurrent, booted.heapMapped]
    omega

theorem HeapReady.sound (holds : HeapReady layout index count s) : HeapSound layout s := by
  have top := holds.toNat_watermark
  have room := holds.room
  have tight := holds.tight
  have pages : ∀ address, MappedHeapPage s address → ∃ k < count, address = heapPage k := by
    rintro address ⟨aligned, above, below⟩
    exact heapPage_of_aligned aligned above room (holds.watermark ▸ below)
  refine ⟨holds.above, holds.covered, ?_, ?_, by omega, ?_, ?_⟩
  · rw [toNat_heapAllocatorAreaEnd]
    omega
  · rw [holds.watermark]
    exact heapPage_aligned room
  · intro address mapped
    obtain ⟨k, inside, rfl⟩ := pages address mapped
    have small : k < 8192 := by omega
    refine ⟨framePage k, holds.pages k inside, framePage_aligned small, framePage_inFrames small, ?_⟩
    rw [frameIndex_framePage small, holds.frames k]
    exact decide_eq_true inside
  · intro left right leftMapped rightMapped same
    obtain ⟨i, leftInside, rfl⟩ := pages left leftMapped
    obtain ⟨j, rightInside, rfl⟩ := pages right rightMapped
    rw [holds.pages i leftInside, holds.pages j rightInside, Option.some_inj] at same
    have index := congrArg frameIndex same
    rw [frameIndex_framePage (by omega), frameIndex_framePage (by omega)] at index
    rw [index]

theorem HeapReady.serves (holds : HeapReady layout index count s) {size : UInt32}
    (fits : s.heapCurrent.toNat + size.toNat < 2 ^ 32) : HeapServes layout s size := by
  refine ⟨heapAllocate_overflows layout fits, fun limit => ?_⟩
  obtain ⟨grown, cleared, after, _, mapping, current, bytes, clears, run, moved, _⟩ :=
    holds.heapAllocate_run limit
  exact ⟨grown, cleared, after, mapping, current, bytes, clears, run, moved⟩

/-- A call that returns leaves the heap ready for the next one. -/
theorem HeapReady.returns (holds : HeapReady layout index count s) {size ret : UInt32}
    (fits : s.heapCurrent.toNat + size.toNat < 2 ^ 32)
    (returned : heapAllocate layout size s = .ok ret after) :
    ∃ reached, HeapReady layout index reached after := by
  by_cases limit : s.heapCurrent.toNat + size.toNat ≤ heapAllocatorAreaEnd.toNat
  · obtain ⟨_, _, _, reached, _, _, _, _, run, _, ready⟩ := holds.heapAllocate_run limit
    rw [returned] at run
    cases run
    exact ⟨reached, ready⟩
  · rw [heapAllocate_overflows layout fits (by omega)] at returned
    cases returned

theorem HeapReady.run {sizes : List UInt32} (holds : HeapReady layout index count s)
    (fits : NeverWraps layout s sizes)
    (run : Allocation.Run layout s (sizes.map .heap) after) :
    ∃ reached, HeapReady layout index reached after := by
  induction sizes generalizing s count with
  | nil =>
      cases run
      exact ⟨count, holds⟩
  | cons size rest ih =>
      obtain ⟨here, later⟩ := fits
      cases run with
      | call returned tail =>
          obtain ⟨_, ready⟩ := holds.returns here returned
          exact ih ready (later _ _ returned) tail

/-- After an `init_paging` whose clearing of the page table bitmap spares the other arrays,
and any run of `heap_allocate` calls that return and whose sizes do not carry the heap top
past 2^32, the heap is sound; and the next call panics exactly where its block would end
past the heap area, and else maps its block before it clears it. -/
theorem heapRun_sound {start : Machine} (spares : OverrunSpares layout)
    (unpaged : s.paging = false) (booted : initPaging layout s = .ok () start)
    (sizes : List UInt32)
    (fits : NeverWraps layout start sizes)
    (run : Allocation.Run layout start (sizes.map .heap) after) :
    HeapSound layout after ∧ ∀ size : UInt32,
      after.heapCurrent.toNat + size.toNat < 2 ^ 32 → HeapServes layout after size := by
  obtain ⟨index, _, _, state⟩ := (initPaging_boots layout unpaged spares).of_ok booted
  obtain ⟨_, ready⟩ := state.heapReady.run fits run
  exact ⟨ready.sound, fun _ next => ready.serves next⟩

end Runs

/-- After a boot on zeroed memory, a block of two pages and a bit and then one that
would end past the heap area. -/
theorem heapRun_sound_two_calls :
    ∃ start after, initPaging Layout.sample (Machine.boot fun _ => 0) = .ok () start ∧
      Allocation.Run Layout.sample start ([0x2004].map .heap) after ∧
      HeapSound Layout.sample after ∧ HeapServes Layout.sample after 0x02000000 := by
  obtain ⟨start, returned, booted⟩ := initPaging_of_boot overrunSpares_sample fun _ => 0
  have ready := booted.heapReady
  have block : start.heapCurrent.toNat + (0x2004 : UInt32).toNat ≤
      heapAllocatorAreaEnd.toNat := by
    rw [booted.heapCurrent]
    decide
  obtain ⟨_, _, after, _, _, _, _, _, granted, _⟩ := ready.heapAllocate_run block
  have run : Allocation.Run Layout.sample start ([0x2004].map .heap) after := .call granted .done
  have fits : NeverWraps Layout.sample start [0x2004] := by
    refine ⟨?_, fun _ _ _ => trivial⟩
    rw [booted.heapCurrent]
    decide
  have unpaged : (Machine.boot fun _ => 0).paging = false := rfl
  have served := heapRun_sound overrunSpares_sample unpaged returned [0x2004] fits run
  have current := ((heapAllocate_yields Layout.sample start _).of_ok granted).2.2.1
  refine ⟨start, after, returned, run, served.1, served.2 _ ?_⟩
  rw [current, booted.heapCurrent]
  decide

end TorchOS.Paging
