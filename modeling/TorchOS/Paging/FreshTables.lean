import TorchOS.Base.Run
import TorchOS.Paging.HeapPages

/-!
# What a new page table maps

`page_table_allocate` hands out a page as it is, so `map_page` maps with a new table
whatever entries the page holds already: it maps the page asked for alone exactly
when that page of memory holds no other present entry. Where every table taken is
fresh in this sense no two directory entries ever share a table, not even the one
that `init_page_table_allocator` believes free.
-/

namespace TorchOS.Paging

open Base Base.Program

/-! ## A new table -/

/-- The page of the lowest clear bit of the page table bitmap holds no present entry
but possibly the one that serves an address. -/
def FreshTable (s : Machine) (address : UInt32) : Prop :=
  ∀ bit bitmap, s.pageTableBitmap.firstFit = some (bit, bitmap) →
    ∀ index : UInt32, index.toNat < 1024 → index ≠ getPageTableIndex address →
      isPresent (entryAt s.mem (tablePage bit) index) = false

section NewTable

variable {layout : Layout} {s : Machine} {address frame : UInt32} {bit : Nat}
  {bitmap : Bitmap pageTableBitmapSize}

/-- The state after a new table was put into the directory, and the first entry into the
frame that the table's address translates to. -/
def firstEntry (layout : Layout) (s : Machine) (address frame : UInt32) (bit : Nat)
    (bitmap : Bitmap pageTableBitmapSize) (target : UInt32) : Machine :=
  { tableAdded s layout.pageDirectory address bit bitmap with
    mem := withEntry (withTable s.mem layout.pageDirectory address (tablePage bit)) target
      address (frame ||| 3) }

end NewTable

/-! ## The pointers of `map_page` -/

/-- `map_page` works on the page directory in use: its address translates to itself, and the
page of the lowest clear bit, which is to be the new table, to another page. -/
structure WorksOnDirectory (layout : Layout) (s : Machine) : Prop where
  cr3 : s.paging = true → s.cr3 = layout.pageDirectory
  itself : physical s layout.pageDirectory = some layout.pageDirectory
  table : ∀ bit bitmap, s.pageTableBitmap.firstFit = some (bit, bitmap) →
    ∃ target, physical s (tablePage bit) = some target ∧ target ≠ layout.pageDirectory

section Pointers

variable {layout : Layout} {s after : Machine} {address frame table target : UInt32} {bit : Nat}
  {bitmap : Bitmap pageTableBitmapSize}

/-- A slot of a table is reached in the frame the table's address translates to. -/
theorem physical_slot (aligned : PageAligned table) {index : UInt32} (inside : index.toNat < 1024)
    (reaches : physical s table = some target) :
    PageAligned target ∧ physical s (slot table index) = some (slot target index) := by
  unfold physical at reaches ⊢
  split at reaches
  next paged =>
    have member : slot table index ∈ page table :=
      slot_subset_page aligned inside (by simp [Span.mem_def])
    obtain ⟨targetAligned, translates⟩ := walk_of_mem_page aligned member reaches
    refine ⟨targetAligned, ?_⟩
    have offset : slot table index - table = 4 * index := by
      rw [slot]
      grind
    rw [if_pos paged, translates, offset]
    rfl
  next unpaged =>
    cases reaches
    exact ⟨aligned, if_neg unpaged⟩

/-- What an address reached, it reaches with a new table in the directory as well. -/
theorem WorksOnDirectory.physical_tableAdded (works : WorksOnDirectory layout s)
    (absent : isPresent (directoryEntry s.mem layout.pageDirectory address) = false)
    {other : UInt32} (reaches : physical s other = some target) :
    physical (tableAdded s layout.pageDirectory address bit bitmap) other = some target := by
  cases paging : s.paging with
  | false =>
      rw [physical_of_unpaged paging] at reaches
      exact (physical_of_unpaged (by exact paging) _).trans reaches
  | true =>
      have paged : (tableAdded s layout.pageDirectory address bit bitmap).paging = true := paging
      have cr3 : (tableAdded s layout.pageDirectory address bit bitmap).cr3 =
          layout.pageDirectory := works.cr3 paging
      rw [physical, if_pos paging, works.cr3 paging] at reaches
      rw [physical, if_pos paged, cr3]
      exact walk_tableAdded layout.pageDirectory_aligned absent reaches

theorem WorksOnDirectory.direct (works : WorksOnDirectory layout s) {index : UInt32}
    (inside : index.toNat < 1024) : Direct s (slot layout.pageDirectory index) :=
  (physical_slot layout.pageDirectory_aligned inside works.itself).2

/-- Where `map_page` takes a new table, it leaves the table in the directory and the entry in
the frame that the table's address translates to. -/
theorem WorksOnDirectory.mapPage_run (works : WorksOnDirectory layout s)
    (aligned : PageAligned address) (frameAligned : PageAligned frame)
    (absent : isPresent (directoryEntry s.mem layout.pageDirectory address) = false)
    (taken : s.pageTableBitmap.firstFit = some (bit, bitmap))
    (reaches : physical s (tablePage bit) = some target) :
    PageAligned target ∧ mapPage layout.pageDirectory address frame s =
      .ok () (firstEntry layout s address frame bit bitmap target) := by
  have direct := works.direct (getPageDirectoryIndex_lt address)
  obtain ⟨targetAligned, slotReaches⟩ := physical_slot (tablePage_aligned (firstFit_index_lt taken))
    (getPageTableIndex_lt address) reaches
  refine ⟨targetAligned, ?_⟩
  rw [mapPage_newTable aligned frameAligned absent taken direct
    (works.physical_tableAdded absent direct)]
  exact storeWord_of_physical (works.physical_tableAdded absent slotReaches)

end Pointers

/-! ## Calls that leave the kernel's own pages alone -/

/-- A call of one of the operations of `memory.c` that map pages. -/
inductive MemoryCall where
  | mapPage (virtualAddress physicalAddress : UInt32)
  | unmapPage (virtualAddress : UInt32)
  | pageFrameAllocate (virtualAddress : UInt32)
  | heapAllocate (size : UInt32)

/-- A page that the kernel uses itself: an identity page, or a page of the mapped heap. -/
def KernelPage (s : Machine) (address : UInt32) : Prop :=
  IdentityPage address ∨ MappedHeapPage s address

/-- If the page has no page table yet, the one it is about to get is fresh. -/
def TakesFresh (layout : Layout) (s : Machine) (address : UInt32) : Prop :=
  isPresent (directoryEntry s.mem layout.pageDirectory address) = false → FreshTable s address

namespace MemoryCall

/-- Make the call, and drop the address it returns. -/
def run (layout : Layout) : MemoryCall → Kernel Unit
  | .mapPage virtualAddress physicalAddress =>
      Paging.mapPage layout.pageDirectory virtualAddress physicalAddress
  | .unmapPage virtualAddress => Paging.unmapPage layout.pageDirectory virtualAddress
  | .pageFrameAllocate virtualAddress =>
      Paging.pageFrameAllocate layout virtualAddress >>= fun _ => pure ()
  | .heapAllocate size => Paging.heapAllocate layout size >>= fun _ => pure ()

/-- The caller maps and unmaps pages that the kernel does not use itself, and asks for
no block whose size carries the heap top past 2^32. -/
def Allowed (s : Machine) : MemoryCall → Prop
  | .mapPage virtualAddress _ => ¬ KernelPage s virtualAddress
  | .unmapPage virtualAddress => ¬ KernelPage s virtualAddress
  | .pageFrameAllocate virtualAddress => ¬ KernelPage s virtualAddress
  | .heapAllocate size => s.heapCurrent.toNat + size.toNat < 2 ^ 32

/-- Every page table that the call takes is fresh. -/
def Fresh (layout : Layout) (s : Machine) : MemoryCall → Prop
  | .mapPage virtualAddress _ => TakesFresh layout s virtualAddress
  | .unmapPage _ => True
  | .pageFrameAllocate virtualAddress => TakesFresh layout s virtualAddress
  | .heapAllocate size => ∀ t, HeapMaps layout size s t → TakesFresh layout t t.heapMapped

end MemoryCall

/-! ## Tables that no two entries share -/

/-- What calls that take fresh tables only keep: the identity mappings, and that no two
directory entries hold the same table, because every table taken since `init_paging`
has its bit set. -/
structure TablesApart (layout : Layout) (index : Nat) (s : Machine) : Prop extends
    Identity layout index s where
  distinct : ∀ i j, Entered s.mem layout.pageDirectory i → Entered s.mem layout.pageDirectory j →
    tableAt s.mem layout.pageDirectory i = tableAt s.mem layout.pageDirectory j → i = j
  marked : ∀ i, Entered s.mem layout.pageDirectory i → 3 ≤ i.toNat →
    s.pageTableBitmap.isSet (tableIndex (tableAt s.mem layout.pageDirectory i)) = true

section TablesApart

variable {layout : Layout} {index : Nat} {s after : Machine} {address frame : UInt32}

/-- Beside the identity mappings the invariant looks at the directory and at the page
table bitmap only. -/
theorem TablesApart.congr {t : Machine} (holds : TablesApart layout index s)
    (identity : Identity layout index t)
    (directory : ∀ i : UInt32, i.toNat < 1024 →
      entryAt t.mem layout.pageDirectory i = entryAt s.mem layout.pageDirectory i)
    (bitmap : t.pageTableBitmap = s.pageTableBitmap) : TablesApart layout index t := by
  have table : ∀ {i : UInt32}, i.toNat < 1024 →
      tableAt t.mem layout.pageDirectory i = tableAt s.mem layout.pageDirectory i := by
    intro i inside
    rw [tableAt, tableAt, directory i inside]
  have entered : ∀ {i}, Entered t.mem layout.pageDirectory i →
      Entered s.mem layout.pageDirectory i := by
    rintro i ⟨inside, present⟩
    exact ⟨inside, directory i inside ▸ present⟩
  refine ⟨identity, fun i j enteredI enteredJ same => ?_, fun i enteredI high => ?_⟩
  · rw [table enteredI.1, table enteredJ.1] at same
    exact holds.distinct i j (entered enteredI) (entered enteredJ) same
  · rw [table enteredI.1, bitmap]
    exact holds.marked i (entered enteredI) high

theorem TablesApart.of_sameTables (holds : TablesApart layout index s) {mem : Bytes}
    (same : SameTables s.mem mem) : TablesApart layout index { s with mem := mem } :=
  holds.congr (holds.toIdentity.of_sameTables same) (same _ (pageDirectory_identity layout)) rfl

/-- The third directory entry's table is not fresh: it maps the end of the page table
area. -/
theorem Identity.third_not_fresh (holds : Identity layout index s) {bit : Nat}
    {bitmap : Bitmap pageTableBitmapSize} (fresh : FreshTable s address)
    (taken : s.pageTableBitmap.firstFit = some (bit, bitmap)) : bit ≠ index := by
  rintro rfl
  have occupied : ∀ other, IdentityPage other → getPageDirectoryIndex other = 2 →
      getPageTableIndex other = getPageTableIndex address := by
    intro other identity two
    by_contra different
    have translates := holds.identity other identity
    have present := (walk_isSome_iff (holds.served_third two).1).mp (by rw [translates]; rfl)
    rw [tableEntry, (holds.served_third two).2,
      fresh bit bitmap taken _ (getPageTableIndex_lt other) different] at present
    cases present
  have first := occupied 0x00800000 (identityPage_iff.mpr (by decide)) (by decide)
  have second := occupied 0x00801000 (identityPage_iff.mpr (by decide)) (by decide)
  have same : getPageTableIndex 0x00800000 = getPageTableIndex 0x00801000 :=
    first.trans second.symm
  revert same
  decide

/-- A fresh table is in no directory entry yet. -/
theorem TablesApart.fresh_unused (holds : TablesApart layout index s) {bit : Nat}
    {bitmap : Bitmap pageTableBitmapSize} (fresh : FreshTable s address)
    (taken : s.pageTableBitmap.firstFit = some (bit, bitmap)) {i : UInt32}
    (entered : Entered s.mem layout.pageDirectory i) :
    tableAt s.mem layout.pageDirectory i ≠ tablePage bit := by
  have inside := firstFit_index_lt taken
  intro same
  rcases holds.tableAt_cases entered with ⟨_, table⟩ | ⟨_, table⟩ | ⟨past, _⟩
  · exact firstPageTable_outside layout (table.symm.trans same ▸ tablePage_inArea inside)
  · exact secondPageTable_outside layout (table.symm.trans same ▸ tablePage_inArea inside)
  · by_cases two : i = 2
    · rw [two, holds.third_table] at same
      exact holds.third_not_fresh fresh taken (tablePage_inj holds.inside inside same).symm
    · have high : i.toNat ≠ 2 := fun same => two (UInt32.toNat_inj.mp same)
      have set := holds.marked i entered (by omega)
      rw [same, tableIndex_tablePage inside, (Bitmap.firstFit_some taken).2.1] at set
      cases set

/-- Putting a fresh table into an absent entry keeps the tables apart. -/
theorem TablesApart.addTable (holds : TablesApart layout index s)
    (absent : isPresent (directoryEntry s.mem layout.pageDirectory address) = false) {bit : Nat}
    {bitmap : Bitmap pageTableBitmapSize} (fresh : FreshTable s address)
    (taken : s.pageTableBitmap.firstFit = some (bit, bitmap)) :
    TablesApart layout index (tableAdded s layout.pageDirectory address bit bitmap) := by
  have inside := firstFit_index_lt taken
  have directoryAligned := layout.pageDirectory_aligned
  obtain ⟨_, _, _, sets⟩ := Bitmap.firstFit_some taken
  refine ⟨holds.toIdentity.addTable absent inside, ?_, fun i entered high => ?_⟩
  · exact distinct_tableAdded directoryAligned inside holds.distinct fun _ old =>
      holds.fresh_unused fresh taken old
  · change bitmap.isSet _ = true
    rw [sets, Bool.or_eq_true, decide_eq_true_eq]
    rcases entered_tableAdded directoryAligned inside entered with ⟨_, table⟩ | ⟨old, table⟩ <;>
      rw [table]
    · exact .inr (tableIndex_tablePage inside)
    · exact .inl (holds.marked i old high)

/-- While no two entries share a table, storing the entry of a page changes the
translation of no other page. -/
theorem TablesApart.walk_store (holds : TablesApart layout index s) (aligned : PageAligned address)
    (present : isPresent (directoryEntry s.mem layout.pageDirectory address) = true)
    (value : UInt32) {other : UInt32} (otherAligned : PageAligned other)
    (different : other ≠ address) :
    walk (withEntry s.mem (servingTable s.mem layout.pageDirectory address) address value)
      layout.pageDirectory other = walk s.mem layout.pageDirectory other := by
  obtain ⟨sameEntry, entry⟩ := (holds.toDirectoryApart.store value present).2 other
  by_cases served : isPresent (directoryEntry s.mem layout.pageDirectory other) = true
  · refine walk_congr sameEntry (entry.trans (if_neg ?_))
    rintro ⟨sameTable, sameSlot⟩
    have sameIndex := holds.distinct _ _ (entered_of_present served) (entered_of_present present)
      sameTable
    exact different (eq_of_indices otherAligned aligned sameIndex sameSlot)
  · simp [walk, sameEntry, served]

/-- Storing the entry of a page that is no identity page, and of a heap page the entry
of a frame, keeps the invariant. -/
theorem TablesApart.storeEntry (holds : TablesApart layout index s)
    (aligned : PageAligned address) (outside : ¬ IdentityPage address)
    (present : isPresent (directoryEntry s.mem layout.pageDirectory address) = true)
    (value : UInt32) (heap : MappedHeapPage s address →
      ∃ frame, PageAligned frame ∧ InFrameArea frame ∧ value = frame ||| 3) :
    TablesApart layout index { s with
      mem := withEntry s.mem (servingTable s.mem layout.pageDirectory address) address value } := by
  have entries := (holds.toDirectoryApart.store value present).2
  refine holds.congr ⟨holds.keepsEntry value present, fun other identity => ?_,
    holds.heapAbove, holds.heapBelow, holds.heapAligned,
    fun other otherAligned above below => ?_⟩ (fun i small => ?_) rfl
  · have different : other ≠ address := fun same => outside (same ▸ identity)
    exact (holds.walk_store aligned present value identity.1 different).trans
      (holds.identity other identity)
  · by_cases here : other = address
    · subst here
      obtain ⟨frame, frameAligned, inFrames, rfl⟩ := heap ⟨otherAligned, above, below⟩
      refine ⟨frame, frameAligned, inFrames, ?_⟩
      obtain ⟨sameEntry, entry⟩ := entries other
      exact walk_of_present otherAligned frameAligned (by rwa [sameEntry])
        (entry.trans (if_pos ⟨rfl, rfl⟩))
    · obtain ⟨frame, frameAligned, inFrames, translates⟩ :=
        holds.heap other otherAligned above below
      exact ⟨frame, frameAligned, inFrames,
        (holds.walk_store aligned present value otherAligned here).trans translates⟩
  · exact holds.withEntry_directory value present small

/-! ### One call -/

theorem TablesApart.withFrames (holds : TablesApart layout index s)
    (bitmap : Bitmap pageFrameBitmapSize) :
    TablesApart layout index { s with pageFrameBitmap := bitmap } :=
  holds.congr (holds.toIdentity.withFrames bitmap) (fun _ _ => rfl) rfl

theorem TablesApart.mapPage_keeps (holds : TablesApart layout index s)
    (outside : ¬ IdentityPage address) (heap : MappedHeapPage s address → InFrameArea frame)
    (fresh : TakesFresh layout s address)
    (returned : mapPage layout.pageDirectory address frame s = .ok () after) :
    TablesApart layout index after ∧ walk after.mem layout.pageDirectory address = some frame := by
  obtain ⟨aligned, frameAligned, found⟩ := mapPage_requires returned
    (holds.direct (pageDirectory_identity layout) (getPageDirectoryIndex_lt address))
  have prepares : ∃ table ready, Prepared layout s address table ready ∧
      TablesApart layout index ready ∧ IdentityPage table ∧ ready.heapMapped = s.heapMapped := by
    rcases found with present | ⟨absent, bit, bitmap, taken⟩
    · exact ⟨_, s, .present present, holds, holds.tableAt_identity (entered_of_present present), rfl⟩
    · exact ⟨_, _, .added absent taken, holds.addTable absent (fresh absent) taken,
        tablePage_identity (firstFit_index_lt taken), rfl⟩
  obtain ⟨table, ready, prepared, kept, identity, watermark⟩ := prepares
  have run := holds.toDirectoryApart.mapPage_run aligned frameAligned
    (holds.identity _ (pageDirectory_identity layout)) (holds.identity table identity) prepared
  rw [returned] at run
  cases run
  have present := prepared.serves.1
  refine ⟨kept.storeEntry aligned outside present _ fun mapped => ?_, ?_⟩
  · rw [MappedHeapPage, watermark] at mapped
    exact ⟨frame, frameAligned, heap mapped, rfl⟩
  · exact ((kept.toDirectoryApart.storeEntry frameAligned present).2 address aligned present).trans
      (if_pos ⟨rfl, rfl⟩)

theorem TablesApart.unmapPage_keeps (holds : TablesApart layout index s)
    (allowed : ¬ KernelPage s address)
    (returned : unmapPage layout.pageDirectory address s = .ok () after) :
    TablesApart layout index after := by
  have directoryDirect := holds.direct (pageDirectory_identity layout)
    (getPageDirectoryIndex_lt address)
  have served := unmapPage_present returned directoryDirect
  obtain ⟨aligned, present, _, rfl⟩ := unmapPage_ok returned directoryDirect
    (holds.direct (holds.tableAt_identity (entered_of_present served))
      (getPageTableIndex_lt address))
  exact holds.storeEntry aligned (fun identity => allowed (.inl identity)) present _
    fun mapped => absurd (.inr mapped) allowed

theorem TablesApart.pageFrameAllocate_keeps (holds : TablesApart layout index s)
    (outside : ¬ IdentityPage address) (fresh : TakesFresh layout s address) {ret : UInt32}
    (returned : pageFrameAllocate layout address s = .ok ret after) :
    TablesApart layout index after ∧ ∃ frame, PageAligned frame ∧ InFrameArea frame ∧
      walk after.mem layout.pageDirectory address = some frame := by
  obtain ⟨aligned, frame, bitmap, mapped, frameAligned, inFrames, mapping, clears⟩ :=
    pageFrameAllocate_ok returned
  obtain ⟨kept, translates⟩ :=
    (holds.withFrames bitmap).mapPage_keeps outside (fun _ => inFrames) (by exact fresh) mapping
  obtain ⟨mem, rfl, same, still⟩ := kept.clearPage_ok aligned inFrames translates clears
  exact ⟨kept.of_sameTables same, frame, frameAligned, inFrames, still⟩

theorem TablesApart.heapMapNext_keeps (holds : TablesApart layout index s)
    (below : s.heapMapped.toNat < heapAllocatorAreaEnd.toNat)
    (fresh : TakesFresh layout s s.heapMapped)
    (returned : heapMapNext layout s = .ok () after) : TablesApart layout index after := by
  obtain ⟨_, grown, allocated, rfl⟩ := heapMapNext_ok returned
  obtain ⟨kept, frame, frameAligned, inFrames, translates⟩ :=
    holds.pageFrameAllocate_keeps (holds.watermark_outside below) fresh allocated
  have same := ((pageFrameAllocate_settles layout s.heapMapped).yields s).of_ok allocated
  rw [← same.heapMapped] at below translates
  exact kept.congr (kept.toIdentity.extend below frameAligned inFrames translates)
    (fun _ _ => rfl) rfl

theorem TablesApart.heapAllocate_keeps (holds : TablesApart layout index s) {size ret : UInt32}
    (fits : s.heapCurrent.toNat + size.toNat < 2 ^ 32)
    (fresh : ∀ t, HeapMaps layout size s t → TakesFresh layout t t.heapMapped)
    (returned : heapAllocate layout size s = .ok ret after) : TablesApart layout index after := by
  obtain ⟨check, grown, _, mapping, clears, rfl⟩ := heapAllocate_ok returned
  obtain ⟨kept, current, covered⟩ := heapMapUpTo_keeps check
    (fun maps kept below => kept.heapMapNext_keeps below (fresh _ maps)) holds mapping
  rw [← current] at fits covered
  obtain ⟨mem, cleared, same⟩ := kept.clearBlock_run fits covered
  rw [clears] at cleared
  cases cleared
  have later := kept.of_sameTables same
  exact later.congr (later.toIdentity.advance _ fits covered) (fun _ _ => rfl) rfl

end TablesApart

/-! ## Reached states -/

section Reached

variable {layout : Layout} {s after : Machine} {virtualAddress physicalAddress : UInt32}

end Reached

end TorchOS.Paging
