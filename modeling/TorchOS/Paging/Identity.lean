import TorchOS.Paging.Boot

/-!
# How long the identity mappings last

After `init_paging` the kernel, the page table area and the VGA buffer translate
to themselves, and `map_page` relies on it when it uses table addresses as
pointers. Allocations keep the mappings as long as none stores a low entry into
the page table of the third directory entry, which the allocator believes free.
-/

namespace TorchOS.Paging

open Base Base.Program

/-- An address of the page frame area. -/
def InFrameArea (address : UInt32) : Prop :=
  0x00900000 ≤ address.toNat ∧ address.toNat < 0x0F000000

/-- Two memories that agree on every entry of the identity-mapped pages, where the
directory and all page tables lie. -/
def SameTables (mem mem' : Bytes) : Prop :=
  ∀ table, IdentityPage table → ∀ index : UInt32, index.toNat < 1024 →
    entryAt mem' table index = entryAt mem table index

/-! ## Where tables and identity pages lie -/

section Pages

variable {address table : UInt32} {index : Nat} (layout : Layout)

theorem identityPage_iff : IdentityPage address ↔ address.toNat % 4096 = 0 ∧
    (0x00100000 ≤ address.toNat ∧ address.toNat < 0x00300000 ∨
      0x00500000 ≤ address.toNat ∧ address.toNat < 0x00900000 ∨
      address.toNat = 0x000B8000) := by
  rw [IdentityPage, inTableArea_iff, UInt32.le_iff_toNat_le, UInt32.lt_iff_toNat_lt,
    Word.toNat_inj_iff]
  exact Iff.rfl

theorem tablePage_identity (inside : index < 1024) : IdentityPage (tablePage index) :=
  ⟨tablePage_aligned inside, .inr (.inl (tablePage_inArea inside))⟩

theorem pageDirectory_identity : IdentityPage layout.pageDirectory :=
  ⟨layout.pageDirectory_aligned, .inl layout.pageDirectory_inKernel⟩

theorem firstPageTable_identity : IdentityPage layout.firstPageTable :=
  ⟨layout.firstPageTable_aligned, .inl layout.firstPageTable_inKernel⟩

theorem secondPageTable_identity : IdentityPage layout.secondPageTable :=
  ⟨layout.secondPageTable_aligned, .inl layout.secondPageTable_inKernel⟩

/-- The identity pages are served by the first three directory entries, and by the
lower quarter of the third's table. -/
theorem IdentityPage.indices (identity : IdentityPage address) :
    getPageDirectoryIndex address = 0 ∨ getPageDirectoryIndex address = 1 ∨
      getPageDirectoryIndex address = 2 ∧ (getPageTableIndex address).toNat < 256 := by
  obtain ⟨aligned, place⟩ := identityPage_iff.mp identity
  rw [Word.toNat_inj_iff, Word.toNat_inj_iff, Word.toNat_inj_iff, getPageDirectoryIndex,
    getPageTableIndex, Word.toNat_shiftRight_22, Word.toNat_shiftRight_12_and]
  change _ = 0 ∨ _ = 1 ∨ _ = 2 ∧ _
  omega

end Pages

/-- A page that no longer holds what is in the frame area keeps its entries. -/
theorem sameTables_write {mem : Bytes} {target : UInt32} {value : UInt8}
    (inFrames : InFrameArea target) : SameTables mem (mem.write target [value]) := by
  intro table identity index inside
  refine Bytes.load32_congr fun address member => Bytes.write_of_notMem fun here => ?_
  have inPage := slot_subset_page identity.1 inside member
  rw [mem_page_iff identity.1] at inPage
  obtain ⟨aligned, place⟩ := identityPage_iff.mp identity
  have wide := target.toNat_lt
  unfold InFrameArea at inFrames
  rw [Span.mem_iff (by simp only [List.length_singleton]; omega), List.length_singleton] at here
  omega

theorem SameTables.refl (mem : Bytes) : SameTables mem mem := fun _ _ _ _ => rfl

theorem SameTables.trans {a b c : Bytes} (first : SameTables a b) (second : SameTables b c) :
    SameTables a c := fun table identity index inside =>
  (second table identity index inside).trans (first table identity index inside)

/-! ## The invariant -/

/-- What any mapping keeps of the directory: paging is on, and every entry that is
present holds a table that is an identity page and not the directory itself. -/
structure DirectoryApart (layout : Layout) (s : Machine) : Prop where
  paged : s.paging = true
  cr3 : s.cr3 = layout.pageDirectory
  entered : ∀ i, Entered s.mem layout.pageDirectory i →
    IdentityPage (tableAt s.mem layout.pageDirectory i) ∧
      tableAt s.mem layout.pageDirectory i ≠ layout.pageDirectory

/-- What any mapping keeps of the directory that `init_paging` leaves, with the table of
bit `index` in the third entry: the first three entries stay, and every other entry that
is present holds a table of the page table area. -/
structure DirectoryKept (layout : Layout) (index : Nat) (s : Machine) : Prop extends
    DirectoryApart layout s where
  inside : index < 1024
  first : entryAt s.mem layout.pageDirectory 0 = layout.firstPageTable ||| 3
  second : entryAt s.mem layout.pageDirectory 1 = layout.secondPageTable ||| 3
  third : entryAt s.mem layout.pageDirectory 2 = tablePage index ||| 3
  others : ∀ i, Entered s.mem layout.pageDirectory i → 3 ≤ i.toNat →
    ∃ bit < 1024, tableAt s.mem layout.pageDirectory i = tablePage bit

/-- What allocations are to keep: identity pages translate to themselves, and every
heap page mapped so far translates to a frame of the frame area. -/
structure Identity (layout : Layout) (index : Nat) (s : Machine) : Prop extends
    DirectoryKept layout index s where
  identity : ∀ address, IdentityPage address →
    walk s.mem layout.pageDirectory address = some address
  heapAbove : heapAllocatorAreaStart.toNat ≤ s.heapCurrent.toNat
  heapBelow : s.heapCurrent.toNat ≤ s.heapMapped.toNat
  heapAligned : PageAligned s.heapMapped
  heap : ∀ address, PageAligned address → heapAllocatorAreaStart.toNat ≤ address.toNat →
    address.toNat < s.heapMapped.toNat → ∃ frame, PageAligned frame ∧ InFrameArea frame ∧
      walk s.mem layout.pageDirectory address = some frame

section DirectoryApart

variable {layout : Layout} {s : Machine} {address : UInt32}

theorem DirectoryApart.tableAt_identity (holds : DirectoryApart layout s) {i : UInt32}
    (entered : Entered s.mem layout.pageDirectory i) :
    IdentityPage (tableAt s.mem layout.pageDirectory i) :=
  (holds.entered i entered).1

/-- The table of a present directory entry does not overlap the directory. -/
theorem DirectoryApart.table_apart (holds : DirectoryApart layout s) {i : UInt32}
    (entered : Entered s.mem layout.pageDirectory i) :
    Disjoint (page (tableAt s.mem layout.pageDirectory i)) (page layout.pageDirectory) :=
  page_disjoint (getPageTableAddress_aligned _) layout.pageDirectory_aligned
    (holds.entered i entered).2

/-- What is kept of the directory looks at its entries and at the processor only. -/
theorem DirectoryApart.congr (holds : DirectoryApart layout s) {t : Machine}
    (directory : ∀ i : UInt32, i.toNat < 1024 →
      entryAt t.mem layout.pageDirectory i = entryAt s.mem layout.pageDirectory i)
    (paging : t.paging = s.paging) (cr3 : t.cr3 = s.cr3) : DirectoryApart layout t := by
  refine ⟨paging.trans holds.paged, cr3.trans holds.cr3, ?_⟩
  rintro i ⟨inside, present⟩
  rw [directory i inside] at present
  rw [tableAt, directory i inside]
  exact holds.entered i ⟨inside, present⟩

/-! ### Stores outside the tables -/

theorem DirectoryApart.sameEntries (holds : DirectoryApart layout s) {mem : Bytes}
    (same : SameTables s.mem mem) : SameEntries layout s mem :=
  ⟨same _ (pageDirectory_identity layout), fun _ entered =>
    same _ (holds.tableAt_identity entered)⟩

/-- The walk of every address is the same in memories with the same tables. -/
theorem DirectoryApart.walk_sameTables (holds : DirectoryApart layout s) {mem : Bytes}
    (same : SameTables s.mem mem) (address : UInt32) :
    walk mem layout.pageDirectory address = walk s.mem layout.pageDirectory address :=
  (holds.sameEntries same).walk address

/-- Clearing addresses that translate into the frame area returns and leaves the
tables alone. -/
theorem DirectoryApart.memset_run (holds : DirectoryApart layout s) (bufptr : UInt32)
    (value : UInt8) (size : UInt32) (frames : ∀ i < size.toNat, ∃ target, InFrameArea target ∧
      walk s.mem layout.pageDirectory (bufptr + UInt32.ofNat i) = some target) :
    ∃ mem, memset bufptr value size s = .ok () { s with mem := mem } ∧ SameTables s.mem mem := by
  have yields : Yields (memset bufptr value size s)
      (fun _ after => ∃ mem, after = { s with mem := mem } ∧ SameTables s.mem mem)
      (fun _ => False) := by
    refine Yields.times (I := fun _ after => ∃ mem, after = { s with mem := mem } ∧
      SameTables s.mem mem) ⟨s.mem, rfl, .refl _⟩ ?_
    rintro i _ inside ⟨mem, rfl, same⟩
    obtain ⟨target, inFrames, translates⟩ := frames i inside
    rw [← holds.walk_sameTables same] at translates
    have reaches : physical { s with mem := mem } (bufptr + UInt32.ofNat i) = some target := by
      rw [physical, if_pos holds.paged, holds.cr3]
      exact translates
    rw [storeByte_of_physical reaches]
    exact ⟨_, rfl, same.trans (sameTables_write inFrames)⟩
  obtain ⟨_, _, run, mem, rfl, same⟩ := yields.returns
  exact ⟨mem, run, same⟩

/-- A page that translates to a frame of the frame area does so address by address. -/
theorem frame_block (aligned : PageAligned address) {frame : UInt32} (inFrames : InFrameArea frame)
    (translates : walk s.mem layout.pageDirectory address = some frame) :
    ∀ i < pageSize.toNat, ∃ target, InFrameArea target ∧
      walk s.mem layout.pageDirectory (address + UInt32.ofNat i) = some target := by
  intro i inside
  rw [toNat_pageSize] at inside
  obtain ⟨frameAligned, target⟩ :=
    walk_of_mem_page aligned (Span.add_ofNat_mem inside) translates
  refine ⟨_, ?_, target⟩
  have offset : address + UInt32.ofNat i - address = UInt32.ofNat i := by grind
  unfold InFrameArea PageAligned at *
  rw [offset, UInt32.toNat_add, UInt32.toNat_ofNat']
  omega

/-- Clearing a page that translates to a frame of the frame area. -/
theorem DirectoryApart.clearPage_run (holds : DirectoryApart layout s)
    (aligned : PageAligned address) {frame : UInt32} (inFrames : InFrameArea frame)
    (translates : walk s.mem layout.pageDirectory address = some frame) :
    ∃ mem, memset address 0 pageSize s = .ok () { s with mem := mem } ∧
      SameTables s.mem mem :=
  holds.memset_run address 0 pageSize (frame_block aligned inFrames translates)

/-- What a page that was cleared leaves. -/
theorem DirectoryApart.clearPage_ok (holds : DirectoryApart layout s)
    (aligned : PageAligned address) {frame : UInt32} (inFrames : InFrameArea frame)
    (translates : walk s.mem layout.pageDirectory address = some frame) {after : Machine}
    (clears : memset address 0 pageSize s = .ok () after) :
    ∃ mem, after = { s with mem := mem } ∧ SameTables s.mem mem ∧
      walk mem layout.pageDirectory address = some frame := by
  obtain ⟨mem, cleared, same⟩ := holds.clearPage_run aligned inFrames translates
  rw [clears] at cleared
  cases cleared
  exact ⟨mem, rfl, same, (holds.walk_sameTables same address).trans translates⟩

/-! ### Stores into the tables -/

/-- Putting a new page table into an absent entry, whatever table it is, keeps every
translation. -/
theorem DirectoryApart.addTable (holds : DirectoryApart layout s)
    (absent : isPresent (directoryEntry s.mem layout.pageDirectory address) = false)
    {bit : Nat} {bitmap : Bitmap pageTableBitmapSize} (inside : bit < 1024) :
    DirectoryApart layout (tableAdded s layout.pageDirectory address bit bitmap) ∧
      ∀ other, isPresent (directoryEntry s.mem layout.pageDirectory other) = true →
        walk (tableAdded s layout.pageDirectory address bit bitmap).mem layout.pageDirectory other =
          walk s.mem layout.pageDirectory other := by
  refine ⟨⟨holds.paged, holds.cr3, fun i entered => ?_⟩, fun other present =>
    walk_tableAdded_other layout.pageDirectory_aligned absent present
      (holds.table_apart (entered_of_present present))⟩
  rcases entered_tableAdded layout.pageDirectory_aligned inside entered with
    ⟨_, table⟩ | ⟨before, table⟩ <;> rw [table]
  · exact ⟨tablePage_identity inside, fun same =>
      pageDirectory_outside layout (same ▸ tablePage_inArea inside)⟩
  · exact holds.entered i before

/-- Storing an entry leaves the directory alone. -/
theorem DirectoryApart.withEntry_directory (holds : DirectoryApart layout s) (value : UInt32)
    (present : isPresent (directoryEntry s.mem layout.pageDirectory address) = true) {i : UInt32}
    (small : i.toNat < 1024) :
    entryAt (withEntry s.mem (servingTable s.mem layout.pageDirectory address) address value)
      layout.pageDirectory i = entryAt s.mem layout.pageDirectory i :=
  entryAt_withEntry_of_apart small (getPageTableAddress_aligned _) layout.pageDirectory_aligned
    (holds.table_apart (entered_of_present present))

/-- Storing an entry keeps the directory, and changes the entry of the pages whose
entry it is and of no other page. -/
theorem DirectoryApart.store (holds : DirectoryApart layout s) (value : UInt32)
    (present : isPresent (directoryEntry s.mem layout.pageDirectory address) = true) :
    DirectoryApart layout { s with
        mem := withEntry s.mem (servingTable s.mem layout.pageDirectory address) address value } ∧
      ∀ other, directoryEntry (withEntry s.mem (servingTable s.mem layout.pageDirectory address)
            address value) layout.pageDirectory other =
          directoryEntry s.mem layout.pageDirectory other ∧
        tableEntry (withEntry s.mem (servingTable s.mem layout.pageDirectory address)
            address value) layout.pageDirectory other =
          if servingTable s.mem layout.pageDirectory other =
                servingTable s.mem layout.pageDirectory address ∧
              getPageTableIndex other = getPageTableIndex address then value
          else tableEntry s.mem layout.pageDirectory other := by
  have tableAligned := getPageTableAddress_aligned
    (directoryEntry s.mem layout.pageDirectory address)
  refine ⟨holds.congr (fun _ => holds.withEntry_directory value present) rfl rfl, fun other => ?_⟩
  have sameEntry : directoryEntry (withEntry s.mem
      (servingTable s.mem layout.pageDirectory address) address value)
      layout.pageDirectory other = directoryEntry s.mem layout.pageDirectory other :=
    holds.withEntry_directory value present (getPageDirectoryIndex_lt other)
  refine ⟨sameEntry, ?_⟩
  rw [tableEntry_of_directoryEntry sameEntry]
  split
  next same =>
    rw [same.1, same.2]
    exact entryAt_withEntry_same
  next different =>
    rw [tableEntry]
    by_cases sameTable : servingTable s.mem layout.pageDirectory other =
        servingTable s.mem layout.pageDirectory address
    · rw [sameTable]
      exact entryAt_withEntry_of_ne tableAligned (getPageTableIndex_lt other) fun sameSlot =>
        different ⟨sameTable, sameSlot⟩
    · exact entryAt_withEntry_of_apart (getPageTableIndex_lt other) tableAligned
        (getPageTableAddress_aligned _)
        (page_disjoint tableAligned (getPageTableAddress_aligned _) (Ne.symm sameTable))

/-- Storing the entry of a frame translates to it every page whose entry it is; the
other pages keep their translations. -/
theorem DirectoryApart.storeEntry (holds : DirectoryApart layout s) {frame : UInt32}
    (frameAligned : PageAligned frame)
    (present : isPresent (directoryEntry s.mem layout.pageDirectory address) = true) :
    DirectoryApart layout { s with
        mem := withEntry s.mem (servingTable s.mem layout.pageDirectory address) address
          (frame ||| 3) } ∧
      ∀ other, PageAligned other →
        isPresent (directoryEntry s.mem layout.pageDirectory other) = true →
        walk (withEntry s.mem (servingTable s.mem layout.pageDirectory address) address
          (frame ||| 3)) layout.pageDirectory other =
        if servingTable s.mem layout.pageDirectory other =
              servingTable s.mem layout.pageDirectory address ∧
            getPageTableIndex other = getPageTableIndex address then some frame
        else walk s.mem layout.pageDirectory other := by
  obtain ⟨kept, entries⟩ := holds.store (frame ||| 3) present
  refine ⟨kept, fun other aligned served => ?_⟩
  obtain ⟨sameEntry, entry⟩ := entries other
  split
  next same =>
    rw [if_pos same] at entry
    exact walk_of_present aligned frameAligned (by rwa [sameEntry]) entry
  next different =>
    rw [if_neg different] at entry
    exact walk_congr sameEntry entry

/-! ### Reaching the tables -/

/-- An entry of a table that translates to itself is reached at its own address. -/
theorem DirectoryApart.direct (holds : DirectoryApart layout s) {table i : UInt32}
    (aligned : PageAligned table) (itself : walk s.mem layout.pageDirectory table = some table)
    (inside : i.toNat < 1024) : Direct s (slot table i) := by
  have member : slot table i ∈ page table :=
    slot_subset_page aligned inside (by simp [Span.mem_def])
  obtain ⟨_, translates⟩ := walk_of_mem_page aligned member itself
  rw [Direct, physical, if_pos holds.paged, holds.cr3, translates]
  congr 1
  grind

/-- The state `map_page` stores the entry of a page in, after the table the entry goes
to: where the directory entry is absent, a new table has been put into it. -/
inductive Prepared (layout : Layout) (s : Machine) (address : UInt32) :
    UInt32 → Machine → Prop where
  | present (present : isPresent (directoryEntry s.mem layout.pageDirectory address) = true) :
      Prepared layout s address (servingTable s.mem layout.pageDirectory address) s
  | added {bit : Nat} {bitmap : Bitmap pageTableBitmapSize}
      (absent : isPresent (directoryEntry s.mem layout.pageDirectory address) = false)
      (taken : s.pageTableBitmap.firstFit = some (bit, bitmap)) :
      Prepared layout s address (tablePage bit)
        (tableAdded s layout.pageDirectory address bit bitmap)

section Prepared

variable {ready : Machine} {table frame : UInt32}

theorem Prepared.aligned (prepared : Prepared layout s address table ready) :
    PageAligned table := by
  cases prepared with
  | present _ => exact getPageTableAddress_aligned _
  | added _ taken => exact tablePage_aligned (firstFit_index_lt taken)

/-- The page is served by the table it was prepared for. -/
theorem Prepared.serves (prepared : Prepared layout s address table ready) :
    isPresent (directoryEntry ready.mem layout.pageDirectory address) = true ∧
      servingTable ready.mem layout.pageDirectory address = table := by
  cases prepared with
  | present present => exact ⟨present, rfl⟩
  | added absent taken =>
      have inside := firstFit_index_lt taken
      refine ⟨?_, servingTable_tableAdded inside⟩
      rw [directoryEntry_tableAdded]
      exact isPresent_or_three (tablePage_aligned inside)

/-- A page that was served keeps its directory entry. -/
theorem Prepared.directoryEntry_kept (prepared : Prepared layout s address table ready)
    {other : UInt32}
    (served : isPresent (directoryEntry s.mem layout.pageDirectory other) = true) :
    directoryEntry ready.mem layout.pageDirectory other =
      directoryEntry s.mem layout.pageDirectory other := by
  cases prepared with
  | present _ => rfl
  | added absent _ =>
      refine entryAt_withTable_of_ne layout.pageDirectory_aligned (getPageDirectoryIndex_lt other)
        fun same => ?_
      rw [directoryEntry, same] at served
      rw [directoryEntry, served] at absent
      cases absent

/-- Preparing keeps the directory and the translation of every page it served. -/
theorem DirectoryApart.prepared_keeps (holds : DirectoryApart layout s)
    (prepared : Prepared layout s address table ready) :
    DirectoryApart layout ready ∧
      ∀ other, isPresent (directoryEntry s.mem layout.pageDirectory other) = true →
        walk ready.mem layout.pageDirectory other = walk s.mem layout.pageDirectory other := by
  cases prepared with
  | present _ => exact ⟨holds, fun _ _ => rfl⟩
  | added absent taken => exact holds.addTable absent (firstFit_index_lt taken)

/-- Where the directory and the table of a page translate to themselves, `map_page`
prepares the page and stores its entry. -/
theorem DirectoryApart.mapPage_run (holds : DirectoryApart layout s)
    (aligned : PageAligned address) (frameAligned : PageAligned frame)
    (directory : walk s.mem layout.pageDirectory layout.pageDirectory = some layout.pageDirectory)
    (itself : walk s.mem layout.pageDirectory table = some table)
    (prepared : Prepared layout s address table ready) :
    mapPage layout.pageDirectory address frame s = .ok () { ready with
      mem := withEntry ready.mem (servingTable ready.mem layout.pageDirectory address) address
        (frame ||| 3) } := by
  have directoryDirect := holds.direct layout.pageDirectory_aligned directory
    (getPageDirectoryIndex_lt address)
  have tableAligned := prepared.aligned
  obtain ⟨kept, walks⟩ := holds.prepared_keeps prepared
  have again := (walks _ (present_of_walk directory)).trans directory
  have table := (walks _ (present_of_walk itself)).trans itself
  cases prepared with
  | present present =>
      exact mapPage_of_present aligned frameAligned present directoryDirect
        (holds.direct tableAligned itself (getPageTableIndex_lt address))
  | added absent taken =>
      exact mapPage_of_added aligned frameAligned absent taken directoryDirect
        (kept.direct layout.pageDirectory_aligned again (getPageDirectoryIndex_lt address))
        (kept.direct tableAligned table (getPageTableIndex_lt address))

end Prepared

end DirectoryApart

/-! ### After `init_paging` -/

section Init

variable {layout : Layout} {s after : Machine}

/-- Wherever the linker put `page_table_bitmap`: a directory entry is kept or cleared with
it, so those still present hold boot page tables or tables of the page table area. -/
theorem Booting.areasMapped_apart {bitmap : Bitmap pageTableBitmapSize}
    {frames : Bitmap pageFrameBitmapSize} {Mapped : UInt32 → Prop}
    (booting : Booting layout bitmap frames Mapped s) :
    DirectoryApart layout (pagingOn layout (areasMapped layout s)) := by
  refine ⟨rfl, rfl, fun i ⟨inside, present⟩ => ?_⟩
  change isPresent (entryAt (overrunCleared layout s.mem) layout.pageDirectory i) = true at present
  change IdentityPage (tableAt (overrunCleared layout s.mem) layout.pageDirectory i) ∧
    tableAt (overrunCleared layout s.mem) layout.pageDirectory i ≠ layout.pageDirectory
  have cases : entryAt (overrunCleared layout s.mem) layout.pageDirectory i =
        entryAt s.mem layout.pageDirectory i ∨
      entryAt (overrunCleared layout s.mem) layout.pageDirectory i = 0 :=
    entryAt_overrunCleared_cases layout.pageDirectory_aligned inside
  rcases cases with kept | gone
  · rw [kept] at present
    rw [tableAt, kept, ← tableAt]
    rcases booting.tableAt_cases ⟨inside, present⟩ with table | table | ⟨bit, bound, table⟩ <;>
      rw [table]
    · exact ⟨firstPageTable_identity layout, layout.first_ne_directory⟩
    · exact ⟨secondPageTable_identity layout, layout.second_ne_directory⟩
    · exact ⟨tablePage_identity bound, fun same =>
        pageDirectory_outside layout (same ▸ tablePage_inArea bound)⟩
  · rw [gone] at present
    exact absurd present (by decide)

/-- Mapping a page before paging is turned on leaves the directory as mapping it after. -/
theorem mapPage_apart {address frame : UInt32} (unpaged : s.paging = false)
    (apart : DirectoryApart layout (pagingOn layout s))
    (returned : mapPage layout.pageDirectory address frame s = .ok () after) :
    DirectoryApart layout (pagingOn layout after) ∧ SameGlobals s after := by
  have direct := fun {t : Machine} (same : t.paging = false) => direct_of_unpaged same
  refine ⟨?_, ((mapPage_settles layout.pageDirectory address frame).yields s).of_ok returned⟩
  obtain ⟨aligned, frameAligned, present | ⟨absent, bit, bitmap, taken⟩⟩ :=
    mapPage_requires returned (direct unpaged _)
  · rw [mapPage_of_present aligned frameAligned present (direct unpaged _) (direct unpaged _)]
      at returned
    cases returned
    exact (apart.store (frame ||| 3) present).1
  · rw [mapPage_of_added aligned frameAligned absent taken (direct unpaged _)
      (direct (by exact unpaged) _) (direct (by exact unpaged) _)] at returned
    cases returned
    have added : DirectoryApart layout
        (pagingOn layout (tableAdded s layout.pageDirectory address bit bitmap)) :=
      (apart.addTable absent (firstFit_index_lt taken)).1
    have present : isPresent (directoryEntry
        (tableAdded s layout.pageDirectory address bit bitmap).mem layout.pageDirectory address) =
          true := by
      rw [directoryEntry_tableAdded]
      exact isPresent_or_three (tablePage_aligned (firstFit_index_lt taken))
    exact (added.store (frame ||| 3) present).1

/-- What `init_paging` leaves for any layout: paging on, a directory apart from the tables it
refers to, and an empty heap. -/
theorem initPaging_apart (unpaged : s.paging = false)
    (returned : initPaging layout s = .ok () after) :
    DirectoryApart layout after ∧ after.heapCurrent = heapAllocatorAreaStart ∧
      after.heapMapped = heapAllocatorAreaStart := by
  have yields : Yields (initPaging layout s) (fun _ after => DirectoryApart layout after ∧
      after.heapCurrent = heapAllocatorAreaStart ∧ after.heapMapped = heapAllocatorAreaStart)
      (fun _ => True) := by
    refine initPaging_maps layout unpaged (fun _ _ => trivial) fun mapped held => ?_
    have still : (areasMapped layout mapped).paging = false := held.unpaged
    cases vga : mapPage layout.pageDirectory vgaMemory vgaMemory (areasMapped layout mapped) with
    | error _ _ => trivial
    | ok _ last =>
        obtain ⟨apart, globals⟩ := mapPage_apart still held.areasMapped_apart vga
        exact ⟨apart, globals.heapCurrent, globals.heapMapped⟩
  exact yields.of_ok returned

end Init

section DirectoryKept

variable {layout : Layout} {index : Nat} {s : Machine} {address : UInt32}

/-- The table a present directory entry holds is one of the boot tables, or of the
page table area; which one tells the entry apart. -/
theorem DirectoryKept.tableAt_cases (holds : DirectoryKept layout index s) {i : UInt32}
    (entered : Entered s.mem layout.pageDirectory i) :
    i = 0 ∧ tableAt s.mem layout.pageDirectory i = layout.firstPageTable ∨
      i = 1 ∧ tableAt s.mem layout.pageDirectory i = layout.secondPageTable ∨
      2 ≤ i.toNat ∧ ∃ bit < 1024, tableAt s.mem layout.pageDirectory i = tablePage bit := by
  by_cases zero : i = 0
  · subst zero
    refine .inl ⟨rfl, ?_⟩
    rw [tableAt, holds.first, getPageTableAddress_or_three layout.firstPageTable_aligned]
  by_cases one : i = 1
  · subst one
    refine .inr (.inl ⟨rfl, ?_⟩)
    rw [tableAt, holds.second, getPageTableAddress_or_three layout.secondPageTable_aligned]
  by_cases two : i = 2
  · subst two
    refine .inr (.inr ⟨by decide, index, holds.inside, ?_⟩)
    rw [tableAt, holds.third, getPageTableAddress_or_three (tablePage_aligned holds.inside)]
  · have notZero : i.toNat ≠ 0 := fun same => zero (UInt32.toNat_inj.mp same)
    have notOne : i.toNat ≠ 1 := fun same => one (UInt32.toNat_inj.mp same)
    have notTwo : i.toNat ≠ 2 := fun same => two (UInt32.toNat_inj.mp same)
    exact .inr (.inr ⟨by omega, holds.others i entered (by omega)⟩)

theorem DirectoryKept.third_table (holds : DirectoryKept layout index s) :
    tableAt s.mem layout.pageDirectory 2 = tablePage index := by
  rw [tableAt, holds.third, getPageTableAddress_or_three (tablePage_aligned holds.inside)]

/-- An address of the third directory entry is served by the table that entry holds. -/
theorem DirectoryKept.served_third (holds : DirectoryKept layout index s)
    (two : getPageDirectoryIndex address = 2) :
    isPresent (directoryEntry s.mem layout.pageDirectory address) = true ∧
      servingTable s.mem layout.pageDirectory address = tablePage index := by
  have aligned := tablePage_aligned holds.inside
  rw [servingTable, directoryEntry, two, holds.third]
  exact ⟨isPresent_or_three aligned, getPageTableAddress_or_three aligned⟩

/-- Only entries past the boot page tables can share a table. -/
theorem DirectoryKept.index_of_tableAt (holds : DirectoryKept layout index s) {i j : UInt32}
    (enteredI : Entered s.mem layout.pageDirectory i)
    (enteredJ : Entered s.mem layout.pageDirectory j) (low : i = 0 ∨ i = 1)
    (same : tableAt s.mem layout.pageDirectory i = tableAt s.mem layout.pageDirectory j) :
    i = j := by
  have small : i.toNat < 2 := by
    rcases low with rfl | rfl <;> decide
  rcases holds.tableAt_cases enteredI with ⟨atI, tableI⟩ | ⟨atI, tableI⟩ | ⟨past, _⟩
  · rcases holds.tableAt_cases enteredJ with ⟨atJ, tableJ⟩ | ⟨_, tableJ⟩ | ⟨_, _, inside, tableJ⟩
    · exact atI.trans atJ.symm
    · exact absurd (tableI.symm.trans (same.trans tableJ)) layout.first_ne_second
    · have inArea := tablePage_inArea inside
      rw [← tableJ, ← same, tableI] at inArea
      exact absurd inArea (firstPageTable_outside layout)
  · rcases holds.tableAt_cases enteredJ with ⟨_, tableJ⟩ | ⟨atJ, tableJ⟩ | ⟨_, _, inside, tableJ⟩
    · exact absurd (tableJ.symm.trans (same.symm.trans tableI)) layout.first_ne_second
    · exact atI.trans atJ.symm
    · have inArea := tablePage_inArea inside
      rw [← tableJ, ← same, tableI] at inArea
      exact absurd inArea (secondPageTable_outside layout)
  · omega

/-- A directory entry that is absent is past the first three. -/
theorem DirectoryKept.absent_high (holds : DirectoryKept layout index s)
    (absent : isPresent (directoryEntry s.mem layout.pageDirectory address) = false) :
    3 ≤ (getPageDirectoryIndex address).toNat := by
  by_contra low
  rw [directoryEntry] at absent
  rcases lowIndex_cases (Nat.le_of_lt_succ (Nat.lt_of_not_le low)) with here | here | here <;>
    rw [here] at absent
  · rw [holds.first, isPresent_or_three layout.firstPageTable_aligned] at absent
    cases absent
  · rw [holds.second, isPresent_or_three layout.secondPageTable_aligned] at absent
    cases absent
  · rw [holds.third, isPresent_or_three (tablePage_aligned holds.inside)] at absent
    cases absent

theorem DirectoryKept.congr (holds : DirectoryKept layout index s) {t : Machine}
    (directory : ∀ i : UInt32, i.toNat < 1024 →
      entryAt t.mem layout.pageDirectory i = entryAt s.mem layout.pageDirectory i)
    (paging : t.paging = s.paging) (cr3 : t.cr3 = s.cr3) : DirectoryKept layout index t := by
  refine ⟨holds.toDirectoryApart.congr directory paging cr3, holds.inside,
    (directory 0 (by decide)).trans holds.first, (directory 1 (by decide)).trans holds.second,
    (directory 2 (by decide)).trans holds.third, ?_⟩
  rintro i ⟨inside, present⟩ high
  rw [directory i inside] at present
  rw [tableAt, directory i inside]
  exact holds.others i ⟨inside, present⟩ high

/-- Putting a new page table into an absent entry leaves the first three alone. -/
theorem DirectoryKept.keepsTable (holds : DirectoryKept layout index s)
    (absent : isPresent (directoryEntry s.mem layout.pageDirectory address) = false)
    {bit : Nat} {bitmap : Bitmap pageTableBitmapSize} (inside : bit < 1024) :
    DirectoryKept layout index (tableAdded s layout.pageDirectory address bit bitmap) := by
  have high := holds.absent_high absent
  have old : ∀ i : UInt32, i.toNat < 3 →
      entryAt (tableAdded s layout.pageDirectory address bit bitmap).mem layout.pageDirectory i =
        entryAt s.mem layout.pageDirectory i := by
    intro i low
    apply entryAt_withTable_of_ne layout.pageDirectory_aligned (by omega)
    rintro rfl
    omega
  refine ⟨(holds.addTable absent inside).1, holds.inside, (old 0 (by decide)).trans holds.first,
    (old 1 (by decide)).trans holds.second, (old 2 (by decide)).trans holds.third, ?_⟩
  intro i entered past
  rcases entered_tableAdded layout.pageDirectory_aligned inside entered with
    ⟨_, table⟩ | ⟨before, table⟩
  · exact ⟨bit, inside, table⟩
  · rw [table]
    exact holds.others i before past

theorem DirectoryKept.keepsEntry (holds : DirectoryKept layout index s) (value : UInt32)
    (present : isPresent (directoryEntry s.mem layout.pageDirectory address) = true) :
    DirectoryKept layout index { s with
      mem := withEntry s.mem (servingTable s.mem layout.pageDirectory address) address value } :=
  holds.congr (fun _ => holds.withEntry_directory value present) rfl rfl

theorem DirectoryKept.keepsPrepared (holds : DirectoryKept layout index s) {ready : Machine}
    {table : UInt32} (prepared : Prepared layout s address table ready) :
    DirectoryKept layout index ready := by
  cases prepared with
  | present _ => exact holds
  | added absent taken => exact holds.keepsTable absent (firstFit_index_lt taken)

end DirectoryKept

section Invariant

variable {layout : Layout} {index : Nat} {s : Machine} {address : UInt32}

theorem Booted.directoryKept (booted : Booted layout index s) : DirectoryKept layout index s := by
  have low : ∀ i, Entered s.mem layout.pageDirectory i → i.toNat < 3 := by
    rintro i ⟨inside, present⟩
    by_contra high
    rw [booted.absent i (by omega) inside] at present
    cases present
  refine ⟨⟨booted.paged, booted.cr3, fun i entered => ?_⟩, booted.inside, booted.first,
    booted.second, booted.third, fun i entered high => absurd (low i entered) (by omega)⟩
  rcases lowIndex_cases (Nat.le_of_lt_succ (low i entered)) with rfl | rfl | rfl
  · rw [tableAt, booted.first, getPageTableAddress_or_three layout.firstPageTable_aligned]
    exact ⟨firstPageTable_identity layout, layout.first_ne_directory⟩
  · rw [tableAt, booted.second, getPageTableAddress_or_three layout.secondPageTable_aligned]
    exact ⟨secondPageTable_identity layout, layout.second_ne_directory⟩
  · rw [tableAt, booted.third, getPageTableAddress_or_three (tablePage_aligned booted.inside)]
    exact ⟨tablePage_identity booted.inside, fun same =>
      pageDirectory_outside layout (same ▸ tablePage_inArea booted.inside)⟩

theorem Booted.identity_holds (booted : Booted layout index s) : Identity layout index s := by
  refine ⟨booted.directoryKept, booted.identity, ?_, ?_, ?_, ?_⟩
  · rw [booted.heapCurrent]
  · rw [booted.heapCurrent, booted.heapMapped]
  · rw [booted.heapMapped]
    rfl
  · intro address _ above below
    rw [booted.heapMapped] at below
    omega

/-- An entry of an identity-mapped table is reached at its own address. -/
theorem Identity.direct (holds : Identity layout index s) {table i : UInt32}
    (identity : IdentityPage table) (inside : i.toNat < 1024) : Direct s (slot table i) :=
  holds.toDirectoryApart.direct identity.1 (holds.identity table identity) inside

/-- The invariant looks at memory through the tables only. -/
theorem Identity.of_sameTables (holds : Identity layout index s) {mem : Bytes}
    (same : SameTables s.mem mem) : Identity layout index { s with mem := mem } := by
  refine ⟨holds.toDirectoryKept.congr (holds.sameEntries same).directory rfl rfl, ?_,
    holds.heapAbove, holds.heapBelow, holds.heapAligned, ?_⟩
  · intro address identity
    exact (holds.walk_sameTables same address).trans (holds.identity address identity)
  · intro address aligned above below
    rw [holds.walk_sameTables same address]
    exact holds.heap address aligned above below

theorem Identity.addTable (holds : Identity layout index s)
    (absent : isPresent (directoryEntry s.mem layout.pageDirectory address) = false)
    {bit : Nat} {bitmap : Bitmap pageTableBitmapSize} (inside : bit < 1024) :
    Identity layout index (tableAdded s layout.pageDirectory address bit bitmap) := by
  have kept : ∀ other, isPresent (directoryEntry s.mem layout.pageDirectory other) = true →
      walk (tableAdded s layout.pageDirectory address bit bitmap).mem layout.pageDirectory other =
        walk s.mem layout.pageDirectory other := (holds.toDirectoryApart.addTable absent inside).2
  refine ⟨holds.keepsTable absent inside, ?_, holds.heapAbove, holds.heapBelow,
    holds.heapAligned, ?_⟩
  · intro other identity
    have translates := holds.identity other identity
    exact (kept other (present_of_walk translates)).trans translates
  · intro other aligned above below
    obtain ⟨frame, frameAligned, inFrames, translates⟩ := holds.heap other aligned above below
    exact ⟨frame, frameAligned, inFrames,
      (kept other (present_of_walk translates)).trans translates⟩

/-- The entry of a page that is no identity page is no entry of an identity page,
unless it is in the lower quarter of the third entry's table. -/
theorem Identity.entry_apart (holds : Identity layout index s) (aligned : PageAligned address)
    (outside : ¬ IdentityPage address)
    (present : isPresent (directoryEntry s.mem layout.pageDirectory address) = true)
    (safe : servingTable s.mem layout.pageDirectory address = tablePage index →
      256 ≤ (getPageTableIndex address).toNat) {other : UInt32} (identity : IdentityPage other) :
    ¬ (servingTable s.mem layout.pageDirectory other =
        servingTable s.mem layout.pageDirectory address ∧
      getPageTableIndex other = getPageTableIndex address) := by
  rintro ⟨sameTable, sameSlot⟩
  have served := entered_of_present (present_of_walk (holds.identity other identity))
  have boot : getPageDirectoryIndex other = 0 ∨ getPageDirectoryIndex other = 1 → False := by
    intro low
    have sameIndex := holds.index_of_tableAt served (entered_of_present present) low sameTable
    exact outside (eq_of_indices identity.1 aligned sameIndex sameSlot ▸ identity)
  rcases identity.indices with zero | one | ⟨two, lower⟩
  · exact boot (.inl zero)
  · exact boot (.inr one)
  · have upper := safe (sameTable.symm.trans (holds.served_third two).2)
    rw [← sameSlot] at upper
    omega

/-- Storing a frame of the frame area for such a page keeps the invariant. -/
theorem Identity.storeEntry (holds : Identity layout index s) {frame : UInt32}
    (aligned : PageAligned address) (outside : ¬ IdentityPage address)
    (frameAligned : PageAligned frame) (inFrames : InFrameArea frame)
    (present : isPresent (directoryEntry s.mem layout.pageDirectory address) = true)
    (safe : servingTable s.mem layout.pageDirectory address = tablePage index →
      256 ≤ (getPageTableIndex address).toNat) :
    Identity layout index { s with
        mem := withEntry s.mem (servingTable s.mem layout.pageDirectory address) address
          (frame ||| 3) } ∧
      walk (withEntry s.mem (servingTable s.mem layout.pageDirectory address) address
        (frame ||| 3)) layout.pageDirectory address = some frame := by
  have walks := (holds.toDirectoryApart.storeEntry frameAligned present).2
  refine ⟨⟨holds.keepsEntry _ present, ?_, holds.heapAbove, holds.heapBelow, holds.heapAligned, ?_⟩,
    (walks address aligned present).trans (if_pos ⟨rfl, rfl⟩)⟩
  · intro other identity
    have translates := holds.identity other identity
    rw [walks other identity.1 (present_of_walk translates),
      if_neg (holds.entry_apart aligned outside present safe identity), translates]
  · intro other otherAligned above below
    obtain ⟨old, oldAligned, oldInFrames, translates⟩ := holds.heap other otherAligned above below
    rw [walks other otherAligned (present_of_walk translates)]
    split
    · exact ⟨frame, frameAligned, inFrames, rfl⟩
    · exact ⟨old, oldAligned, oldInFrames, translates⟩

end Invariant

/-! ## One page mapping -/

/-- The page table `map_page` stores the entry of a page in: the one its directory
entry holds, or else the page of the lowest clear bit. -/
def mappingTable (layout : Layout) (s : Machine) (virtualAddress : UInt32) : Option UInt32 :=
  if isPresent (directoryEntry s.mem layout.pageDirectory virtualAddress) then
    some (servingTable s.mem layout.pageDirectory virtualAddress)
  else s.pageTableBitmap.firstFit.map fun taken => tablePage taken.1

/-- The entry of a page goes to another table than the third directory entry's, or
past the entries that identity map the end of the page table area. -/
def SafeMapping (layout : Layout) (s : Machine) (virtualAddress : UInt32) : Prop :=
  mappingTable layout s virtualAddress = some (tableAt s.mem layout.pageDirectory 2) →
    256 ≤ (getPageTableIndex virtualAddress).toNat

section Step

variable {layout : Layout} {index : Nat} {s after : Machine} {address frame : UInt32}

/-- A page that has a table for its entry can be prepared for it. -/
theorem prepared_of_mappingTable {table : UInt32}
    (serves : mappingTable layout s address = some table) :
    ∃ ready, Prepared layout s address table ready := by
  cases present : isPresent (directoryEntry s.mem layout.pageDirectory address) with
  | true =>
      rw [mappingTable, if_pos present, Option.some_inj] at serves
      exact ⟨s, serves ▸ .present present⟩
  | false =>
      rw [mappingTable, if_neg (by simp [present]), Option.map_eq_some_iff] at serves
      obtain ⟨⟨bit, bitmap⟩, taken, rfl⟩ := serves
      exact ⟨_, .added present taken⟩

theorem Prepared.mappingTable_eq {table : UInt32} {ready : Machine}
    (prepared : Prepared layout s address table ready) :
    mappingTable layout s address = some table := by
  cases prepared with
  | present present => exact if_pos present
  | added absent taken => rw [mappingTable, if_neg (by simp [absent]), taken, Option.map_some]

/-- A mapping that returns had a table to prepare its page for. -/
theorem prepared_of_found (found :
      isPresent (directoryEntry s.mem layout.pageDirectory address) = true ∨
        isPresent (directoryEntry s.mem layout.pageDirectory address) = false ∧
          ∃ bit bitmap, s.pageTableBitmap.firstFit = some (bit, bitmap)) :
    ∃ table ready, Prepared layout s address table ready := by
  rcases found with present | ⟨absent, bit, bitmap, taken⟩
  · exact ⟨_, _, .present present⟩
  · exact ⟨_, _, .added absent taken⟩

theorem Identity.prepared_keeps (holds : Identity layout index s) {table : UInt32}
    {ready : Machine} (prepared : Prepared layout s address table ready) :
    Identity layout index ready ∧ IdentityPage table := by
  cases prepared with
  | present present => exact ⟨holds, holds.tableAt_identity (entered_of_present present)⟩
  | added absent taken =>
      have inside := firstFit_index_lt taken
      exact ⟨holds.addTable absent inside, tablePage_identity inside⟩

/-- Where `map_page` finds a table for a page it returns: the table is put into the
directory if it is new, and the entry is stored in it. -/
theorem Identity.mapPage_run (holds : Identity layout index s) (aligned : PageAligned address)
    (frameAligned : PageAligned frame) {table : UInt32}
    (serves : mappingTable layout s address = some table) :
    ∃ ready, Identity layout index ready ∧ Prepared layout s address table ready ∧
      mapPage layout.pageDirectory address frame s = .ok () { ready with
        mem := withEntry ready.mem (servingTable ready.mem layout.pageDirectory address) address
          (frame ||| 3) } := by
  obtain ⟨ready, prepared⟩ := prepared_of_mappingTable serves
  obtain ⟨kept, identity⟩ := holds.prepared_keeps prepared
  exact ⟨ready, kept, prepared, holds.toDirectoryApart.mapPage_run aligned frameAligned
    (holds.identity _ (pageDirectory_identity layout)) (holds.identity table identity) prepared⟩

theorem Identity.mapPage_keeps (holds : Identity layout index s)
    (outside : ¬ IdentityPage address) (inFrames : InFrameArea frame)
    (safe : SafeMapping layout s address)
    (returned : mapPage layout.pageDirectory address frame s = .ok () after) :
    Identity layout index after ∧ walk after.mem layout.pageDirectory address = some frame := by
  obtain ⟨aligned, frameAligned, found⟩ := mapPage_requires returned
    (holds.direct (pageDirectory_identity layout) (getPageDirectoryIndex_lt address))
  obtain ⟨table, _, some⟩ := prepared_of_found found
  have serves := some.mappingTable_eq
  obtain ⟨ready, kept, prepared, run⟩ := holds.mapPage_run aligned frameAligned serves
  obtain ⟨present, serving⟩ := prepared.serves
  rw [returned] at run
  injection run with _ state
  subst state
  refine kept.storeEntry aligned outside frameAligned inFrames present fun third => ?_
  apply safe
  rw [serves, ← serving, third, holds.third_table]

theorem takePageFrame_ok (returned : takePageFrame s = .ok frame after) :
    PageAligned frame ∧ InFrameArea frame ∧
      ∃ bitmap, after = { s with pageFrameBitmap := bitmap } := by
  unfold takePageFrame at returned
  split at returned
  · cases returned
  · rename_i pageIndex bitmap taken
    have inside := (Bitmap.firstFit_some taken).1
    rw [pageFrameBitmapSize_eq] at inside
    injection returned with position state
    have place : frame.toNat = 0x00900000 + 4096 * pageIndex := by
      rw [← position, UInt32.toNat_add, UInt32.toNat_mul, UInt32.toNat_ofNat', toNat_pageSize,
        toNat_pageFrameAllocatorAreaStart]
      omega
    refine ⟨?_, ?_, bitmap, state.symm⟩
    · rw [PageAligned, place]
      omega
    · rw [InFrameArea, place]
      omega

/-- What `page_frame_allocate` did when it returned: it took a frame, mapped the page to
it, and cleared the page. -/
theorem pageFrameAllocate_ok {ret : UInt32}
    (returned : pageFrameAllocate layout address s = .ok ret after) :
    PageAligned address ∧ ∃ frame bitmap mapped, PageAligned frame ∧ InFrameArea frame ∧
      mapPage layout.pageDirectory address frame { s with pageFrameBitmap := bitmap } =
        .ok () mapped ∧
      memset address 0 pageSize mapped = .ok () after := by
  rw [pageFrameAllocate, bind_ok_iff] at returned
  obtain ⟨_, _, first, rest⟩ := returned
  obtain ⟨check, rfl⟩ := panicIf_ok_iff.mp first
  refine ⟨aligned_of_check check, ?_⟩
  rw [bind_ok_iff] at rest
  obtain ⟨frame, _, took, rest⟩ := rest
  obtain ⟨frameAligned, inFrames, bitmap, rfl⟩ := takePageFrame_ok took
  rw [bind_ok_iff] at rest
  obtain ⟨_, mapped, mapping, rest⟩ := rest
  rw [bind_ok_iff] at rest
  obtain ⟨_, _, cleared, rest⟩ := rest
  cases rest
  exact ⟨frame, bitmap, mapped, frameAligned, inFrames, mapping, cleared⟩

/-- Which frames are taken does not matter to the invariant. -/
theorem Identity.withFrames (holds : Identity layout index s)
    (bitmap : Bitmap pageFrameBitmapSize) :
    Identity layout index { s with pageFrameBitmap := bitmap } :=
  ⟨holds.toDirectoryKept.congr (fun _ _ => rfl) rfl rfl, holds.identity, holds.heapAbove,
    holds.heapBelow, holds.heapAligned, holds.heap⟩

theorem Identity.pageFrameAllocate_keeps (holds : Identity layout index s)
    (outside : ¬ IdentityPage address) (safe : SafeMapping layout s address) {ret : UInt32}
    (returned : pageFrameAllocate layout address s = .ok ret after) :
    Identity layout index after ∧ ∃ frame, PageAligned frame ∧ InFrameArea frame ∧
      walk after.mem layout.pageDirectory address = some frame := by
  obtain ⟨aligned, frame, bitmap, mapped, frameAligned, inFrames, mapping, clears⟩ :=
    pageFrameAllocate_ok returned
  obtain ⟨kept, translates⟩ :=
    (holds.withFrames bitmap).mapPage_keeps outside inFrames safe mapping
  obtain ⟨mem, rfl, same, still⟩ := kept.clearPage_ok aligned inFrames translates clears
  exact ⟨kept.of_sameTables same, frame, frameAligned, inFrames, still⟩

end Step

/-! ## One heap allocation -/

/-- The states in which the mapping loop of `heap_allocate` maps a page, from `s` on. -/
inductive HeapMaps (layout : Layout) (size : UInt32) : Machine → Machine → Prop where
  | here {s : Machine} (again : s.heapCurrent + size > s.heapMapped) : HeapMaps layout size s s
  | later {s next t : Machine} (again : s.heapCurrent + size > s.heapMapped)
      (mapped : heapMapNext layout s = .ok () next) (rest : HeapMaps layout size next t) :
      HeapMaps layout size s t

section Heap

variable {layout : Layout} {index : Nat} {s after : Machine} {size : UInt32}

theorem heapMapNext_ok (returned : heapMapNext layout s = .ok () after) :
    ∃ ret grown, pageFrameAllocate layout s.heapMapped s = .ok ret grown ∧
      after = { grown with heapMapped := grown.heapMapped + pageSize } := by
  rw [heapMapNext, bind_of_ok (read_run _ _), bind_ok_iff] at returned
  obtain ⟨ret, grown, allocated, rest⟩ := returned
  cases rest
  exact ⟨ret, grown, allocated, rfl⟩

/-- What `heap_allocate` did when it returned: its loop mapped the block, and the block
was cleared. -/
theorem heapAllocate_ok {ret : UInt32} (returned : heapAllocate layout size s = .ok ret after) :
    (s.heapCurrent + size).toNat ≤ heapAllocatorAreaEnd.toNat ∧
      ∃ grown cleared, heapMapUpTo layout size s = .ok () grown ∧
        memset grown.heapCurrent 0 size grown = .ok () cleared ∧
        after = { cleared with
          heapCurrent := cleared.heapCurrent + size
          kallocs := cleared.kallocs ++ [⟨cleared.heapCurrent, size⟩] } := by
  rw [heapAllocate, bind_of_ok (read_run _ _), bind_ok_iff] at returned
  obtain ⟨_, _, first, rest⟩ := returned
  obtain ⟨check, rfl⟩ := panicIf_ok_iff.mp first
  rw [decide_eq_false_iff_not, gt_iff_lt, UInt32.lt_iff_toNat_lt, Nat.not_lt] at check
  rw [bind_ok_iff] at rest
  obtain ⟨_, grown, mapping, rest⟩ := rest
  rw [bind_of_ok (read_run _ _), bind_ok_iff] at rest
  obtain ⟨_, cleared, clears, rest⟩ := rest
  cases rest
  exact ⟨check, grown, cleared, mapping, clears, rfl⟩

/-- What every mapping of the loop keeps holds when the loop returns, with the request
covered and the heap top where it was. -/
theorem heapMapUpTo_keeps {I : Machine → Prop}
    (limit : (s.heapCurrent + size).toNat ≤ heapAllocatorAreaEnd.toNat)
    (round : ∀ {t next}, HeapMaps layout size s t → I t →
      t.heapMapped.toNat < heapAllocatorAreaEnd.toNat → heapMapNext layout t = .ok () next → I next)
    (holds : I s) (returned : heapMapUpTo layout size s = .ok () after) :
    I after ∧ after.heapCurrent = s.heapCurrent ∧
      (s.heapCurrent + size).toNat ≤ after.heapMapped.toNat := by
  -- Every mapping still to come is one of the loop's mappings from the start.
  have kept := loop_ok (I := fun _ t => I t ∧ t.heapCurrent = s.heapCurrent ∧
    ∀ u, HeapMaps layout size t u → HeapMaps layout size s u) ?_ ⟨holds, rfl, fun _ => id⟩ returned
  · obtain ⟨⟨holdsAfter, current, _⟩, done⟩ := kept
    rw [decide_eq_false_iff_not, current, gt_iff_lt, UInt32.lt_iff_toNat_lt] at done
    exact ⟨holdsAfter, current, by omega⟩
  · rintro _ t _ next ⟨holdsHere, current, maps⟩ again mapped
    rw [decide_eq_true_eq] at again
    have below : t.heapMapped.toNat < heapAllocatorAreaEnd.toNat := by
      have guard := again
      rw [current, gt_iff_lt, UInt32.lt_iff_toNat_lt] at guard
      omega
    obtain ⟨_, grown, allocated, rfl⟩ := heapMapNext_ok mapped
    have same := ((pageFrameAllocate_settles layout t.heapMapped).yields t).of_ok allocated
    exact ⟨round (maps t (.here again)) holdsHere below mapped, same.heapCurrent.trans current,
      fun u later => maps u (.later again mapped later)⟩

/-- The page at the watermark is no identity page. -/
theorem Identity.watermark_outside (holds : Identity layout index s)
    (below : s.heapMapped.toNat < heapAllocatorAreaEnd.toNat) : ¬ IdentityPage s.heapMapped := by
  have above := holds.heapAbove
  have ordered := holds.heapBelow
  rw [toNat_heapAllocatorAreaEnd] at below
  rw [toNat_heapAllocatorAreaStart] at above
  rw [identityPage_iff]
  omega

/-- Once the page at the watermark has a frame, the watermark can move past it. -/
theorem Identity.extend (holds : Identity layout index s)
    (below : s.heapMapped.toNat < heapAllocatorAreaEnd.toNat) {frame : UInt32}
    (frameAligned : PageAligned frame) (inFrames : InFrameArea frame)
    (translates : walk s.mem layout.pageDirectory s.heapMapped = some frame) :
    Identity layout index { s with heapMapped := s.heapMapped + pageSize } := by
  rw [toNat_heapAllocatorAreaEnd] at below
  have ordered := holds.heapBelow
  have aligned := holds.heapAligned
  have advanced : (s.heapMapped + pageSize).toNat = s.heapMapped.toNat + 4096 := by
    rw [UInt32.toNat_add, toNat_pageSize]
    omega
  refine ⟨holds.toDirectoryKept.congr (fun _ _ => rfl) rfl rfl, holds.identity,
    holds.heapAbove, ?_, ?_, ?_⟩
  · change s.heapCurrent.toNat ≤ (s.heapMapped + pageSize).toNat
    omega
  · change (s.heapMapped + pageSize).toNat % 4096 = 0
    unfold PageAligned at aligned
    omega
  · intro address addressAligned start limit
    change address.toNat < (s.heapMapped + pageSize).toNat at limit
    by_cases last : address = s.heapMapped
    · rw [last]
      exact ⟨frame, frameAligned, inFrames, translates⟩
    · have different : address.toNat ≠ s.heapMapped.toNat := fun same =>
        last (UInt32.toNat_inj.mp same)
      refine holds.heap address addressAligned start ?_
      unfold PageAligned at aligned addressAligned
      omega

/-- One round of the mapping loop extends the mapped heap by a page. -/
theorem Identity.heapMapNext_keeps (holds : Identity layout index s)
    (below : s.heapMapped.toNat < heapAllocatorAreaEnd.toNat)
    (safe : SafeMapping layout s s.heapMapped)
    (returned : heapMapNext layout s = .ok () after) : Identity layout index after := by
  obtain ⟨_, grown, allocated, rfl⟩ := heapMapNext_ok returned
  obtain ⟨kept, frame, frameAligned, inFrames, translates⟩ :=
    holds.pageFrameAllocate_keeps (holds.watermark_outside below) safe allocated
  have same := ((pageFrameAllocate_settles layout s.heapMapped).yields s).of_ok allocated
  rw [← same.heapMapped] at below translates
  exact kept.extend below frameAligned inFrames translates

/-- Where the pages of the mapped heap translate into the frame area, every address of
the mapped heap does. -/
theorem heap_byte (pages : ∀ address, PageAligned address →
      heapAllocatorAreaStart.toNat ≤ address.toNat → address.toNat < s.heapMapped.toNat →
      ∃ frame, PageAligned frame ∧ InFrameArea frame ∧
        walk s.mem layout.pageDirectory address = some frame) {address : UInt32}
    (above : heapAllocatorAreaStart.toNat ≤ address.toNat)
    (below : address.toNat < s.heapMapped.toNat) :
    ∃ target, InFrameArea target ∧ walk s.mem layout.pageDirectory address = some target := by
  have position : (getPageTableAddress address).toNat = address.toNat / 4096 * 4096 :=
    Word.toNat_and_high address
  have aligned := getPageTableAddress_aligned address
  rw [toNat_heapAllocatorAreaStart] at above
  obtain ⟨frame, frameAligned, inFrames, translates⟩ := pages (getPageTableAddress address)
    aligned (by rw [toNat_heapAllocatorAreaStart]; omega) (by omega)
  have member : address ∈ page (getPageTableAddress address) := by
    rw [mem_page_iff aligned]
    omega
  obtain ⟨_, target⟩ := walk_of_mem_page aligned member translates
  refine ⟨_, ?_, target⟩
  have wide := address.toNat_lt
  unfold InFrameArea PageAligned at *
  rw [UInt32.toNat_add, UInt32.toNat_sub]
  omega

/-- Every address of a block that ends below the watermark translates into the frame
area. -/
theorem heap_block (pages : ∀ address, PageAligned address →
      heapAllocatorAreaStart.toNat ≤ address.toNat → address.toNat < s.heapMapped.toNat →
      ∃ frame, PageAligned frame ∧ InFrameArea frame ∧
        walk s.mem layout.pageDirectory address = some frame)
    (above : heapAllocatorAreaStart.toNat ≤ s.heapCurrent.toNat)
    (fits : s.heapCurrent.toNat + size.toNat < 2 ^ 32)
    (covered : (s.heapCurrent + size).toNat ≤ s.heapMapped.toNat) :
    ∀ i < size.toNat, ∃ target, InFrameArea target ∧
      walk s.mem layout.pageDirectory (s.heapCurrent + UInt32.ofNat i) = some target := by
  intro i inside
  have top : (s.heapCurrent + size).toNat = s.heapCurrent.toNat + size.toNat := by
    rw [UInt32.toNat_add]
    omega
  have position : (s.heapCurrent + UInt32.ofNat i).toNat = s.heapCurrent.toNat + i := by
    rw [UInt32.toNat_add, UInt32.toNat_ofNat']
    omega
  exact heap_byte pages (by omega) (by omega)

/-- Clearing a block of the mapped heap returns and leaves the tables alone. -/
theorem Identity.clearBlock_run (holds : Identity layout index s)
    (fits : s.heapCurrent.toNat + size.toNat < 2 ^ 32)
    (covered : (s.heapCurrent + size).toNat ≤ s.heapMapped.toNat) :
    ∃ mem, memset s.heapCurrent 0 size s = .ok () { s with mem := mem } ∧
      SameTables s.mem mem :=
  holds.memset_run s.heapCurrent 0 size (heap_block holds.heap holds.heapAbove fits covered)

/-- The heap top can move up to the watermark. -/
theorem Identity.advance (holds : Identity layout index s) (blocks : List Block)
    (fits : s.heapCurrent.toNat + size.toNat < 2 ^ 32)
    (covered : (s.heapCurrent + size).toNat ≤ s.heapMapped.toNat) :
    Identity layout index
      { s with heapCurrent := s.heapCurrent + size, kallocs := blocks } := by
  have above := holds.heapAbove
  refine ⟨holds.toDirectoryKept.congr (fun _ _ => rfl) rfl rfl, holds.identity, ?_, covered,
    holds.heapAligned, holds.heap⟩
  change _ ≤ (s.heapCurrent + size).toNat
  rw [UInt32.toNat_add]
  omega

theorem Identity.heapAllocate_keeps (holds : Identity layout index s)
    (fits : s.heapCurrent.toNat + size.toNat < 2 ^ 32)
    (safe : ∀ t, HeapMaps layout size s t → SafeMapping layout t t.heapMapped) {ret : UInt32}
    (returned : heapAllocate layout size s = .ok ret after) : Identity layout index after := by
  obtain ⟨check, grown, _, mapping, clears, rfl⟩ := heapAllocate_ok returned
  obtain ⟨kept, current, covered⟩ := heapMapUpTo_keeps check
    (fun maps kept below => kept.heapMapNext_keeps below (safe _ maps)) holds mapping
  rw [← current] at fits covered
  obtain ⟨mem, cleared, same⟩ := kept.clearBlock_run fits covered
  rw [clears] at cleared
  cases cleared
  exact (kept.of_sameTables same).advance _ fits covered

end Heap

/-! ## Runs of allocations -/

/-- A call of `heap_allocate` or `page_frame_allocate`. -/
inductive Allocation where
  | heap (size : UInt32)
  | pageFrame (virtualAddress : UInt32)

namespace Allocation

/-- Make the call. -/
def run (layout : Layout) : Allocation → Kernel UInt32
  | .heap size => heapAllocate layout size
  | .pageFrame virtualAddress => pageFrameAllocate layout virtualAddress

/-- A page frame is asked for outside the kernel, the page table area and the VGA buffer. -/
def Allowed : Allocation → Prop
  | .heap _ => True
  | .pageFrame virtualAddress =>
      ¬ (kernelStart ≤ virtualAddress ∧ virtualAddress < kernelEnd) ∧
        ¬ InTableArea virtualAddress ∧ virtualAddress ≠ vgaMemory

/-- Every page the call maps is mapped safely, and its size does not carry the heap
top past 2^32. -/
def Safe (layout : Layout) (s : Machine) : Allocation → Prop
  | .heap size => s.heapCurrent.toNat + size.toNat < 2 ^ 32 ∧
      ∀ t, HeapMaps layout size s t → SafeMapping layout t t.heapMapped
  | .pageFrame virtualAddress => SafeMapping layout s virtualAddress

/-- A run of calls that all return. -/
inductive Run (layout : Layout) : Machine → List Allocation → Machine → Prop where
  | done {s : Machine} : Run layout s [] s
  | call {s middle after : Machine} {ret : UInt32} {call : Allocation} {rest : List Allocation}
      (returned : call.run layout s = .ok ret middle) (later : Run layout middle rest after) :
      Run layout s (call :: rest) after

/-- Every call of a run is made safely. -/
inductive SafeRun (layout : Layout) : Machine → List Allocation → Prop where
  | done {s : Machine} : SafeRun layout s []
  | call {s : Machine} {call : Allocation} {rest : List Allocation} (safe : call.Safe layout s)
      (later : ∀ ret middle, call.run layout s = .ok ret middle → SafeRun layout middle rest) :
      SafeRun layout s (call :: rest)

end Allocation

section Runs

variable {layout : Layout} {index : Nat} {s after : Machine}

theorem Identity.allocation_keeps (holds : Identity layout index s) {call : Allocation}
    (allowed : call.Allowed) (safe : call.Safe layout s) {ret : UInt32}
    (returned : call.run layout s = .ok ret after) : Identity layout index after := by
  cases call with
  | heap size => exact holds.heapAllocate_keeps safe.1 safe.2 returned
  | pageFrame virtualAddress =>
      have outside : ¬ IdentityPage virtualAddress := by
        rintro ⟨_, inKernel | inArea | vga⟩
        · exact allowed.1 inKernel
        · exact allowed.2.1 inArea
        · exact allowed.2.2 vga
      exact (holds.pageFrameAllocate_keeps outside safe returned).1

theorem Identity.run_keeps {calls : List Allocation} (run : Allocation.Run layout s calls after)
    (holds : Identity layout index s) (allowed : ∀ call ∈ calls, call.Allowed)
    (safe : Allocation.SafeRun layout s calls) : Identity layout index after := by
  induction run with
  | done => exact holds
  | call returned later ih =>
      cases safe with
      | call here rest =>
          have next := holds.allocation_keeps (allowed _ List.mem_cons_self) here returned
          exact ih next (fun call member => allowed call (List.mem_cons_of_mem _ member))
            (rest _ _ returned)

/-- After an `init_paging` that spares the arrays it works on, and any run of safe
allocations, the kernel, the page table area and the VGA buffer still translate to
themselves. -/
theorem safeRun_keeps_identity {start : Machine} (spares : OverrunSpares layout)
    (unpaged : s.paging = false) (booted : initPaging layout s = .ok () start)
    (calls : List Allocation)
    (allowed : ∀ call ∈ calls, call.Allowed) (safe : Allocation.SafeRun layout start calls)
    (run : Allocation.Run layout start calls after) :
    ∀ address, IdentityPage address →
      walk after.mem layout.pageDirectory address = some address := by
  obtain ⟨index, _, _, state⟩ := (initPaging_boots layout unpaged spares).of_ok booted
  exact (Identity.run_keeps run state.identity_holds allowed safe).identity

end Runs

/-! ## The first page after a boot -/

section FirstPage

variable {layout : Layout} {s mapped : Machine} {address : UInt32}

theorem Booted.takePageFrame_run (booted : Booted layout 0 s) :
    ∃ bitmap, takePageFrame s =
      .ok pageFrameAllocatorAreaStart { s with pageFrameBitmap := bitmap } := by
  have nonempty : 0 < pageFrameBitmapSize := by
    rw [pageFrameBitmapSize_eq]
    decide
  obtain ⟨bitmap, lowest⟩ := Bitmap.firstFit_clear nonempty
  rw [← booted.frameBitmap] at lowest
  refine ⟨bitmap, ?_⟩
  simp only [takePageFrame, lowest]
  rfl

/-- The first page frame asked for after a boot: the table that serves its page gets
the entry, and an identity page of the third directory entry that uses the same
entry translates to the first frame. -/
theorem Booted.pageFrameAllocate_run (booted : Booted layout 0 s) (aligned : PageAligned address)
    {table : UInt32} (serves : mappingTable layout s address = some table) :
    ∃ after, pageFrameAllocate layout address s = .ok address after ∧
      ∀ other, IdentityPage other → getPageDirectoryIndex other = 2 →
        walk after.mem layout.pageDirectory other =
          if tablePage 0 = table ∧ getPageTableIndex other = getPageTableIndex address then
            some pageFrameAllocatorAreaStart
          else some other := by
  have frameAligned : PageAligned pageFrameAllocatorAreaStart := rfl
  have inFrames : InFrameArea pageFrameAllocatorAreaStart := by
    unfold InFrameArea
    decide
  obtain ⟨bitmap, took⟩ := booted.takePageFrame_run
  obtain ⟨ready, kept, prepared, mapping⟩ :=
    (booted.identity_holds.withFrames bitmap).mapPage_run aligned frameAligned (by exact serves)
  obtain ⟨present, serving⟩ := prepared.serves
  obtain ⟨stored, walks⟩ := kept.toDirectoryApart.storeEntry frameAligned present
  have translates := (walks address aligned present).trans (if_pos ⟨rfl, rfl⟩)
  obtain ⟨mem, cleared, same⟩ := stored.clearPage_run aligned inFrames translates
  have run : pageFrameAllocate layout address s = .ok address { ready with mem := mem } := by
    unfold pageFrameAllocate
    rw [bind_of_ok (panicIf_run (check_of_aligned aligned)), bind_of_ok took,
      bind_of_ok mapping, bind_of_ok cleared]
    rfl
  refine ⟨_, run, fun other identity two => ?_⟩
  have served := kept.served_third two
  have before := kept.identity other identity
  refine (stored.walk_sameTables same other).trans ((walks other identity.1 served.1).trans ?_)
  rw [served.2, serving, before]

end FirstPage

/-- A page of the second directory entry is mapped without touching the third's table. -/
theorem safeRun_keeps_identity_one_page :
    ∃ start after, initPaging Layout.sample (Machine.boot fun _ => 0) = .ok () start ∧
      Allocation.Run Layout.sample start [.pageFrame 0x00400000] after ∧
      walk after.mem Layout.sample.pageDirectory 0x00800000 = some 0x00800000 := by
  obtain ⟨start, returned, booted⟩ := initPaging_of_boot overrunSpares_sample fun _ => 0
  have aligned : PageAligned 0x00400000 := rfl
  have one : getPageDirectoryIndex 0x00400000 = 1 := by decide
  have entry : directoryEntry start.mem Layout.sample.pageDirectory 0x00400000 =
      Layout.sample.secondPageTable ||| 3 := by
    rw [directoryEntry, one, booted.second]
  have serves : mappingTable Layout.sample start 0x00400000 =
      some Layout.sample.secondPageTable := by
    have tableAligned := Layout.sample.secondPageTable_aligned
    rw [mappingTable, servingTable, entry, if_pos (isPresent_or_three tableAligned),
      getPageTableAddress_or_three tableAligned]
  obtain ⟨after, allocated, _⟩ := booted.pageFrameAllocate_run aligned serves
  have safe : SafeMapping Layout.sample start 0x00400000 := by
    rw [SafeMapping, serves, booted.identity_holds.third_table]
    decide
  have run : Allocation.Run Layout.sample start [.pageFrame 0x00400000] after :=
    .call allocated .done
  have allowed : ∀ call ∈ [Allocation.pageFrame 0x00400000], call.Allowed := by
    intro call member
    rw [List.mem_singleton.mp member]
    refine ⟨by decide, ?_, by decide⟩
    rw [inTableArea_iff]
    decide
  have eight : IdentityPage 0x00800000 := identityPage_iff.mpr (by decide)
  exact ⟨start, after, returned, run,
    safeRun_keeps_identity overrunSpares_sample rfl returned _ allowed
      (.call safe fun _ _ _ => .done) run _ eight⟩

/-- After a boot on zeroed memory, asking for a frame at the start of the heap remaps
the page of the page table area at 0x00800000. -/
theorem pageFrameAllocate_breaks_identity :
    ∃ start after, initPaging Layout.sample (Machine.boot fun _ => 0) = .ok () start ∧
      (Allocation.pageFrame 0x0F000000).Allowed ∧
      Allocation.Run Layout.sample start [.pageFrame 0x0F000000] after ∧
      IdentityPage 0x00800000 ∧
      walk after.mem Layout.sample.pageDirectory 0x00800000 = some 0x00900000 := by
  obtain ⟨start, returned, booted⟩ := initPaging_of_boot overrunSpares_sample fun _ => 0
  have aligned : PageAligned 0x0F000000 := rfl
  have sixty : getPageDirectoryIndex 0x0F000000 = 60 := by decide
  have serves : mappingTable Layout.sample start 0x0F000000 = some (tablePage 0) := by
    obtain ⟨bitmap, lowest⟩ := Bitmap.firstFit_clear pageTableBitmapSize_pos
    have absent := booted.absent 60 (by decide) (by decide)
    rw [mappingTable, directoryEntry, sixty, if_neg (by simp [absent]), booted.tableBitmap, lowest]
    rfl
  obtain ⟨after, allocated, walks⟩ := booted.pageFrameAllocate_run aligned serves
  have eight : IdentityPage 0x00800000 := identityPage_iff.mpr (by decide)
  have outside : ¬ InTableArea 0x0F000000 := by
    rw [inTableArea_iff]
    decide
  refine ⟨start, after, returned, ⟨by decide, outside, by decide⟩, .call allocated .done, eight, ?_⟩
  rw [walks _ eight (by decide), if_pos (by decide)]
  rfl

end TorchOS.Paging
