import TorchOS.Paging.Refinement
import TorchOS.Paging.Heap

/-!
# What `init_paging` leaves behind

The directory entries, the identity mappings and the allocator state after
`init_paging`. Identity mapping the page table area takes a page table for the
third directory entry, and `init_page_table_allocator` then clears the bit that
marks it: from there on the allocator believes a table in use to be free.
-/

namespace TorchOS.Paging

open Base Base.Program

/-! ## Memory that holds the same entries -/

section Entries

variable {layout : Layout} {s : Machine}

/-- A memory that agrees on every entry of the directory and of the tables in use. -/
structure SameEntries (layout : Layout) (s : Machine) (mem : Bytes) : Prop where
  directory : ∀ i : UInt32, i.toNat < 1024 →
    entryAt mem layout.pageDirectory i = entryAt s.mem layout.pageDirectory i
  table : ∀ i, Entered s.mem layout.pageDirectory i → ∀ j : UInt32, j.toNat < 1024 →
    entryAt mem (tableAt s.mem layout.pageDirectory i) j =
      entryAt s.mem (tableAt s.mem layout.pageDirectory i) j

/-- The walk of every address is the same in memories with the same entries. -/
theorem SameEntries.walk {mem : Bytes} (same : SameEntries layout s mem) (address : UInt32) :
    Paging.walk mem layout.pageDirectory address =
      Paging.walk s.mem layout.pageDirectory address := by
  have sameDirectory : directoryEntry mem layout.pageDirectory address =
      directoryEntry s.mem layout.pageDirectory address :=
    same.directory _ (getPageDirectoryIndex_lt address)
  by_cases present : isPresent (directoryEntry s.mem layout.pageDirectory address) = true
  · apply walk_congr sameDirectory
    rw [tableEntry_of_directoryEntry sameDirectory]
    exact same.table _ (entered_of_present present) _ (getPageTableIndex_lt address)
  · simp [Paging.walk, sameDirectory, present]

end Entries

/-! ## What is cleared behind the page table bitmap -/

/-- The memory that `init_page_table_allocator` clears behind `page_table_bitmap`. -/
def overrun (layout : Layout) : Set UInt32 :=
  Span (layout.pageTableBitmap + pageTableBitmapBytes)
    (pageFrameBitmapBytes - pageTableBitmapBytes).toNat

/-- It belongs to none of the arrays that paging works on: neither to the directory nor
to a boot page table. -/
structure OverrunSpares (layout : Layout) : Prop where
  directory : Disjoint (overrun layout) (page layout.pageDirectory)
  first : Disjoint (overrun layout) (page layout.firstPageTable)
  second : Disjoint (overrun layout) (page layout.secondPageTable)

/-- The memory once it is cleared. -/
def overrunCleared (layout : Layout) (mem : Bytes) : Bytes :=
  mem.write (layout.pageTableBitmap + pageTableBitmapBytes)
    (List.replicate (pageFrameBitmapBytes - pageTableBitmapBytes).toNat 0)

theorem pageTableBitmapBytes_eq : pageTableBitmapBytes = 128 := by
  rw [pageTableBitmapBytes, pageTableBitmapSize_eq]
  rfl

theorem pageFrameBitmapBytes_eq : pageFrameBitmapBytes = 7392 := by
  rw [pageFrameBitmapBytes, pageFrameBitmapSize_eq]
  rfl

section Overrun

variable {layout : Layout} {mem : Bytes} {address table index : UInt32}

theorem mem_overrun_iff : address ∈ overrun layout ↔
    layout.pageTableBitmap.toNat + 128 ≤ address.toNat ∧
      address.toNat < layout.pageTableBitmap.toNat + 7392 := by
  have upper := layout.pageTableBitmap_inKernel.2
  have sizes : (128 : UInt32).toNat = 128 ∧ (7392 - 128 : UInt32).toNat = 7264 := ⟨rfl, rfl⟩
  rw [UInt32.lt_iff_toNat_lt, toNat_kernelEnd] at upper
  have start : (layout.pageTableBitmap + 128).toNat = layout.pageTableBitmap.toNat + 128 := by
    rw [UInt32.toNat_add, sizes.1]
    omega
  rw [overrun, pageTableBitmapBytes_eq, pageFrameBitmapBytes_eq, sizes.2,
    Span.mem_iff (by omega), start]

instance : DecidablePred (· ∈ overrun layout) := fun address =>
  inferInstanceAs (Decidable (address ∈ Span _ _))

theorem overrunCleared_apply :
    overrunCleared layout mem address = if address ∈ overrun layout then 0 else mem address :=
  Bytes.write_replicate

/-- What is cleared lies below the page table area. -/
theorem overrun_apart_tablePage {bit : Nat} (inside : bit < 1024) :
    Disjoint (overrun layout) (page (tablePage bit)) := by
  rw [Set.disjoint_left]
  intro address cleared inPage
  have upper := layout.pageTableBitmap_inKernel.2
  rw [UInt32.lt_iff_toNat_lt, toNat_kernelEnd] at upper
  rw [mem_overrun_iff] at cleared
  rw [mem_page_iff (tablePage_aligned inside), toNat_tablePage inside] at inPage
  omega

/-- A page apart from what is cleared keeps its entries. -/
theorem entryAt_overrunCleared (aligned : PageAligned table) (inside : index.toNat < 1024)
    (apart : Disjoint (overrun layout) (page table)) :
    entryAt (overrunCleared layout mem) table index = entryAt mem table index := by
  refine Bytes.load32_congr fun address member => ?_
  have outside : address ∉ overrun layout :=
    Set.disjoint_right.mp apart (slot_subset_page aligned inside member)
  rw [overrunCleared_apply, if_neg outside]

/-- Any page keeps an entry or has it cleared: entries and what is cleared are both
aligned to words. -/
theorem entryAt_overrunCleared_cases (aligned : PageAligned table) (inside : index.toNat < 1024) :
    entryAt (overrunCleared layout mem) table index = entryAt mem table index ∨
      entryAt (overrunCleared layout mem) table index = 0 := by
  have start := toNat_slot aligned inside
  have words := layout.pageTableBitmap_aligned
  have wide := table.toNat_lt
  unfold PageAligned at aligned
  have member : ∀ {address}, address ∈ Span (slot table index) 4 →
      (slot table index).toNat ≤ address.toNat ∧
        address.toNat < (slot table index).toNat + 4 := fun here =>
    (Span.mem_iff (by omega)).mp here
  by_cases cleared : slot table index ∈ overrun layout
  · right
    rw [mem_overrun_iff] at cleared
    have zero :
        entryAt (overrunCleared layout mem) table index = entryAt (fun _ => 0) table index := by
      refine Bytes.load32_congr fun address here => ?_
      have place := member here
      rw [overrunCleared_apply, if_pos (mem_overrun_iff.mpr (by omega))]
    rw [zero]
    rfl
  · left
    rw [mem_overrun_iff] at cleared
    refine Bytes.load32_congr fun address here => ?_
    have place := member here
    have outside : address ∉ overrun layout := by
      rw [mem_overrun_iff]
      omega
    rw [overrunCleared_apply, if_neg outside]

end Overrun

theorem overrunSpares_sample : OverrunSpares Layout.sample := by
  refine ⟨?_, ?_, ?_⟩ <;>
  · rw [overrun, pageTableBitmapBytes_eq, pageFrameBitmapBytes_eq]
    exact (Span.disjoint_of_le (by decide) (by decide)).symm

/-! ## Mapping while paging is off -/

/-- The pages `init_paging` maps to themselves: the kernel, the page table area
and the VGA buffer. -/
def IdentityPage (address : UInt32) : Prop :=
  PageAligned address ∧
    ((kernelStart ≤ address ∧ address < kernelEnd) ∨ InTableArea address ∨ address = vgaMemory)

/-- While `init_paging` maps ranges: the directory is well formed, its first two
entries hold the boot page tables, the third is absent or holds the table of the
lowest bit that was clear, the others are absent, and the pages of `Mapped`
translate to themselves. -/
structure Booting (layout : Layout) (bitmap : Bitmap pageTableBitmapSize)
    (frames : Bitmap pageFrameBitmapSize) (Mapped : UInt32 → Prop) (s : Machine) : Prop where
  wellFormed : WellFormed layout.pageDirectory s
  unpaged : s.paging = false
  frameBitmap : s.pageFrameBitmap = frames
  first : entryAt s.mem layout.pageDirectory 0 = layout.firstPageTable ||| 3
  second : entryAt s.mem layout.pageDirectory 1 = layout.secondPageTable ||| 3
  third : (isPresent (entryAt s.mem layout.pageDirectory 2) = false ∧
      s.pageTableBitmap = bitmap) ∨
    ∃ index taken, bitmap.firstFit = some (index, taken) ∧
      entryAt s.mem layout.pageDirectory 2 = tablePage index ||| 3
  absent : ∀ index : UInt32, 3 ≤ index.toNat → index.toNat < 1024 →
    isPresent (entryAt s.mem layout.pageDirectory index) = false
  identity : ∀ address, Mapped address → PageAligned address ∧
    walk s.mem layout.pageDirectory address = some address

section Layout

variable (layout : Layout)

theorem pageDirectory_outside : ¬ InTableArea layout.pageDirectory := by
  have upper := layout.pageDirectory_inKernel.2
  rw [UInt32.lt_iff_toNat_lt, toNat_kernelEnd] at upper
  rw [inTableArea_iff]
  omega

theorem firstPageTable_outside : ¬ InTableArea layout.firstPageTable := by
  have upper := layout.firstPageTable_inKernel.2
  rw [UInt32.lt_iff_toNat_lt, toNat_kernelEnd] at upper
  rw [inTableArea_iff]
  omega

theorem secondPageTable_outside : ¬ InTableArea layout.secondPageTable := by
  have upper := layout.secondPageTable_inKernel.2
  rw [UInt32.lt_iff_toNat_lt, toNat_kernelEnd] at upper
  rw [inTableArea_iff]
  omega

end Layout

section Mapping

variable {layout : Layout} {bitmap : Bitmap pageTableBitmapSize}
  {frames : Bitmap pageFrameBitmapSize} {Mapped : UInt32 → Prop} {s : Machine} {address : UInt32}

theorem lowIndex_cases {index : UInt32} (low : index.toNat ≤ 2) :
    index = 0 ∨ index = 1 ∨ index = 2 := by
  rw [Word.toNat_inj_iff, Word.toNat_inj_iff, Word.toNat_inj_iff]
  change _ = 0 ∨ _ = 1 ∨ _ = 2
  omega

/-- Present entries of a booting directory are among the first three. -/
theorem Booting.absent_third (booting : Booting layout bitmap frames Mapped s)
    (low : (getPageDirectoryIndex address).toNat ≤ 2)
    (absent : isPresent (directoryEntry s.mem layout.pageDirectory address) = false) :
    getPageDirectoryIndex address = 2 ∧ s.pageTableBitmap = bitmap := by
  rcases lowIndex_cases low with zero | one | two
  · rw [directoryEntry, zero, booting.first, isPresent_or_three layout.firstPageTable_aligned]
      at absent
    cases absent
  · rw [directoryEntry, one, booting.second, isPresent_or_three layout.secondPageTable_aligned]
      at absent
    cases absent
  · refine ⟨two, ?_⟩
    rcases booting.third with ⟨_, same⟩ | ⟨index, _, taken, entry⟩
    · exact same
    · have inside := (Bitmap.firstFit_some taken).1
      rw [pageTableBitmapSize_eq] at inside
      rw [directoryEntry, two, entry, isPresent_or_three (tablePage_aligned inside)] at absent
      cases absent

/-- A remapping of a low page keeps everything but the third entry by itself. -/
theorem Booting.remapped {after : Machine} (booting : Booting layout bitmap frames Mapped s)
    (low : (getPageDirectoryIndex address).toNat ≤ 2)
    (remaps : Remaps layout.pageDirectory s after address (some address))
    (third : (isPresent (entryAt after.mem layout.pageDirectory 2) = false ∧
        after.pageTableBitmap = bitmap) ∨
      ∃ index taken, bitmap.firstFit = some (index, taken) ∧
        entryAt after.mem layout.pageDirectory 2 = tablePage index ||| 3) :
    Booting layout bitmap frames (fun other => Mapped other ∨ other = address) after := by
  have firstPresent : isPresent (entryAt s.mem layout.pageDirectory 0) = true := by
    rw [booting.first]
    exact isPresent_or_three layout.firstPageTable_aligned
  have secondPresent : isPresent (entryAt s.mem layout.pageDirectory 1) = true := by
    rw [booting.second]
    exact isPresent_or_three layout.secondPageTable_aligned
  refine ⟨remaps.wellFormed, remaps.unpaged, remaps.frames.trans booting.frameBitmap,
    (remaps.directoryKept 0 (by decide) (.inr firstPresent)).trans booting.first,
    (remaps.directoryKept 1 (by decide) (.inr secondPresent)).trans booting.second, third, ?_, ?_⟩
  · intro index high inside
    have other : index ≠ getPageDirectoryIndex address := by
      rintro rfl
      omega
    rw [remaps.directoryKept index inside (.inl other)]
    exact booting.absent index high inside
  · rintro other (mapped | rfl)
    · obtain ⟨otherAligned, translates⟩ := booting.identity other mapped
      refine ⟨otherAligned, ?_⟩
      by_cases same : other = address
      · rw [same]
        exact remaps.translated
      · exact (remaps.kept other otherAligned same (present_of_walk translates)).trans translates
    · exact ⟨remaps.aligned, remaps.translated⟩

/-- Mapping one more page of the low twelve megabytes to itself. -/
theorem mapPage_booting (booting : Booting layout bitmap frames Mapped s)
    (aligned : PageAligned address) (low : (getPageDirectoryIndex address).toNat ≤ 2) :
    Yields (mapPage layout.pageDirectory address address s)
      (fun _ after =>
        Booting layout bitmap frames (fun other => Mapped other ∨ other = address) after)
      (fun _ => bitmap.firstFit = none) := by
  have direct := fun {t : Machine} (unpaged : t.paging = false) => direct_of_unpaged unpaged
  cases present : isPresent (directoryEntry s.mem layout.pageDirectory address) with
  | true =>
      have run := mapPage_of_present aligned aligned present
        (direct booting.unpaged _) (direct booting.unpaged _)
      have remaps := mapPage_remaps layout.pageDirectory_aligned (pageDirectory_outside layout)
        booting.wellFormed booting.unpaged run
      rw [run]
      refine booting.remapped low remaps ?_
      rcases booting.third with ⟨absent, same⟩ | ⟨index, taken, fits, entry⟩
      · refine .inl ⟨?_, same⟩
        have other : (2 : UInt32) ≠ getPageDirectoryIndex address := by
          intro same
          rw [directoryEntry, ← same, absent] at present
          cases present
        rwa [remaps.directoryKept 2 (by decide) (.inl other)]
      · refine .inr ⟨index, taken, fits, ?_⟩
        have inside := (Bitmap.firstFit_some fits).1
        rw [pageTableBitmapSize_eq] at inside
        have there : isPresent (entryAt s.mem layout.pageDirectory 2) = true := by
          rw [entry]
          exact isPresent_or_three (tablePage_aligned inside)
        rwa [remaps.directoryKept 2 (by decide) (.inr there)]
  | false =>
      obtain ⟨two, same⟩ := booting.absent_third low present
      cases fits : bitmap.firstFit with
      | none =>
          cases run : mapPage layout.pageDirectory address address s with
          | error reason after => rfl
          | ok _ after =>
              obtain ⟨_, _, there | ⟨_, index, taken, found⟩⟩ :=
                mapPage_requires run (direct booting.unpaged _)
              · rw [present] at there
                cases there
              · rw [same, fits] at found
                cases found
      | some found =>
          obtain ⟨index, taken⟩ := found
          rw [← same] at fits
          have run := mapPage_of_absent aligned aligned present fits (direct booting.unpaged _)
            (direct (by exact booting.unpaged) _) (direct (by exact booting.unpaged) _)
          have remaps := mapPage_remaps layout.pageDirectory_aligned
            (pageDirectory_outside layout) booting.wellFormed booting.unpaged run
          rw [run]
          refine booting.remapped low remaps (.inr ⟨index, taken, same ▸ fits, ?_⟩)
          have inside := firstFit_index_lt fits
          rw [← two]
          refine (entryAt_withEntry_of_apart (getPageDirectoryIndex_lt _)
            (tablePage_aligned inside) layout.pageDirectory_aligned ?_).trans
            entryAt_withTable_same
          exact page_disjoint (tablePage_aligned inside) layout.pageDirectory_aligned fun same =>
            pageDirectory_outside layout (same ▸ tablePage_inArea inside)

theorem Booting.weaken {Mapped' : UInt32 → Prop} (booting : Booting layout bitmap frames Mapped s)
    (fewer : ∀ other, Mapped' other → Mapped other) : Booting layout bitmap frames Mapped' s :=
  { booting with identity := fun other mapped => booting.identity other (fewer other mapped) }

theorem Booting.withFrames (booting : Booting layout bitmap frames Mapped s)
    (other : Bitmap pageFrameBitmapSize) :
    Booting layout bitmap other Mapped { s with pageFrameBitmap := other } :=
  ⟨⟨booting.wellFormed.distinct, booting.wellFormed.apart, booting.wellFormed.reserved⟩,
    booting.unpaged, rfl, booting.first, booting.second, booting.third, booting.absent,
    booting.identity⟩

/-- Mapping looks at memory through the entries of the directory and of its tables only. -/
theorem Booting.of_sameEntries (booting : Booting layout bitmap frames Mapped s) {mem : Bytes}
    (same : SameEntries layout s mem) : Booting layout bitmap frames Mapped (s.withMem mem) := by
  have entered : ∀ {i}, Entered mem layout.pageDirectory i →
      Entered s.mem layout.pageDirectory i := fun ⟨inside, present⟩ =>
    ⟨inside, same.directory _ inside ▸ present⟩
  have table : ∀ {i : UInt32}, i.toNat < 1024 →
      tableAt mem layout.pageDirectory i = tableAt s.mem layout.pageDirectory i := fun inside =>
    congrArg getPageTableAddress (same.directory _ inside)
  have wellFormed := booting.wellFormed
  refine ⟨⟨fun i j enteredI enteredJ => ?_, fun i enteredI => ?_, fun i enteredI => ?_⟩,
    booting.unpaged, booting.frameBitmap, (same.directory 0 (by decide)).trans booting.first,
    (same.directory 1 (by decide)).trans booting.second, ?_, fun index high inside => ?_,
    fun address mapped => ?_⟩
  · rw [Machine.withMem_mem, table enteredI.1, table enteredJ.1]
    exact wellFormed.distinct i j (entered enteredI) (entered enteredJ)
  · rw [Machine.withMem_mem, table enteredI.1]
    exact wellFormed.apart i (entered enteredI)
  · rw [Machine.withMem_mem, table enteredI.1]
    exact wellFormed.reserved i (entered enteredI)
  · rw [Machine.withMem_mem, same.directory 2 (by decide)]
    exact booting.third
  · rw [Machine.withMem_mem, same.directory index inside]
    exact booting.absent index high inside
  · exact ⟨(booting.identity address mapped).1,
      (same.walk address).trans (booting.identity address mapped).2⟩

/-- The table of a present entry is a boot page table or the one for the third entry. -/
theorem Booting.tableAt_cases (booting : Booting layout bitmap frames Mapped s) {i : UInt32}
    (entered : Entered s.mem layout.pageDirectory i) :
    tableAt s.mem layout.pageDirectory i = layout.firstPageTable ∨
      tableAt s.mem layout.pageDirectory i = layout.secondPageTable ∨
      ∃ bit < 1024, tableAt s.mem layout.pageDirectory i = tablePage bit := by
  obtain ⟨inside, present⟩ := entered
  have low : i.toNat ≤ 2 := by
    by_contra high
    rw [booting.absent i (by omega) inside] at present
    cases present
  rcases lowIndex_cases low with rfl | rfl | rfl
  · refine .inl ?_
    rw [tableAt, booting.first, getPageTableAddress_or_three layout.firstPageTable_aligned]
  · refine .inr (.inl ?_)
    rw [tableAt, booting.second, getPageTableAddress_or_three layout.secondPageTable_aligned]
  · rcases booting.third with ⟨absent, _⟩ | ⟨index, taken, fits, entry⟩
    · rw [absent] at present
      cases present
    · have bound := (Bitmap.firstFit_some fits).1
      rw [pageTableBitmapSize_eq] at bound
      refine .inr (.inr ⟨index, bound, ?_⟩)
      rw [tableAt, entry, getPageTableAddress_or_three (tablePage_aligned bound)]

/-- What is cleared behind the bitmap is no entry in use where it spares the arrays. -/
theorem Booting.sameEntries_overrun (booting : Booting layout bitmap frames Mapped s)
    (spares : OverrunSpares layout) : SameEntries layout s (overrunCleared layout s.mem) := by
  refine ⟨fun i inside => entryAt_overrunCleared layout.pageDirectory_aligned inside
    spares.directory, fun i entered j inside => ?_⟩
  refine entryAt_overrunCleared (getPageTableAddress_aligned _) inside ?_
  rcases booting.tableAt_cases entered with table | table | ⟨bit, bound, table⟩ <;> rw [table]
  · exact spares.first
  · exact spares.second
  · exact overrun_apart_tablePage bound

theorem toNat_add_pageSize (aligned : PageAligned address) (room : address.toNat < 0x00C00000) :
    (address + pageSize).toNat = address.toNat + 4096 ∧ PageAligned (address + pageSize) := by
  unfold PageAligned at aligned ⊢
  rw [UInt32.toNat_add, toNat_pageSize]
  omega

/-- Mapping a range of the low twelve megabytes to itself. -/
theorem identityMapRange_booting {startAddress endAddress : UInt32}
    (booting : Booting layout bitmap frames Mapped s) (startAligned : PageAligned startAddress)
    (endAligned : PageAligned endAddress) (ordered : startAddress.toNat ≤ endAddress.toNat)
    (low : endAddress.toNat ≤ 0x00C00000) :
    Yields (identityMapRange layout.pageDirectory startAddress endAddress s)
      (fun _ after => Booting layout bitmap frames (fun other => Mapped other ∨
        PageAligned other ∧ startAddress ≤ other ∧ other < endAddress) after)
      (fun _ => bitmap.firstFit = none) := by
  -- Every page of the range below `addr` is mapped; the distance to the end is the variant.
  let Inv : UInt32 → Machine → Prop := fun addr current =>
    PageAligned addr ∧ addr.toNat ≤ endAddress.toNat ∧
      Booting layout bitmap frames (fun other => Mapped other ∨
        PageAligned other ∧ startAddress ≤ other ∧ other < addr) current
  have round : ∀ addr current, Inv addr current → decide (addr < endAddress) = true →
      Yields ((do
          mapPage layout.pageDirectory addr addr
          pure (addr + pageSize) : Kernel UInt32) current)
        (fun next after => Inv next after ∧
          endAddress.toNat - next.toNat < endAddress.toNat - addr.toNat)
        (fun _ => bitmap.firstFit = none) := by
    rintro addr current ⟨aligned, _, held⟩ again
    rw [decide_eq_true_eq, UInt32.lt_iff_toNat_lt] at again
    have lowIndex : (getPageDirectoryIndex addr).toNat ≤ 2 := by
      rw [getPageDirectoryIndex, Word.toNat_shiftRight_22]
      omega
    refine (mapPage_booting held aligned lowIndex).bind fun _ after extended => ?_
    obtain ⟨next, nextAligned⟩ := toNat_add_pageSize aligned (by omega)
    unfold PageAligned at aligned endAligned
    refine ⟨⟨nextAligned, by omega, extended.weaken ?_⟩, by omega⟩
    rintro other (before | ⟨otherAligned, above, below⟩)
    · exact .inl (.inl before)
    · by_cases here : other = addr
      · exact .inr here
      · refine .inl (.inr ⟨otherAligned, above, ?_⟩)
        rw [UInt32.lt_iff_toNat_lt, next] at below
        have different : other.toNat ≠ addr.toNat := fun same => here (UInt32.toNat_inj.mp same)
        unfold PageAligned at otherAligned
        rw [UInt32.lt_iff_toNat_lt]
        omega
  have start : Inv startAddress s := by
    refine ⟨startAligned, ordered, booting.weaken ?_⟩
    rintro other (before | ⟨_, above, below⟩)
    · exact before
    · rw [UInt32.le_iff_toNat_le] at above
      rw [UInt32.lt_iff_toNat_lt] at below
      omega
  have enough : endAddress.toNat - startAddress.toNat < loopBound := by
    simp only [loopBound]
    omega
  refine Yields.bind (Yields.loop round start enough) ?_
  rintro addr after ⟨⟨_, _, held⟩, done⟩
  rw [decide_eq_false_iff_not, UInt32.lt_iff_toNat_lt] at done
  refine held.weaken ?_
  rintro other (before | ⟨otherAligned, above, below⟩)
  · exact .inl before
  · refine .inr ⟨otherAligned, above, ?_⟩
    rw [UInt32.lt_iff_toNat_lt] at below ⊢
    omega

end Mapping

/-! ## The whole of `init_paging` -/

/-- The state `init_paging` leaves: the directory entries it made, with the table
of bit `index` in the third, its pages mapped to themselves, clear bitmaps, an
empty heap, and paging on. -/
structure Booted (layout : Layout) (index : Nat) (s : Machine) : Prop where
  paged : s.paging = true
  cr3 : s.cr3 = layout.pageDirectory
  inside : index < 1024
  first : entryAt s.mem layout.pageDirectory 0 = layout.firstPageTable ||| 3
  second : entryAt s.mem layout.pageDirectory 1 = layout.secondPageTable ||| 3
  third : entryAt s.mem layout.pageDirectory 2 = tablePage index ||| 3
  absent : ∀ index : UInt32, 3 ≤ index.toNat → index.toNat < 1024 →
    isPresent (entryAt s.mem layout.pageDirectory index) = false
  identity : ∀ address, IdentityPage address →
    walk s.mem layout.pageDirectory address = some address
  frameBitmap : s.pageFrameBitmap = Bitmap.clear pageFrameBitmapSize
  tableBitmap : s.pageTableBitmap = Bitmap.clear pageTableBitmapSize
  heapCurrent : s.heapCurrent = heapAllocatorAreaStart
  heapMapped : s.heapMapped = heapAllocatorAreaStart

section Init

variable (layout : Layout) {s : Machine}

/-- The first loop of `init_paging` leaves every directory entry absent. -/
theorem clearDirectory_run (unpaged : s.paging = false) :
    ∃ mem, clearDirectory layout s = .ok () { s with mem := mem } ∧ ∀ index : UInt32,
      index.toNat < 1024 → entryAt mem layout.pageDirectory index = 0x00000002 := by
  have yields : Yields (clearDirectory layout s)
      (fun _ after => ∃ mem, after = { s with mem := mem } ∧ ∀ index : UInt32,
        index.toNat < pageDirectoryLength → entryAt mem layout.pageDirectory index = 0x00000002)
      (fun _ => False) := by
    refine Yields.times (I := fun count after => ∃ mem, after = { s with mem := mem } ∧
      ∀ index : UInt32, index.toNat < count →
        entryAt mem layout.pageDirectory index = 0x00000002) ?_ ?_
    · exact ⟨s.mem, rfl, fun index below => absurd below (Nat.not_lt_zero _)⟩
    · rintro i current below ⟨mem, rfl, cleared⟩
      rw [pageDirectoryLength_eq] at below
      have position : (UInt32.ofNat i).toNat = i := by
        rw [UInt32.toNat_ofNat']
        omega
      rw [storeWord_of_physical (physical_of_unpaged (by exact unpaged) _)]
      refine ⟨_, rfl, fun index inside => ?_⟩
      rw [entryAt_store32 layout.pageDirectory_aligned (by omega) (by omega)]
      split
      next => rfl
      next other =>
        have different : index.toNat ≠ i := fun same =>
          other (UInt32.toNat_inj.mp (same.trans position.symm))
        exact cleared index (by omega)
  obtain ⟨_, _, run, mem, rfl, cleared⟩ := yields.returns
  rw [pageDirectoryLength_eq] at cleared
  exact ⟨mem, run, cleared⟩

/-- The memory after the boot page tables are put into the first two entries. -/
def bootEntries (mem : Bytes) : Bytes :=
  (mem.store32 (slot layout.pageDirectory 0) (layout.firstPageTable ||| 3)).store32
    (slot layout.pageDirectory 1) (layout.secondPageTable ||| 3)

section Entries

variable {mem : Bytes} (cleared : ∀ index : UInt32, index.toNat < 1024 →
  entryAt mem layout.pageDirectory index = 0x00000002)

include cleared

theorem entryAt_bootEntries {index : UInt32} (inside : index.toNat < 1024) :
    entryAt (bootEntries layout mem) layout.pageDirectory index =
      if index = 1 then layout.secondPageTable ||| 3
      else if index = 0 then layout.firstPageTable ||| 3 else 0x00000002 := by
  rw [bootEntries, entryAt_store32 layout.pageDirectory_aligned (by decide) inside,
    entryAt_store32 layout.pageDirectory_aligned (by decide) inside, cleared index inside]

theorem entered_bootEntries {index : UInt32}
    (entered : Entered (bootEntries layout mem) layout.pageDirectory index) :
    index = 0 ∧ tableAt (bootEntries layout mem) layout.pageDirectory index =
        layout.firstPageTable ∨
      index = 1 ∧ tableAt (bootEntries layout mem) layout.pageDirectory index =
        layout.secondPageTable := by
  obtain ⟨inside, present⟩ := entered
  rw [tableAt]
  rw [entryAt_bootEntries layout cleared inside] at present ⊢
  by_cases one : index = 1
  · rw [if_pos one]
    exact .inr ⟨one, getPageTableAddress_or_three layout.secondPageTable_aligned⟩
  · rw [if_neg one] at present ⊢
    by_cases zero : index = 0
    · rw [if_pos zero]
      exact .inl ⟨zero, getPageTableAddress_or_three layout.firstPageTable_aligned⟩
    · have empty : isPresent 0x00000002 = false := by decide
      rw [if_neg zero, empty] at present
      cases present

/-- Mapping starts from a well-formed directory. -/
theorem bootEntries_booting (unpaged : s.paging = false) :
    Booting layout s.pageTableBitmap s.pageFrameBitmap (fun _ => False)
      { s with mem := bootEntries layout mem } := by
  have absent : ∀ index : UInt32, 2 ≤ index.toNat → index.toNat < 1024 →
      isPresent (entryAt (bootEntries layout mem) layout.pageDirectory index) = false := by
    intro index high inside
    have notOne : index ≠ 1 := by
      rintro rfl
      contradiction
    have notZero : index ≠ 0 := by
      rintro rfl
      contradiction
    rw [entryAt_bootEntries layout cleared inside, if_neg notOne, if_neg notZero]
    decide
  refine ⟨⟨?_, ?_, ?_⟩, unpaged, rfl, entryAt_bootEntries layout cleared (by decide),
    entryAt_bootEntries layout cleared (by decide), .inl ⟨absent 2 (by decide) (by decide), rfl⟩,
    fun index high inside => absent index (by omega) inside, fun _ => False.elim⟩
  · intro i j enteredI enteredJ same
    rcases entered_bootEntries layout cleared enteredI with ⟨atI, tableI⟩ | ⟨atI, tableI⟩ <;>
      rcases entered_bootEntries layout cleared enteredJ with ⟨atJ, tableJ⟩ | ⟨atJ, tableJ⟩ <;>
      rw [tableI, tableJ] at same
    · exact atI.trans atJ.symm
    · exact absurd same layout.first_ne_second
    · exact absurd same.symm layout.first_ne_second
    · exact atI.trans atJ.symm
  · intro i entered
    rcases entered_bootEntries layout cleared entered with ⟨_, table⟩ | ⟨_, table⟩ <;> rw [table]
    · exact page_disjoint layout.firstPageTable_aligned layout.pageDirectory_aligned
        layout.first_ne_directory
    · exact page_disjoint layout.secondPageTable_aligned layout.pageDirectory_aligned
        layout.second_ne_directory
  · intro i entered inArea
    rcases entered_bootEntries layout cleared entered with ⟨_, table⟩ | ⟨_, table⟩ <;>
      rw [table] at inArea
    · exact absurd inArea (firstPageTable_outside layout)
    · exact absurd inArea (secondPageTable_outside layout)

end Entries

/-- `init_page_frame_allocator` passes its checks and clears the bitmap. -/
theorem initPageFrameAllocator_run (s : Machine) :
    initPageFrameAllocator s =
      .ok () { s with pageFrameBitmap := Bitmap.clear pageFrameBitmapSize } := rfl

/-- `init_page_table_allocator` maps its area and then forgets which bits that took; with
the bitmap it clears what lies behind. -/
theorem initPageTableAllocator_yields {frames : Bitmap pageFrameBitmapSize}
    {bitmap : Bitmap pageTableBitmapSize} {Mapped : UInt32 → Prop}
    (booting : Booting layout bitmap frames Mapped s) :
    Yields (initPageTableAllocator layout s)
      (fun _ after => ∃ mapped, after = { mapped.withMem (overrunCleared layout mapped.mem) with
          pageTableBitmap := Bitmap.clear pageTableBitmapSize } ∧
        Booting layout bitmap frames (fun address => Mapped address ∨
          PageAligned address ∧ InTableArea address) mapped)
      (fun _ => bitmap.firstFit = none) := by
  have startAligned : PageAligned pageTableAreaStart := rfl
  have endAligned : PageAligned pageTableAreaEnd := rfl
  refine (identityMapRange_booting booting startAligned endAligned (by decide) (by decide)).bind
    fun _ mapped held => ?_
  have unpaged : Machine.paging { mapped with
      pageTableBitmap := Bitmap.clear pageTableBitmapSize } = false := held.unpaged
  rw [bind_of_ok (update_run _ _), bind_of_ok (memset_of_unpaged unpaged _ _ _)]
  exact ⟨mapped, rfl, held⟩

/-- The pages of the two areas that are mapped before the VGA buffer. -/
def AreaPage (address : UInt32) : Prop :=
  PageAligned address ∧ kernelStart ≤ address ∧ address < kernelEnd ∨
    PageAligned address ∧ InTableArea address

/-- The machine once both areas are mapped and the three allocators are set up. -/
def areasMapped (mapped : Machine) : Machine :=
  { mapped.withMem (overrunCleared layout mapped.mem) with
    pageTableBitmap := Bitmap.clear pageTableBitmapSize
    heapCurrent := heapAllocatorAreaStart
    heapMapped := heapAllocatorAreaStart }

/-- The machine once paging is on. -/
def pagingOn (s : Machine) : Machine :=
  { s with cr3 := layout.pageDirectory, paging := true }

/-- `init_paging` maps its areas, or stops for want of a page table; it then maps the VGA
buffer and turns paging on. -/
theorem initPaging_maps (unpaged : s.paging = false) {Post : Unit → Machine → Prop}
    {Stop : Halt → Prop} (stops : s.pageTableBitmap.firstFit = none → ∀ reason, Stop reason)
    (rest : ∀ mapped, Booting layout s.pageTableBitmap (Bitmap.clear pageFrameBitmapSize) AreaPage
        mapped →
      Yields (mapPage layout.pageDirectory vgaMemory vgaMemory (areasMapped layout mapped))
        (fun value after => Post value (pagingOn layout after)) Stop) :
    Yields (initPaging layout s) Post Stop := by
  obtain ⟨mem, run, cleared⟩ := clearDirectory_run layout unpaged
  unfold initPaging
  rw [bind_of_ok run, bind_of_ok (storeWord_of_physical (physical_of_unpaged (by exact unpaged) _)),
    bind_of_ok (storeWord_of_physical (physical_of_unpaged (by exact unpaged) _))]
  have start := bootEntries_booting layout cleared unpaged
  have startAligned : PageAligned kernelStart := rfl
  have endAligned : PageAligned kernelEnd := rfl
  refine ((identityMapRange_booting start startAligned endAligned (by decide) (by decide)).mono
    (fun _ _ => id) fun _ none => stops none _).bind ?_
  rintro _ kernelMapped inKernel
  rw [bind_of_ok (initPageFrameAllocator_run _)]
  have framesCleared := (inKernel.withFrames (Bitmap.clear pageFrameBitmapSize)).weaken
    fun address kernel => Or.inr (a := False) kernel
  refine ((initPageTableAllocator_yields layout framesCleared).mono
    (fun _ _ => id) fun _ none => stops none _).bind ?_
  rintro _ _ ⟨mapped, rfl, held⟩
  rw [bind_of_ok initHeapAllocator_run]
  exact (rest mapped held).bind fun _ _ post => post

/-- The mapping of the VGA buffer, once both areas are mapped. -/
theorem mapVga_booted (spares : OverrunSpares layout) {bitmap : Bitmap pageTableBitmapSize}
    {mapped : Machine} (booting : Booting layout bitmap (Bitmap.clear pageFrameBitmapSize) AreaPage
      mapped) :
    ∃ index taken after, bitmap.firstFit = some (index, taken) ∧
      mapPage layout.pageDirectory vgaMemory vgaMemory (areasMapped layout mapped) =
        .ok () after ∧ Booted layout index (pagingOn layout after) := by
  have aligned : PageAligned vgaMemory := rfl
  have zero : getPageDirectoryIndex vgaMemory = 0 := by decide
  have spared := booting.of_sameEntries (booting.sameEntries_overrun spares)
  have present : isPresent (directoryEntry (overrunCleared layout mapped.mem)
      layout.pageDirectory vgaMemory) = true := by
    rw [directoryEntry, zero]
    exact spared.first ▸ isPresent_or_three layout.firstPageTable_aligned
  -- The same store runs on the state before the bitmap was cleared, where the directory
  -- is still well formed.
  have before := mapPage_of_present (s := mapped.withMem (overrunCleared layout mapped.mem))
    aligned aligned present (direct_of_unpaged spared.unpaged _)
    (direct_of_unpaged spared.unpaged _)
  have held := (mapPage_booting spared aligned (by rw [zero]; decide)).of_ok before
  have eight : PageAligned 0x00800000 := rfl
  have eightArea : InTableArea 0x00800000 := ⟨by decide, by decide⟩
  have served := present_of_walk (held.identity _ (.inl (.inr ⟨eight, eightArea⟩))).2
  have two : getPageDirectoryIndex 0x00800000 = 2 := by decide
  rw [directoryEntry, two] at served
  rcases held.third with ⟨absent, _⟩ | ⟨index, taken, fits, entry⟩
  · rw [absent] at served
    cases served
  · have inside := (Bitmap.firstFit_some fits).1
    rw [pageTableBitmapSize_eq] at inside
    refine ⟨index, taken, _, fits, mapPage_of_present aligned aligned present
      (direct_of_unpaged (by exact booting.unpaged) _)
      (direct_of_unpaged (by exact booting.unpaged) _), ?_⟩
    refine ⟨rfl, rfl, inside, held.first, held.second, entry, held.absent, ?_, held.frameBitmap,
      rfl, rfl, rfl⟩
    rintro address ⟨addressAligned, inKernel | inArea | vga⟩
    · exact (held.identity address (.inl (.inl ⟨addressAligned, inKernel⟩))).2
    · exact (held.identity address (.inl (.inr ⟨addressAligned, inArea⟩))).2
    · exact (held.identity address (.inr vga)).2

/-- Where it clears none of the arrays, `init_paging` leaves a booted state, whose third
directory entry holds the table of the lowest bit clear at the start; with no clear bit it
stops. -/
theorem initPaging_boots (unpaged : s.paging = false) (spares : OverrunSpares layout) :
    Yields (initPaging layout s)
      (fun _ after => ∃ index taken, s.pageTableBitmap.firstFit = some (index, taken) ∧
        Booted layout index after)
      (fun _ => s.pageTableBitmap.firstFit = none) := by
  refine initPaging_maps layout unpaged (fun none _ => none) fun mapped held => ?_
  obtain ⟨index, taken, after, fits, vga, booted⟩ := mapVga_booted layout spares held
  rw [vga]
  exact ⟨index, taken, fits, booted⟩

end Init

/-! ## Ownership of page tables -/

/-- No two present directory entries hold the same page table, and a table of the
page table area that an entry holds has its bit set. -/
structure TablesOwned (directory : UInt32) (s : Machine) : Prop where
  distinct : ∀ i j, Entered s.mem directory i → Entered s.mem directory j →
    tableAt s.mem directory i = tableAt s.mem directory j → i = j
  reserved : ∀ i, Entered s.mem directory i → InTableArea (tableAt s.mem directory i) →
    s.pageTableBitmap.isSet (tableIndex (tableAt s.mem directory i)) = true

section Ownership

variable {layout : Layout} {index : Nat} {s after : Machine}

theorem Booted.third_entered (booted : Booted layout index s) :
    Entered s.mem layout.pageDirectory 2 ∧
      tableAt s.mem layout.pageDirectory 2 = tablePage index := by
  have aligned := tablePage_aligned booted.inside
  refine ⟨⟨by decide, ?_⟩, ?_⟩
  · rw [booted.third]
    exact isPresent_or_three aligned
  · rw [tableAt, booted.third, getPageTableAddress_or_three aligned]

/-- The third entry's table is in use, and its bit is clear. -/
theorem Booted.third_unmarked (booted : Booted layout index s) :
    s.pageTableBitmap.isSet (tableIndex (tableAt s.mem layout.pageDirectory 2)) = false := by
  rw [booted.third_entered.2, tableIndex_tablePage booted.inside, booted.tableBitmap,
    Bitmap.isSet_clear]

/-- Wherever `init_paging` returns, it leaves a table in use whose bit is clear, what it
clears behind the page table bitmap taken to be none of the arrays. -/
theorem initPaging_not_owned (spares : OverrunSpares layout) (unpaged : s.paging = false)
    (returned : initPaging layout s = .ok () after) :
    ¬ TablesOwned layout.pageDirectory after := by
  intro owned
  obtain ⟨index, _, _, booted⟩ := (initPaging_boots layout unpaged spares).of_ok returned
  obtain ⟨entered, table⟩ := booted.third_entered
  have inArea : InTableArea (tableAt after.mem layout.pageDirectory 2) :=
    table ▸ tablePage_inArea booted.inside
  have marked := owned.reserved 2 entered inArea
  rw [booted.third_unmarked] at marked
  cases marked

/-- With its globals zero, `init_paging` returns, and the third directory entry
holds the first table of the area. -/
theorem initPaging_of_boot (spares : OverrunSpares layout) (mem : Bytes) :
    ∃ after, initPaging layout (Machine.boot mem) = .ok () after ∧ Booted layout 0 after := by
  have boots := initPaging_boots layout (s := Machine.boot mem) rfl spares
  obtain ⟨left, lowest⟩ := Bitmap.firstFit_clear pageTableBitmapSize_pos
  cases run : initPaging layout (Machine.boot mem) with
  | ok value after =>
      obtain ⟨index, taken, fits, booted⟩ := boots.of_ok run
      rw [show (Machine.boot mem).pageTableBitmap = Bitmap.clear _ from rfl, lowest] at fits
      cases fits
      exact ⟨after, rfl, booted⟩
  | error reason after =>
      have none := boots.of_error run
      rw [show (Machine.boot mem).pageTableBitmap = Bitmap.clear _ from rfl, lowest] at none
      cases none

/-- The first page table handed out after a boot is in use already. -/
theorem Booted.pageTableAllocate_shared (booted : Booted layout 0 s) :
    ∃ after, pageTableAllocate s = .ok (tableAt s.mem layout.pageDirectory 2) after := by
  obtain ⟨left, lowest⟩ := Bitmap.firstFit_clear pageTableBitmapSize_pos
  rw [← booted.tableBitmap] at lowest
  exact ⟨_, booted.third_entered.2 ▸ pageTableAllocate_of_firstFit lowest⟩

end Ownership

theorem initPaging_not_owned_on_zeroes :
    ∃ after, initPaging Layout.sample (Machine.boot fun _ => 0) = .ok () after ∧
      ¬ TablesOwned Layout.sample.pageDirectory after := by
  obtain ⟨after, returned, _⟩ := initPaging_of_boot overrunSpares_sample fun _ => 0
  exact ⟨after, returned, initPaging_not_owned overrunSpares_sample rfl returned⟩

/-- On zeroed memory `init_paging` returns, leaves a table in use unmarked, and the
next page table handed out is that one. -/
theorem initPaging_shares_table :
    ∃ after, initPaging Layout.sample (Machine.boot fun _ => 0) = .ok () after ∧
      ¬ TablesOwned Layout.sample.pageDirectory after ∧
      Entered after.mem Layout.sample.pageDirectory 2 ∧
      ∃ later, pageTableAllocate after =
        .ok (tableAt after.mem Layout.sample.pageDirectory 2) later := by
  obtain ⟨after, returned, booted⟩ := initPaging_of_boot overrunSpares_sample fun _ => 0
  refine ⟨after, returned, fun owned => ?_, booted.third_entered.1,
    booted.pageTableAllocate_shared⟩
  have marked := owned.reserved 2 booted.third_entered.1
    (booted.third_entered.2 ▸ tablePage_inArea booted.inside)
  rw [booted.third_unmarked] at marked
  cases marked

end TorchOS.Paging
