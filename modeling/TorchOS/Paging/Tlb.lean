import TorchOS.Base.Watch
import TorchOS.Paging.FreshTables

/-!
# Translations the processor keeps

Once paging is on, an access to a page that translates may leave its translation in
the processor, and nothing in `memory.c` drops one again. The code of `memory.c`
follows once more, with a trace of the translations its own accesses leave; forgetting
the trace gives the plain code back. No translation in the trace goes stale as long as
no call rewrites the entry of a page that is in it.
-/

namespace TorchOS.Paging

open Base Base.Program

/-! ## Accesses with their traces -/

/-- A translation that the processor may keep. -/
structure Translation where
  page : UInt32
  frame : UInt32
  deriving DecidableEq

/-- Code that keeps a trace of the translations it used. -/
abbrev Cached := Program Halt (Watched Machine Translation)

/-- The page an address lies in. -/
def pageStart (address : UInt32) : UInt32 := address &&& 0xFFFFF000

/-- What an access to an address lets the processor keep. -/
def cachedBy (address : UInt32) (s : Machine) : List Translation :=
  if s.paging then
    match walk s.mem s.cr3 (pageStart address) with
    | some frame => [⟨pageStart address, frame⟩]
    | none => []
  else []

/-- An access to an address. -/
def touch (address : UInt32) : Cached Unit := watch (cachedBy address)

/-- A byte load through a pointer. -/
def loadByte (address : UInt32) : Kernel UInt8 := fun s =>
  match physical s address with
  | some target => .ok (s.mem target) s
  | none => .error (.pageFault address) s

def watchedLoadByte (address : UInt32) : Cached UInt8 := do
  touch address
  unwatched (loadByte address)

def watchedStoreByte (address : UInt32) (value : UInt8) : Cached Unit := do
  touch address
  unwatched (storeByte address value)

def watchedLoadWord (address : UInt32) : Cached UInt32 := do
  touch address
  unwatched (loadWord address)

def watchedStoreWord (address value : UInt32) : Cached Unit := do
  touch address
  unwatched (storeWord address value)

/-! ## `memory.c` with its traces -/

def watchedPresentEntry (kernelPageDirectory pageDirectoryIndex : UInt32) : Cached UInt32 := do
  let pde ← watchedLoadWord (slot kernelPageDirectory pageDirectoryIndex)
  if isPresent pde then
    pure pde
  else
    let newPageTable ← unwatched pageTableAllocate
    watchedStoreWord (slot kernelPageDirectory pageDirectoryIndex) (newPageTable ||| 3)
    watchedLoadWord (slot kernelPageDirectory pageDirectoryIndex)

def watchedMapPage (kernelPageDirectory virtualAddress physicalAddress : UInt32) : Cached Unit := do
  unwatched (panicIf (virtualAddress % pageSize ≠ 0)
    "Trying to map a virtual address that is not page aligned!")
  unwatched (panicIf (physicalAddress % pageSize ≠ 0)
    "Trying to map a physical address that is not page aligned!")
  let pde ← watchedPresentEntry kernelPageDirectory (getPageDirectoryIndex virtualAddress)
  watchedStoreWord (slot (getPageTableAddress pde) (getPageTableIndex virtualAddress))
    (setReadWrite (setPresent physicalAddress))

def watchedUnmapPage (kernelPageDirectory virtualAddress : UInt32) : Cached Unit := do
  unwatched (panicIf (virtualAddress % pageSize ≠ 0)
    "Trying to unmap a virtual address that is not page aligned!")
  let pde ← watchedLoadWord (slot kernelPageDirectory (getPageDirectoryIndex virtualAddress))
  unwatched (panicIf (!isPresent pde)
    "Trying to unmap a virtual address that does not have a page directory entry!")
  let entry := slot (getPageTableAddress pde) (getPageTableIndex virtualAddress)
  let physicalAddress ← watchedLoadWord entry
  unwatched (panicIf (!isPresent physicalAddress)
    "Trying to unmap a virtual address that has not been mapped yet!")
  watchedStoreWord entry (unsetPresent physicalAddress)

def watchedMemset (bufptr : UInt32) (value : UInt8) (size : UInt32) : Cached Unit :=
  times (fun i => watchedStoreByte (bufptr + UInt32.ofNat i) value) size.toNat

def watchedPageFrameAllocate (layout : Layout) (virtualAddress : UInt32) : Cached UInt32 := do
  unwatched (panicIf (virtualAddress % pageSize ≠ 0)
    "Trying to allocate page frame at unaligned address!")
  let physicalAddress ← unwatched takePageFrame
  watchedMapPage layout.pageDirectory virtualAddress physicalAddress
  watchedMemset virtualAddress 0 pageSize
  pure virtualAddress

def watchedHeapMapNext (layout : Layout) : Cached Unit := do
  let _ ← watchedPageFrameAllocate layout (← unwatched (read Machine.heapMapped))
  unwatched (update fun s => { s with heapMapped := s.heapMapped + pageSize })

def watchedHeapMapUpTo (layout : Layout) (size : UInt32) : Cached Unit :=
  loop (onState fun _ s => s.heapCurrent + size > s.heapMapped)
    (fun _ => watchedHeapMapNext layout) .endless loopBound ()

def watchedHeapAllocate (layout : Layout) (size : UInt32) : Cached UInt32 := do
  unwatched (panicIf ((← unwatched (read Machine.heapCurrent)) + size > heapAllocatorAreaEnd)
    "Heap is overflowing! Cannot allocate!")
  watchedHeapMapUpTo layout size
  watchedMemset (← unwatched (read Machine.heapCurrent)) 0 size
  let ret ← unwatched (read Machine.heapCurrent)
  unwatched (update fun s => { s with
    heapCurrent := s.heapCurrent + size
    kallocs := s.kallocs ++ [⟨ret, size⟩] })
  pure ret

/-! ## Watching changes nothing -/

theorem watchedStoreByte_watches (address : UInt32) (value : UInt8) :
    Watches (watchedStoreByte address value) (storeByte address value) :=
  .after_watch _ (.unwatched _)

theorem watchedLoadWord_watches (address : UInt32) :
    Watches (watchedLoadWord address) (loadWord address) :=
  .after_watch _ (.unwatched _)

theorem watchedStoreWord_watches (address value : UInt32) :
    Watches (watchedStoreWord address value) (storeWord address value) :=
  .after_watch _ (.unwatched _)

theorem watchedPresentEntry_watches (directory index : UInt32) :
    Watches (watchedPresentEntry directory index) (presentEntry directory index) := by
  apply Watches.bind (watchedLoadWord_watches _)
  intro pde
  by_cases present : isPresent pde = true
  · rw [if_pos present, if_pos present]
    exact fun _ => rfl
  · rw [if_neg present, if_neg present]
    apply Watches.bind (.unwatched _)
    intro table
    exact .bind (watchedStoreWord_watches _ _) fun _ => watchedLoadWord_watches _

theorem watchedMapPage_watches (directory virtualAddress physicalAddress : UInt32) :
    Watches (watchedMapPage directory virtualAddress physicalAddress)
      (mapPage directory virtualAddress physicalAddress) := by
  refine .bind (.unwatched _) fun _ => .bind (.unwatched _) fun _ => ?_
  exact .bind (watchedPresentEntry_watches _ _) fun _ => watchedStoreWord_watches _ _

theorem watchedUnmapPage_watches (directory virtualAddress : UInt32) :
    Watches (watchedUnmapPage directory virtualAddress) (unmapPage directory virtualAddress) := by
  refine .bind (.unwatched _) fun _ => .bind (watchedLoadWord_watches _) fun _ => ?_
  refine .bind (.unwatched _) fun _ => .bind (watchedLoadWord_watches _) fun _ => ?_
  exact .bind (.unwatched _) fun _ => watchedStoreWord_watches _ _

theorem watchedMemset_watches (bufptr : UInt32) (value : UInt8) (size : UInt32) :
    Watches (watchedMemset bufptr value size) (memset bufptr value size) :=
  .times (fun _ => watchedStoreByte_watches _ _) _

theorem watchedPageFrameAllocate_watches (layout : Layout) (virtualAddress : UInt32) :
    Watches (watchedPageFrameAllocate layout virtualAddress)
      (pageFrameAllocate layout virtualAddress) := by
  refine .bind (.unwatched _) fun _ => .bind (.unwatched _) fun _ => ?_
  refine .bind (watchedMapPage_watches _ _ _) fun _ => ?_
  exact .bind (watchedMemset_watches _ _ _) fun _ _ => rfl

theorem watchedHeapMapNext_watches (layout : Layout) :
    Watches (watchedHeapMapNext layout) (heapMapNext layout) := by
  refine .bind (.unwatched _) fun _ => ?_
  exact .bind (watchedPageFrameAllocate_watches _ _) fun _ => .unwatched _

/-- Forgetting the translations gives `heap_allocate`. -/
theorem watchedHeapAllocate_watches (layout : Layout) (size : UInt32) :
    Watches (watchedHeapAllocate layout size) (heapAllocate layout size) := by
  refine .bind (.unwatched _) fun _ => .bind (.unwatched _) fun _ => ?_
  refine .bind (.loop (fun _ => watchedHeapMapNext_watches layout) _ _) fun _ => ?_
  refine .bind (.unwatched _) fun _ => .bind (watchedMemset_watches _ _ _) fun _ => ?_
  exact .bind (.unwatched _) fun _ => .bind (.unwatched _) fun _ _ => rfl

/-! ## What each access leaves -/

section Accesses

variable {layout : Layout} {w : Watched Machine Translation} {address target : UInt32}

theorem watchedLoadWord_run (reaches : physical w.state address = some target) :
    watchedLoadWord address w =
      .ok (w.state.mem.load32 target) ⟨w.state, w.trace ++ cachedBy address w.state⟩ :=
  (bind_of_ok (watch_run _ w)).trans (unwatched_ok (loadWord_of_physical reaches))

theorem watchedStoreWord_run {value : UInt32} (reaches : physical w.state address = some target) :
    watchedStoreWord address value w = .ok ()
      ⟨{ w.state with mem := w.state.mem.store32 target value },
        w.trace ++ cachedBy address w.state⟩ :=
  (bind_of_ok (watch_run _ w)).trans (unwatched_ok (storeWord_of_physical reaches))

theorem watchedStoreByte_run {value : UInt8} (reaches : physical w.state address = some target) :
    watchedStoreByte address value w = .ok ()
      ⟨{ w.state with mem := w.state.mem.write target [value] },
        w.trace ++ cachedBy address w.state⟩ :=
  (bind_of_ok (watch_run _ w)).trans (unwatched_ok (storeByte_of_physical reaches))

theorem pageStart_aligned (address : UInt32) : PageAligned (pageStart address) :=
  getPageTableAddress_aligned address

theorem mem_page_pageStart (address : UInt32) : address ∈ page (pageStart address) := by
  rw [mem_page_iff (pageStart_aligned address), pageStart, Word.toNat_and_high]
  omega

theorem pageStart_of_mem {start : UInt32} (aligned : PageAligned start)
    (member : address ∈ page start) : pageStart address = start := by
  rw [mem_page_iff aligned] at member
  unfold PageAligned at aligned
  rw [← UInt32.toNat_inj, pageStart, Word.toNat_and_high]
  omega

theorem cachedBy_of_walk {s : Machine} (holds : DirectoryApart layout s) {frame : UInt32}
    (translates : walk s.mem layout.pageDirectory (pageStart address) = some frame) :
    cachedBy address s = [⟨pageStart address, frame⟩] := by
  rw [cachedBy, if_pos holds.paged, holds.cr3, translates]

/-- The page of an address that translates does. -/
theorem walk_pageStart {mem : Bytes} {directory : UInt32}
    (translates : walk mem directory address = some target) :
    ∃ frame, walk mem directory (pageStart address) = some frame := by
  obtain ⟨sameDirectory, sameTable⟩ :=
    indices_of_mem_page (pageStart_aligned address) (mem_page_pageStart address)
  have present := present_of_walk translates
  have entryPresent : isPresent (tableEntry mem directory address) = true := by
    by_contra absent
    simp [walk, absent] at translates
  rw [tableEntry, servingTable, directoryEntry, sameDirectory, sameTable] at entryPresent
  rw [directoryEntry, sameDirectory] at present
  exact ⟨_, (if_pos present).trans (if_pos entryPresent)⟩

/-- An access leaves the translation its page has. -/
theorem mem_cachedBy {s : Machine} (holds : DirectoryApart layout s)
    {translation : Translation} (member : translation ∈ cachedBy address s) :
    PageAligned translation.page ∧
      walk s.mem layout.pageDirectory translation.page = some translation.frame := by
  rw [cachedBy, if_pos holds.paged, holds.cr3] at member
  cases translates : walk s.mem layout.pageDirectory (pageStart address) with
  | none => simp [translates] at member
  | some frame =>
      rw [translates] at member
      obtain rfl := List.mem_singleton.mp member
      exact ⟨pageStart_aligned address, translates⟩

/-- The access to an entry of a table that translates to itself leaves just that. -/
theorem cachedBy_slot {s : Machine} (holds : DirectoryApart layout s) {table i : UInt32}
    (aligned : PageAligned table) (itself : walk s.mem layout.pageDirectory table = some table)
    (inside : i.toNat < 1024) : cachedBy (slot table i) s = [⟨table, table⟩] := by
  have start : pageStart (slot table i) = table :=
    pageStart_of_mem aligned (slot_subset_page aligned inside (by simp [Span.mem_def]))
  have translates : walk s.mem layout.pageDirectory (pageStart (slot table i)) = some table := by
    rw [start, itself]
  rw [cachedBy_of_walk holds translates, start]

end Accesses

/-! ## What each call leaves -/

/-- Only translations of two tables that translate to themselves. -/
def OfTables (first second : UInt32) (extra : List Translation) : Prop :=
  ∀ translation ∈ extra, translation = ⟨first, first⟩ ∨ translation = ⟨second, second⟩

section Calls

variable {layout : Layout} {s ready : Machine} {address frame table i : UInt32}

theorem watchedLoadSlot_run {trace : List Translation}
    (holds : DirectoryApart layout s) (aligned : PageAligned table)
    (itself : walk s.mem layout.pageDirectory table = some table) (inside : i.toNat < 1024) :
    watchedLoadWord (slot table i) ⟨s, trace⟩ =
      .ok (entryAt s.mem table i) ⟨s, trace ++ [⟨table, table⟩]⟩ := by
  rw [← cachedBy_slot holds aligned itself inside]
  exact watchedLoadWord_run (holds.direct aligned itself inside)

theorem watchedStoreSlot_run {trace : List Translation}
    (holds : DirectoryApart layout s) (aligned : PageAligned table)
    (itself : walk s.mem layout.pageDirectory table = some table) (inside : i.toNat < 1024)
    (value : UInt32) :
    watchedStoreWord (slot table i) value ⟨s, trace⟩ =
      .ok () ⟨{ s with mem := s.mem.store32 (slot table i) value }, trace ++ [⟨table, table⟩]⟩ := by
  rw [← cachedBy_slot holds aligned itself inside]
  exact watchedStoreWord_run (holds.direct aligned itself inside)

/-- Preparing a page accesses the directory only. -/
theorem watchedPresentEntry_run (trace : List Translation)
    (holds : DirectoryApart layout s)
    (directory : walk s.mem layout.pageDirectory layout.pageDirectory = some layout.pageDirectory)
    (prepared : Prepared layout s address table ready) :
    ∃ extra, watchedPresentEntry layout.pageDirectory (getPageDirectoryIndex address) ⟨s, trace⟩ =
        .ok (directoryEntry ready.mem layout.pageDirectory address) ⟨ready, trace ++ extra⟩ ∧
      OfTables layout.pageDirectory table extra := by
  have small := getPageDirectoryIndex_lt address
  have aligned := layout.pageDirectory_aligned
  obtain ⟨kept, walks⟩ := holds.prepared_keeps prepared
  have again := (walks _ (present_of_walk directory)).trans directory
  cases prepared with
  | present present =>
      refine ⟨[⟨layout.pageDirectory, layout.pageDirectory⟩], ?_, by simp [OfTables]⟩
      refine (bind_of_ok (watchedLoadSlot_run holds aligned directory small)).trans ?_
      unfold directoryEntry at present
      rw [if_pos present]
      rfl
  | @added bit bitmap absent taken =>
      refine ⟨[⟨layout.pageDirectory, layout.pageDirectory⟩,
        ⟨layout.pageDirectory, layout.pageDirectory⟩,
        ⟨layout.pageDirectory, layout.pageDirectory⟩], ?_, by simp [OfTables]⟩
      refine (bind_of_ok (watchedLoadSlot_run holds aligned directory small)).trans ?_
      unfold directoryEntry at absent
      rw [if_neg (by simp [absent])]
      refine (bind_of_ok (unwatched_ok (pageTableAllocate_of_firstFit taken))).trans ?_
      have marked : DirectoryApart layout { s with pageTableBitmap := bitmap } :=
        holds.congr (fun _ _ => rfl) rfl rfl
      refine (bind_of_ok (watchedStoreSlot_run marked aligned directory small _)).trans ?_
      refine (watchedLoadSlot_run kept aligned again small).trans ?_
      simp only [List.append_assoc, List.singleton_append]
      rfl

/-- Where the directory and the table of a page translate to themselves, `map_page`
accesses these two only. -/
theorem watchedMapPage_run (trace : List Translation)
    (holds : DirectoryApart layout s)
    (addressAligned : PageAligned address) (frameAligned : PageAligned frame)
    (directory : walk s.mem layout.pageDirectory layout.pageDirectory = some layout.pageDirectory)
    (itself : walk s.mem layout.pageDirectory table = some table)
    (prepared : Prepared layout s address table ready) :
    ∃ extra, watchedMapPage layout.pageDirectory address frame ⟨s, trace⟩ =
        .ok () ⟨{ ready with
          mem := withEntry ready.mem (servingTable ready.mem layout.pageDirectory address) address
            (frame ||| 3) }, trace ++ extra⟩ ∧
      OfTables layout.pageDirectory table extra := by
  obtain ⟨extra, found, ofTables⟩ := watchedPresentEntry_run trace holds directory prepared
  obtain ⟨kept, walks⟩ := holds.prepared_keeps prepared
  have again := (walks _ (present_of_walk itself)).trans itself
  have serves := prepared.serves.2
  refine ⟨extra ++ [⟨table, table⟩], ?_, ?_⟩
  · refine (bind_of_ok (unwatched_ok (panicIf_run (check_of_aligned addressAligned)))).trans ?_
    refine (bind_of_ok (unwatched_ok (panicIf_run (check_of_aligned frameAligned)))).trans ?_
    refine (bind_of_ok found).trans ?_
    change watchedStoreWord (slot (servingTable ready.mem layout.pageDirectory address) _) _ _ = _
    rw [setReadWrite_setPresent, serves, ← List.append_assoc]
    exact watchedStoreSlot_run kept prepared.aligned again (getPageTableIndex_lt address) _
  · intro translation member
    rcases List.mem_append.mp member with early | last
    · exact ofTables translation early
    · exact .inr (List.mem_singleton.mp last)

/-- Where the directory and the table of a mapped page translate to themselves,
`unmap_page` accesses these two only. -/
theorem watchedUnmapPage_run (trace : List Translation)
    (holds : DirectoryApart layout s)
    (addressAligned : PageAligned address)
    (directory : walk s.mem layout.pageDirectory layout.pageDirectory = some layout.pageDirectory)
    (present : isPresent (directoryEntry s.mem layout.pageDirectory address) = true)
    (itself : walk s.mem layout.pageDirectory (servingTable s.mem layout.pageDirectory address) =
      some (servingTable s.mem layout.pageDirectory address))
    (mapped : isPresent (tableEntry s.mem layout.pageDirectory address) = true) :
    ∃ extra, watchedUnmapPage layout.pageDirectory address ⟨s, trace⟩ =
        .ok () ⟨{ s with
          mem := withEntry s.mem (servingTable s.mem layout.pageDirectory address) address
            (unsetPresent (tableEntry s.mem layout.pageDirectory address)) }, trace ++ extra⟩ ∧
      OfTables layout.pageDirectory (servingTable s.mem layout.pageDirectory address) extra := by
  have aligned := getPageTableAddress_aligned (directoryEntry s.mem layout.pageDirectory address)
  have small := getPageTableIndex_lt address
  refine ⟨[⟨layout.pageDirectory, layout.pageDirectory⟩, ⟨servingTable s.mem
    layout.pageDirectory address, servingTable s.mem layout.pageDirectory address⟩, ⟨servingTable
    s.mem layout.pageDirectory address, servingTable s.mem layout.pageDirectory address⟩], ?_,
    by simp [OfTables]⟩
  refine (bind_of_ok (unwatched_ok (panicIf_run (check_of_aligned addressAligned)))).trans ?_
  refine (bind_of_ok (watchedLoadSlot_run holds layout.pageDirectory_aligned directory
    (getPageDirectoryIndex_lt address))).trans ?_
  refine (bind_of_ok (unwatched_ok (panicIf_run (by
    rw [Bool.not_eq_false']
    exact present)))).trans ?_
  refine (bind_of_ok (watchedLoadSlot_run holds aligned itself small)).trans ?_
  refine (bind_of_ok (unwatched_ok (panicIf_run (by
    rw [Bool.not_eq_false']
    exact mapped)))).trans ?_
  refine (watchedStoreSlot_run holds aligned itself small _).trans ?_
  simp only [List.append_assoc, List.singleton_append]
  rfl

/-- While the first `count` bytes of a block are cleared: the tables are the same, and
the trace has gained current translations, among them those of the bytes' pages. -/
def Clearing (layout : Layout) (s : Machine) (trace : List Translation) (bufptr : UInt32)
    (count : Nat) (after : Watched Machine Translation) : Prop :=
  ∃ mem extra, after = ⟨{ s with mem := mem }, trace ++ extra⟩ ∧ SameTables s.mem mem ∧
    (∀ translation ∈ extra, PageAligned translation.page ∧
      walk s.mem layout.pageDirectory translation.page = some translation.frame) ∧
    ∀ i < count, ∃ translation ∈ extra,
      translation.page = pageStart (bufptr + UInt32.ofNat i)

/-- Clearing addresses that translate into the frame area leaves the translations of
their pages. -/
theorem watchedMemset_run (trace : List Translation) (holds : DirectoryApart layout s)
    (bufptr : UInt32) (value : UInt8) (size : UInt32)
    (frames : ∀ i < size.toNat, ∃ target, InFrameArea target ∧
      walk s.mem layout.pageDirectory (bufptr + UInt32.ofNat i) = some target) :
    ∃ after, watchedMemset bufptr value size ⟨s, trace⟩ = .ok () after ∧
      Clearing layout s trace bufptr size.toNat after := by
  have yields : Yields (watchedMemset bufptr value size ⟨s, trace⟩)
      (fun _ after => Clearing layout s trace bufptr size.toNat after) (fun _ => False) := by
    refine Yields.times (I := Clearing layout s trace bufptr) ?_ ?_
    · exact ⟨s.mem, [], by simp, .refl _, by simp, by simp⟩
    · rintro i _ inside ⟨mem, extra, rfl, same, current, pages⟩
      obtain ⟨target, inFrames, translates⟩ := frames i inside
      have kept : DirectoryApart layout { s with mem := mem } :=
        holds.congr (holds.sameEntries same).directory rfl rfl
      have walks := holds.walk_sameTables same
      have reaches : physical { s with mem := mem } (bufptr + UInt32.ofNat i) = some target := by
        rw [physical, if_pos holds.paged, holds.cr3]
        exact (walks _).trans translates
      -- The page translates because one of its addresses does.
      obtain ⟨frame, pageTranslates⟩ := walk_pageStart translates
      have cached := cachedBy_of_walk kept ((walks _).trans pageTranslates)
      rw [watchedStoreByte_run reaches, cached]
      refine ⟨_, extra ++ [⟨pageStart (bufptr + UInt32.ofNat i), frame⟩], by rw [List.append_assoc],
        same.trans (sameTables_write inFrames), ?_, ?_⟩
      · intro translation member
        rcases List.mem_append.mp member with early | last
        · exact current translation early
        · obtain rfl := List.mem_singleton.mp last
          exact ⟨pageStart_aligned _, pageTranslates⟩
      · intro earlier below
        by_cases last : earlier = i
        · subst last
          exact ⟨_, List.mem_append_right _ (List.mem_singleton_self _), rfl⟩
        · obtain ⟨translation, member, page⟩ := pages earlier (by omega)
          exact ⟨translation, List.mem_append_left _ member, page⟩
  obtain ⟨_, after, run, clearing⟩ := yields.returns
  exact ⟨after, run, clearing⟩

end Calls

/-! ## Coherence -/

/-- No translation in the trace is stale. -/
def NoStale (layout : Layout) (w : Watched Machine Translation) : Prop :=
  ∀ translation ∈ w.trace,
    walk w.state.mem layout.pageDirectory translation.page = some translation.frame

/-- What calls that take away no translation keep: the trace is not stale, and the
translation of every mapped heap page is in it. -/
structure Coherent (layout : Layout) (w : Watched Machine Translation) : Prop extends
    DirectoryApart layout w.state where
  current : ∀ translation ∈ w.trace, PageAligned translation.page ∧
    walk w.state.mem layout.pageDirectory translation.page = some translation.frame
  heapAbove : heapAllocatorAreaStart.toNat ≤ w.state.heapCurrent.toNat
  heapBelow : w.state.heapCurrent.toNat ≤ w.state.heapMapped.toNat
  heapAligned : PageAligned w.state.heapMapped
  heapPages : ∀ address, MappedHeapPage w.state address → ∃ frame, PageAligned frame ∧
    InFrameArea frame ∧ ⟨address, frame⟩ ∈ w.trace

/-- The frame that `page_frame_allocate` is about to take. -/
def nextFrame (s : Machine) : Option UInt32 :=
  s.pageFrameBitmap.firstFit.map fun taken => framePage taken.1

/-- A translation that is in the trace, or that the mapping or unmapping of an address
uses itself: the directory's, or the page table's. -/
def MayCache (layout : Layout) (w : Watched Machine Translation) (address : UInt32)
    (translation : Translation) : Prop :=
  translation ∈ w.trace ∨ translation = ⟨layout.pageDirectory, layout.pageDirectory⟩ ∨
    ∃ table, mappingTable layout w.state address = some table ∧ translation = ⟨table, table⟩

/-- The page table entry of `other` is the one that is stored for `address`. -/
def UsesEntry (layout : Layout) (s : Machine) (address other : UInt32) : Prop :=
  mappingTable layout s address = some (servingTable s.mem layout.pageDirectory other) ∧
    getPageTableIndex other = getPageTableIndex address

/-- Storing an entry for an address takes no translation away. The directory and the
page table, which are used as pointers, translate to themselves; and every page whose
translation may be kept and whose entry it is translates to `target` already. -/
structure Spared (layout : Layout) (w : Watched Machine Translation) (address : UInt32)
    (target : Option UInt32) : Prop where
  directory : walk w.state.mem layout.pageDirectory layout.pageDirectory =
    some layout.pageDirectory
  table : ∀ table, mappingTable layout w.state address = some table →
    walk w.state.mem layout.pageDirectory table = some table
  kept : ∀ translation, MayCache layout w address translation →
    UsesEntry layout w.state address translation.page → target = some translation.frame

section Coherent

variable {layout : Layout} {s t : Machine} {w after : Watched Machine Translation}
  {trace extra : List Translation} {address frame table : UInt32} {target : Option UInt32}

theorem Coherent.noStale (holds : Coherent layout w) : NoStale layout w :=
  fun translation member => (holds.current translation member).2

/-- No translation is kept when paging is turned on. -/
theorem initPaging_coherent {start : Machine} (unpaged : s.paging = false)
    (booted : initPaging layout s = .ok () start) : Coherent layout ⟨start, []⟩ := by
  obtain ⟨apart, current, mapped⟩ := initPaging_apart unpaged booted
  refine ⟨apart, by simp, ?_, ?_, ?_, ?_⟩
  · simp only [current, Nat.le_refl]
  · simp only [current, mapped, Nat.le_refl]
  · simp only [mapped]
    rfl
  · rintro address ⟨_, above, below⟩
    simp only [mapped] at below
    omega

/-- A step that adds translations to the trace keeps it coherent where every one, old
or new, is current afterwards. -/
theorem Coherent.step (holds : Coherent layout ⟨s, trace⟩) (kept : DirectoryApart layout t)
    (globals : SameGlobals s t)
    (current : ∀ translation ∈ trace ++ extra, PageAligned translation.page ∧
      walk t.mem layout.pageDirectory translation.page = some translation.frame) :
    Coherent layout ⟨t, trace ++ extra⟩ := by
  refine ⟨kept, current, ?_, ?_, ?_, fun address mapped => ?_⟩
  · change _ ≤ t.heapCurrent.toNat
    rw [globals.heapCurrent]
    exact holds.heapAbove
  · change t.heapCurrent.toNat ≤ t.heapMapped.toNat
    rw [globals.heapCurrent, globals.heapMapped]
    exact holds.heapBelow
  · change PageAligned t.heapMapped
    rw [globals.heapMapped]
    exact holds.heapAligned
  · rw [MappedHeapPage, globals.heapMapped] at mapped
    obtain ⟨frame, frameAligned, inFrames, member⟩ := holds.heapPages address mapped
    exact ⟨frame, frameAligned, inFrames, List.mem_append_left _ member⟩

/-- Whatever may be kept before a store is aligned and current. -/
theorem Coherent.mayCache_current (holds : Coherent layout w)
    (spared : Spared layout w address target) {translation : Translation}
    (mayCache : MayCache layout w address translation) :
    PageAligned translation.page ∧
      walk w.state.mem layout.pageDirectory translation.page = some translation.frame := by
  rcases mayCache with member | rfl | ⟨table, serves, rfl⟩
  · exact holds.current translation member
  · exact ⟨layout.pageDirectory_aligned, spared.directory⟩
  · obtain ⟨_, prepared⟩ := prepared_of_mappingTable serves
    exact ⟨prepared.aligned, spared.table table serves⟩

/-- What a call leaves in the trace may have been kept before it. -/
theorem mayCache_of_mem (serves : mappingTable layout s address = some table)
    (ofTables : OfTables layout.pageDirectory table extra) {translation : Translation}
    (member : translation ∈ trace ++ extra) :
    MayCache layout ⟨s, trace⟩ address translation := by
  rcases List.mem_append.mp member with early | late
  · exact .inl early
  · rcases ofTables translation late with directory | same
    · exact .inr (.inl directory)
    · exact .inr (.inr ⟨table, serves, same⟩)

theorem Coherent.mapPage_keeps (holds : Coherent layout ⟨s, trace⟩)
    (spared : Spared layout ⟨s, trace⟩ address (some frame))
    (returned : watchedMapPage layout.pageDirectory address frame ⟨s, trace⟩ = .ok () after) :
    Coherent layout after ∧ walk after.state.mem layout.pageDirectory address = some frame := by
  have plain := (watchedMapPage_watches _ _ _).of_ok returned
  obtain ⟨aligned, frameAligned, found⟩ := mapPage_requires plain
    (holds.direct layout.pageDirectory_aligned spared.directory (getPageDirectoryIndex_lt address))
  obtain ⟨table, ready, prepared⟩ := prepared_of_found found
  have serves := prepared.mappingTable_eq
  obtain ⟨present, serving⟩ := prepared.serves
  obtain ⟨extra, run, ofTables⟩ := watchedMapPage_run trace holds.toDirectoryApart aligned
    frameAligned spared.directory (spared.table table serves) prepared
  have globals := ((mapPage_settles layout.pageDirectory address frame).yields s).of_ok plain
  rw [returned] at run
  cases run
  obtain ⟨kept, walks⟩ := holds.toDirectoryApart.prepared_keeps prepared
  obtain ⟨stored, translates⟩ := kept.storeEntry frameAligned present
  refine ⟨holds.step stored globals fun translation member => ?_,
    (translates address aligned present).trans (if_pos ⟨rfl, rfl⟩)⟩
  have mayCache := mayCache_of_mem serves ofTables member
  obtain ⟨pageAligned, before⟩ := holds.mayCache_current spared mayCache
  have served := present_of_walk before
  have readyWalk := (walks _ served).trans before
  refine ⟨pageAligned, (translates _ pageAligned (present_of_walk readyWalk)).trans ?_⟩
  split
  next same =>
    have uses : UsesEntry layout s address translation.page := by
      refine ⟨?_, same.2⟩
      rw [serves, ← serving, ← same.1, servingTable, servingTable,
        prepared.directoryEntry_kept served]
    exact spared.kept translation mayCache uses
  next => exact readyWalk

theorem Coherent.unmapPage_keeps (holds : Coherent layout ⟨s, trace⟩)
    (spared : Spared layout ⟨s, trace⟩ address none)
    (returned : watchedUnmapPage layout.pageDirectory address ⟨s, trace⟩ = .ok () after) :
    Coherent layout after := by
  have plain := (watchedUnmapPage_watches _ _).of_ok returned
  have directoryDirect := holds.direct layout.pageDirectory_aligned spared.directory
    (getPageDirectoryIndex_lt address)
  have present := unmapPage_present plain directoryDirect
  have serves : mappingTable layout s address =
      some (servingTable s.mem layout.pageDirectory address) := if_pos present
  have itself := spared.table _ serves
  obtain ⟨aligned, _, mapped, _⟩ := unmapPage_ok plain directoryDirect
    (holds.direct (getPageTableAddress_aligned _) itself (getPageTableIndex_lt address))
  obtain ⟨extra, run, ofTables⟩ := watchedUnmapPage_run trace holds.toDirectoryApart aligned
    spared.directory present itself mapped
  rw [returned] at run
  cases run
  obtain ⟨stored, entries⟩ := holds.toDirectoryApart.store
    (unsetPresent (tableEntry s.mem layout.pageDirectory address)) present
  refine holds.step stored ⟨rfl, rfl, rfl, rfl, rfl, rfl, rfl⟩ fun translation member => ?_
  have mayCache := mayCache_of_mem serves ofTables member
  obtain ⟨pageAligned, before⟩ := holds.mayCache_current spared mayCache
  obtain ⟨sameEntry, entry⟩ := entries translation.page
  refine ⟨pageAligned, (walk_congr sameEntry (entry.trans (if_neg ?_))).trans before⟩
  rintro ⟨sameTable, sameSlot⟩
  have gone := spared.kept translation mayCache ⟨serves.trans (by rw [sameTable]), sameSlot⟩
  cases gone

/-! ### Allocations -/

theorem Coherent.withFrames (holds : Coherent layout ⟨s, trace⟩)
    (bitmap : Bitmap pageFrameBitmapSize) :
    Coherent layout ⟨{ s with pageFrameBitmap := bitmap }, trace⟩ :=
  ⟨holds.toDirectoryApart.congr (fun _ _ => rfl) rfl rfl, holds.current, holds.heapAbove,
    holds.heapBelow, holds.heapAligned, holds.heapPages⟩

/-- Clearing a block keeps the trace coherent. -/
theorem Coherent.cleared (holds : Coherent layout ⟨s, trace⟩) {bufptr : UInt32} {count : Nat}
    (clearing : Clearing layout s trace bufptr count after) : Coherent layout after := by
  obtain ⟨mem, extra, rfl, same, current, _⟩ := clearing
  have kept : DirectoryApart layout { s with mem := mem } :=
    holds.toDirectoryApart.congr (holds.sameEntries same).directory rfl rfl
  refine holds.step kept ⟨rfl, rfl, rfl, rfl, rfl, rfl, rfl⟩ fun translation member => ?_
  have before : PageAligned translation.page ∧
      walk s.mem layout.pageDirectory translation.page = some translation.frame := by
    rcases List.mem_append.mp member with early | late
    · exact holds.current translation early
    · exact current translation late
  exact ⟨before.1, (holds.walk_sameTables same _).trans before.2⟩

theorem takePageFrame_next {after : Machine} (returned : takePageFrame s = .ok frame after) :
    nextFrame s = some frame := by
  unfold takePageFrame at returned
  split at returned
  · cases returned
  · rename_i pageIndex bitmap taken
    rw [nextFrame, taken]
    injection returned with position _
    exact congrArg some position

theorem unwatched_panicIf_ok {failed : Bool} {message : String}
    (returned : unwatched (panicIf failed message) w = .ok () after) :
    failed = false ∧ after = w := by
  obtain ⟨_, plain, rfl⟩ := unwatched_returned returned
  obtain ⟨passed, rfl⟩ := panicIf_ok_iff.mp plain
  exact ⟨passed, rfl⟩

/-- A spared `page_frame_allocate` keeps the trace coherent, and leaves the translation
of its page to a frame. -/
theorem Coherent.pageFrameAllocate_keeps (holds : Coherent layout ⟨s, trace⟩)
    (spared : Spared layout ⟨s, trace⟩ address (nextFrame s)) {ret : UInt32}
    (returned : watchedPageFrameAllocate layout address ⟨s, trace⟩ = .ok ret after) :
    Coherent layout after ∧ ∃ frame, PageAligned frame ∧ InFrameArea frame ∧
      ⟨address, frame⟩ ∈ after.trace := by
  rw [watchedPageFrameAllocate, bind_ok_iff] at returned
  obtain ⟨_, _, first, rest⟩ := returned
  obtain ⟨check, rfl⟩ := unwatched_panicIf_ok first
  have aligned := aligned_of_check check
  rw [bind_ok_iff] at rest
  obtain ⟨frame, _, takes, rest⟩ := rest
  obtain ⟨_, took, rfl⟩ := unwatched_returned takes
  obtain ⟨frameAligned, inFrames, bitmap, rfl⟩ := takePageFrame_ok took
  rw [takePageFrame_next took] at spared
  rw [bind_ok_iff] at rest
  obtain ⟨_, ⟨mapped, mappedTrace⟩, mapping, rest⟩ := rest
  obtain ⟨kept, translates⟩ := (holds.withFrames bitmap).mapPage_keeps
    ⟨spared.directory, spared.table, spared.kept⟩ mapping
  rw [bind_ok_iff] at rest
  obtain ⟨_, last, clears, rest⟩ := rest
  cases rest
  obtain ⟨_, cleared, clearing⟩ := watchedMemset_run mappedTrace kept.toDirectoryApart address 0
    pageSize (frame_block aligned inFrames translates)
  rw [clears] at cleared
  cases cleared
  refine ⟨kept.cleared clearing, frame, frameAligned, inFrames, ?_⟩
  obtain ⟨_, extra, rfl, _, current, pages⟩ := clearing
  obtain ⟨⟨page, cached⟩, member, start⟩ := pages 0 (by decide)
  have here : page = address := by
    refine start.trans ?_
    have zero : address + UInt32.ofNat 0 = address := by simp
    rw [zero]
    exact pageStart_of_mem aligned ((mem_page_iff aligned).mpr (by omega))
  subst here
  have same : some cached = some frame := (current _ member).2.symm.trans translates
  injection same with same
  subst same
  exact List.mem_append_right _ member

/-- Once the translation of the page at the watermark is in the trace, the watermark can
move past it. -/
theorem Coherent.extend (holds : Coherent layout w)
    (below : w.state.heapMapped.toNat < heapAllocatorAreaEnd.toNat)
    (frameAligned : PageAligned frame) (inFrames : InFrameArea frame)
    (member : ⟨w.state.heapMapped, frame⟩ ∈ w.trace) :
    Coherent layout
      ⟨{ w.state with heapMapped := w.state.heapMapped + pageSize }, w.trace⟩ := by
  rw [toNat_heapAllocatorAreaEnd] at below
  have ordered := holds.heapBelow
  have aligned := holds.heapAligned
  have advanced : (w.state.heapMapped + pageSize).toNat = w.state.heapMapped.toNat + 4096 := by
    rw [UInt32.toNat_add, toNat_pageSize]
    omega
  refine ⟨holds.toDirectoryApart.congr (fun _ _ => rfl) rfl rfl, holds.current, holds.heapAbove,
    ?_, ?_, ?_⟩
  · change w.state.heapCurrent.toNat ≤ (w.state.heapMapped + pageSize).toNat
    omega
  · change (w.state.heapMapped + pageSize).toNat % 4096 = 0
    unfold PageAligned at aligned
    omega
  · rintro address ⟨addressAligned, above, limit⟩
    change address.toNat < (w.state.heapMapped + pageSize).toNat at limit
    by_cases last : address = w.state.heapMapped
    · exact ⟨frame, frameAligned, inFrames, last ▸ member⟩
    · have different : address.toNat ≠ w.state.heapMapped.toNat := fun same =>
        last (UInt32.toNat_inj.mp same)
      refine holds.heapPages address ⟨addressAligned, above, ?_⟩
      unfold PageAligned at aligned addressAligned
      omega

theorem watchedHeapMapNext_ok (returned : watchedHeapMapNext layout ⟨s, trace⟩ = .ok () after) :
    ∃ ret grown, watchedPageFrameAllocate layout s.heapMapped ⟨s, trace⟩ = .ok ret grown ∧
      after = ⟨{ grown.state with heapMapped := grown.state.heapMapped + pageSize },
        grown.trace⟩ := by
  rw [watchedHeapMapNext, bind_ok_iff] at returned
  obtain ⟨_, _, readMapped, rest⟩ := returned
  cases readMapped
  rw [bind_ok_iff] at rest
  obtain ⟨ret, grown, allocated, rest⟩ := rest
  cases rest
  exact ⟨ret, grown, allocated, rfl⟩

/-- One round of the mapping loop, when it is spared. -/
theorem Coherent.heapMapNext_keeps (holds : Coherent layout ⟨s, trace⟩)
    (below : s.heapMapped.toNat < heapAllocatorAreaEnd.toNat)
    (spared : Spared layout ⟨s, trace⟩ s.heapMapped (nextFrame s))
    (returned : watchedHeapMapNext layout ⟨s, trace⟩ = .ok () after) :
    Coherent layout after ∧ after.state.heapCurrent = s.heapCurrent := by
  obtain ⟨_, grown, allocated, rfl⟩ := watchedHeapMapNext_ok returned
  obtain ⟨kept, frame, frameAligned, inFrames, member⟩ :=
    holds.pageFrameAllocate_keeps spared allocated
  have plain := (watchedPageFrameAllocate_watches _ _).of_ok allocated
  have same := ((pageFrameAllocate_settles layout s.heapMapped).yields s).of_ok plain
  rw [← same.heapMapped] at below member
  exact ⟨kept.extend below frameAligned inFrames member, same.heapCurrent⟩

end Coherent

/-- The states in which the mapping loop of `heap_allocate` maps a page, with their
traces, from `w` on. -/
inductive WatchedHeapMaps (layout : Layout) (size : UInt32) :
    Watched Machine Translation → Watched Machine Translation → Prop where
  | here {w : Watched Machine Translation}
      (again : w.state.heapCurrent + size > w.state.heapMapped) : WatchedHeapMaps layout size w w
  | later {w next t : Watched Machine Translation}
      (again : w.state.heapCurrent + size > w.state.heapMapped)
      (mapped : watchedHeapMapNext layout w = .ok () next)
      (rest : WatchedHeapMaps layout size next t) : WatchedHeapMaps layout size w t

section Heap

variable {layout : Layout} {w after : Watched Machine Translation} {size : UInt32}

theorem Coherent.heapMapUpTo_keeps (holds : Coherent layout w)
    (limit : (w.state.heapCurrent + size).toNat ≤ heapAllocatorAreaEnd.toNat)
    (spared : ∀ t, WatchedHeapMaps layout size w t →
      Spared layout t t.state.heapMapped (nextFrame t.state))
    (returned : watchedHeapMapUpTo layout size w = .ok () after) :
    Coherent layout after ∧ after.state.heapCurrent = w.state.heapCurrent ∧
      (w.state.heapCurrent + size).toNat ≤ after.state.heapMapped.toNat := by
  have kept := loop_ok (I := fun _ t => Coherent layout t ∧
    t.state.heapCurrent = w.state.heapCurrent ∧
    ∀ u, WatchedHeapMaps layout size t u → WatchedHeapMaps layout size w u) ?_
    ⟨holds, rfl, fun _ => id⟩ returned
  · obtain ⟨⟨coherent, current, _⟩, done⟩ := kept
    rw [onState, decide_eq_false_iff_not, current, gt_iff_lt, UInt32.lt_iff_toNat_lt] at done
    exact ⟨coherent, current, by omega⟩
  · rintro _ t _ next ⟨coherent, current, maps⟩ again mapped
    rw [onState, decide_eq_true_eq] at again
    have below : t.state.heapMapped.toNat < heapAllocatorAreaEnd.toNat := by
      have guard := again
      rw [current, gt_iff_lt, UInt32.lt_iff_toNat_lt] at guard
      omega
    obtain ⟨extended, same⟩ :=
      coherent.heapMapNext_keeps below (spared t (maps t (.here again))) mapped
    exact ⟨extended, same.trans current, fun u later => maps u (.later again mapped later)⟩

theorem watchedHeapAllocate_ok {ret : UInt32}
    (returned : watchedHeapAllocate layout size w = .ok ret after) :
    (w.state.heapCurrent + size).toNat ≤ heapAllocatorAreaEnd.toNat ∧
      ∃ grown cleared, watchedHeapMapUpTo layout size w = .ok () grown ∧
        watchedMemset grown.state.heapCurrent 0 size grown = .ok () cleared ∧
        after = ⟨{ cleared.state with
          heapCurrent := cleared.state.heapCurrent + size
          kallocs := cleared.state.kallocs ++ [⟨cleared.state.heapCurrent, size⟩] },
          cleared.trace⟩ := by
  rw [watchedHeapAllocate, bind_ok_iff] at returned
  obtain ⟨_, _, readCurrent, rest⟩ := returned
  cases readCurrent
  rw [bind_ok_iff] at rest
  obtain ⟨_, _, first, rest⟩ := rest
  obtain ⟨check, rfl⟩ := unwatched_panicIf_ok first
  rw [decide_eq_false_iff_not, gt_iff_lt, UInt32.lt_iff_toNat_lt, Nat.not_lt] at check
  rw [bind_ok_iff] at rest
  obtain ⟨_, grown, mapping, rest⟩ := rest
  rw [bind_ok_iff] at rest
  obtain ⟨_, _, readTop, rest⟩ := rest
  cases readTop
  rw [bind_ok_iff] at rest
  obtain ⟨_, cleared, clears, rest⟩ := rest
  cases rest
  exact ⟨check, grown, cleared, mapping, clears, rfl⟩

/-- The pages of the mapped heap translate into the frame area, as the trace says. -/
theorem Coherent.heap (holds : Coherent layout w) (address : UInt32)
    (aligned : PageAligned address) (above : heapAllocatorAreaStart.toNat ≤ address.toNat)
    (below : address.toNat < w.state.heapMapped.toNat) :
    ∃ frame, PageAligned frame ∧ InFrameArea frame ∧
      walk w.state.mem layout.pageDirectory address = some frame := by
  obtain ⟨frame, frameAligned, inFrames, member⟩ :=
    holds.heapPages address ⟨aligned, above, below⟩
  exact ⟨frame, frameAligned, inFrames, (holds.current _ member).2⟩

theorem Coherent.heapAllocate_keeps (holds : Coherent layout w)
    (fits : w.state.heapCurrent.toNat + size.toNat < 2 ^ 32)
    (spared : ∀ t, WatchedHeapMaps layout size w t →
      Spared layout t t.state.heapMapped (nextFrame t.state)) {ret : UInt32}
    (returned : watchedHeapAllocate layout size w = .ok ret after) :
    Coherent layout after := by
  obtain ⟨check, ⟨grown, grownTrace⟩, _, mapping, clears, rfl⟩ := watchedHeapAllocate_ok returned
  obtain ⟨kept, current, covered⟩ := holds.heapMapUpTo_keeps check spared mapping
  rw [← current] at fits covered
  obtain ⟨_, cleared, clearing⟩ := watchedMemset_run grownTrace kept.toDirectoryApart
    grown.heapCurrent 0 size (heap_block kept.heap kept.heapAbove fits covered)
  rw [clears] at cleared
  cases cleared
  have later := kept.cleared clearing
  obtain ⟨_, _, rfl, _⟩ := clearing
  refine ⟨later.toDirectoryApart.congr (fun _ _ => rfl) rfl rfl, later.current, ?_, covered,
    later.heapAligned, later.heapPages⟩
  have above := kept.heapAbove
  change _ ≤ (grown.heapCurrent + size).toNat
  rw [UInt32.toNat_add]
  simp only at fits above
  omega

end Heap

/-! ## Runs -/

/-- Make a call, and drop the address it returns. -/
def MemoryCall.watched (layout : Layout) : MemoryCall → Cached Unit
  | .mapPage virtualAddress physicalAddress =>
      watchedMapPage layout.pageDirectory virtualAddress physicalAddress
  | .unmapPage virtualAddress => watchedUnmapPage layout.pageDirectory virtualAddress
  | .pageFrameAllocate virtualAddress =>
      watchedPageFrameAllocate layout virtualAddress >>= fun _ => pure ()
  | .heapAllocate size => watchedHeapAllocate layout size >>= fun _ => pure ()

theorem MemoryCall.watched_watches (layout : Layout) (call : MemoryCall) :
    Watches (call.watched layout) (call.run layout) := by
  cases call with
  | mapPage _ _ => exact watchedMapPage_watches _ _ _
  | unmapPage _ => exact watchedUnmapPage_watches _ _
  | pageFrameAllocate _ => exact .bind (watchedPageFrameAllocate_watches _ _) fun _ _ => rfl
  | heapAllocate _ => exact .bind (watchedHeapAllocate_watches _ _) fun _ _ => rfl

/-- What happens once paging is on: an access to a byte, or a call. -/
inductive Event where
  | load (address : UInt32)
  | store (address : UInt32) (value : UInt8)
  | call (call : MemoryCall)

namespace Event

def run (layout : Layout) : Event → Cached Unit
  | .load address => watchedLoadByte address >>= fun _ => pure ()
  | .store address value => watchedStoreByte address value
  | .call operation => operation.watched layout

/-- The event takes no translation away. A store is not into the directory or a page
table in use; a call spares the translations that may be kept whenever it stores a page
table entry; and a block's size does not carry the heap top past 2^32. -/
def Spares (layout : Layout) (w : Watched Machine Translation) : Event → Prop
  | .load _ => True
  | .store address _ => ∀ target, physical w.state address = some target →
      target ∉ page layout.pageDirectory ∧
        ∀ i, Entered w.state.mem layout.pageDirectory i →
          target ∉ page (tableAt w.state.mem layout.pageDirectory i)
  | .call (.mapPage virtualAddress physicalAddress) =>
      Spared layout w virtualAddress (some physicalAddress)
  | .call (.unmapPage virtualAddress) => Spared layout w virtualAddress none
  | .call (.pageFrameAllocate virtualAddress) =>
      Spared layout w virtualAddress (nextFrame w.state)
  | .call (.heapAllocate size) => w.state.heapCurrent.toNat + size.toNat < 2 ^ 32 ∧
      ∀ t, WatchedHeapMaps layout size w t →
        Spared layout t t.state.heapMapped (nextFrame t.state)

/-- The event happens, and nothing panics or faults. -/
def Step (layout : Layout) (w : Watched Machine Translation) (event : Event)
    (after : Watched Machine Translation) : Prop := event.run layout w = .ok () after

end Event

section Runs

variable {layout : Layout} {index : Nat} {s start : Machine} {w after : Watched Machine Translation}
  {trace : List Translation} {address target : UInt32}

/-- A byte outside a page is no part of its entries. -/
theorem entryAt_write_of_notMem {mem : Bytes} {table i : UInt32} {value : UInt8}
    (aligned : PageAligned table) (inside : i.toNat < 1024) (outside : target ∉ page table) :
    entryAt (mem.write target [value]) table i = entryAt mem table i := by
  refine Bytes.load32_congr fun other member => Bytes.write_of_notMem fun here => ?_
  have same : other = target := by
    rw [List.length_singleton, Span.mem_def] at here
    have zero : (other - target).toNat = 0 := by omega
    rw [← UInt32.toNat_inj, UInt32.toNat_sub] at *
    have wide := other.toNat_lt
    have targetWide := target.toNat_lt
    omega
  exact outside (same ▸ slot_subset_page aligned inside member)

theorem watchedLoadByte_run (reaches : physical w.state address = some target) :
    watchedLoadByte address w =
      .ok (w.state.mem target) ⟨w.state, w.trace ++ cachedBy address w.state⟩ := by
  have plain : loadByte address w.state = .ok (w.state.mem target) w.state := by
    simp only [loadByte, reaches]
  exact (bind_of_ok (watch_run _ w)).trans (unwatched_ok plain)

theorem watchedLoadByte_ok {value : UInt8}
    (returned : watchedLoadByte address w = .ok value after) :
    after = ⟨w.state, w.trace ++ cachedBy address w.state⟩ := by
  obtain ⟨_, _, touched, loaded⟩ := bind_ok_iff.mp returned
  cases touched
  obtain ⟨_, plain, rfl⟩ := unwatched_returned loaded
  unfold loadByte at plain
  split at plain
  · cases plain
    rfl
  · cases plain

theorem watchedStoreByte_ok {value : UInt8}
    (returned : watchedStoreByte address value w = .ok () after) :
    ∃ target, physical w.state address = some target ∧
      after = ⟨{ w.state with mem := w.state.mem.write target [value] },
        w.trace ++ cachedBy address w.state⟩ := by
  obtain ⟨_, _, touched, stored⟩ := bind_ok_iff.mp returned
  cases touched
  obtain ⟨_, plain, rfl⟩ := unwatched_returned stored
  unfold storeByte at plain
  split at plain
  · rename_i target reaches
    cases plain
    exact ⟨target, reaches, rfl⟩
  · cases plain

/-- An event that takes no translation away keeps the trace coherent. -/
theorem Coherent.event_keeps (holds : Coherent layout w) {event : Event}
    (spares : event.Spares layout w) (step : event.Step layout w after) :
    Coherent layout after := by
  obtain ⟨s, trace⟩ := w
  have accessed : ∀ address, ∀ translation ∈ trace ++ cachedBy address s,
      PageAligned translation.page ∧
        walk s.mem layout.pageDirectory translation.page = some translation.frame := by
    intro address translation member
    rcases List.mem_append.mp member with early | late
    · exact holds.current translation early
    · exact mem_cachedBy holds.toDirectoryApart late
  cases event with
  | load address =>
      have returned : (watchedLoadByte address >>= fun _ => pure ()) ⟨s, trace⟩ = .ok () after :=
        step
      obtain ⟨_, _, loaded, rest⟩ := bind_ok_iff.mp returned
      cases rest
      obtain rfl := watchedLoadByte_ok loaded
      exact holds.step holds.toDirectoryApart (.refl s) (accessed address)
  | store address value =>
      obtain ⟨target, reaches, rfl⟩ := watchedStoreByte_ok step
      obtain ⟨notDirectory, notTable⟩ := spares target reaches
      have same : SameEntries layout s (s.mem.write target [value]) := by
        constructor
        · intro i inside
          exact entryAt_write_of_notMem layout.pageDirectory_aligned inside notDirectory
        · intro i entered j inside
          exact entryAt_write_of_notMem (getPageTableAddress_aligned _) inside
            (notTable i entered)
      refine holds.step (holds.toDirectoryApart.congr same.directory rfl rfl)
        ⟨rfl, rfl, rfl, rfl, rfl, rfl, rfl⟩ fun translation member => ?_
      obtain ⟨aligned, before⟩ := accessed address translation member
      exact ⟨aligned, (same.walk _).trans before⟩
  | call call =>
      cases call with
      | mapPage virtualAddress physicalAddress => exact (holds.mapPage_keeps spares step).1
      | unmapPage virtualAddress => exact holds.unmapPage_keeps spares step
      | pageFrameAllocate virtualAddress =>
          have returned : (watchedPageFrameAllocate layout virtualAddress >>= fun _ => pure ())
              ⟨s, trace⟩ = .ok () after := step
          obtain ⟨_, _, allocated, rest⟩ := bind_ok_iff.mp returned
          cases rest
          exact (holds.pageFrameAllocate_keeps spares allocated).1
      | heapAllocate size =>
          have returned : (watchedHeapAllocate layout size >>= fun _ => pure ()) ⟨s, trace⟩ =
              .ok () after := step
          obtain ⟨_, _, allocated, rest⟩ := bind_ok_iff.mp returned
          cases rest
          exact holds.heapAllocate_keeps spares.1 spares.2 allocated

/-- In every run from the state `init_paging` leaves, of accesses and calls that each
take no translation away, no translation the processor may hold is stale. -/
theorem noStale_of_spares (unpaged : s.paging = false)
    (booted : initPaging layout s = .ok () start)
    {path : List (Event × Watched Machine Translation)}
    (whole : Path (fun w event after => Event.Step layout w event after) ⟨start, []⟩ path)
    (each : Each (fun w event => Event.Spares layout w event) ⟨start, []⟩ path) :
    NoStale layout (finish ⟨start, []⟩ path) := by
  have coherent : Coherent layout (finish ⟨start, []⟩ path) :=
    whole.invariant each (initPaging_coherent unpaged booted) fun holds spares step =>
      holds.event_keeps spares step
  exact coherent.noStale

/-- Unmapping an identity page after a boot returns, and the page translates no more. -/
theorem Booted.unmapPage_run (booted : Booted layout index s) (trace : List Translation)
    (identity : IdentityPage address) :
    ∃ t extra, watchedUnmapPage layout.pageDirectory address ⟨s, trace⟩ =
        .ok () ⟨t, trace ++ extra⟩ ∧
      walk t.mem layout.pageDirectory address = none := by
  have holds := booted.identity_holds
  have translates := holds.identity address identity
  have present := present_of_walk translates
  have mapped := (walk_isSome_iff present).mp (by rw [translates]; rfl)
  have itself := holds.identity _ (holds.tableAt_identity (entered_of_present present))
  obtain ⟨extra, run, _⟩ := watchedUnmapPage_run trace holds.toDirectoryApart identity.1
    (holds.identity _ (pageDirectory_identity layout)) present itself mapped
  refine ⟨_, extra, run, walk_of_entry_absent ?_⟩
  have entry := ((holds.toDirectoryApart.store
    (unsetPresent (tableEntry s.mem layout.pageDirectory address)) present).2 address).2
  rw [if_pos ⟨rfl, rfl⟩] at entry
  rw [entry]
  exact isPresent_unsetPresent _

/-- An access to an identity page after a boot leaves its translation. -/
theorem Booted.load_run (booted : Booted layout index s) (identity : IdentityPage address) :
    Event.Step layout ⟨s, []⟩ (.load address) ⟨s, [⟨address, address⟩]⟩ := by
  have holds := booted.identity_holds
  have start : pageStart address = address :=
    pageStart_of_mem identity.1 ((mem_page_iff identity.1).mpr (by omega))
  have translates := holds.identity address identity
  have reaches : physical s address = some address := by
    rw [physical, if_pos holds.paged, holds.cr3, translates]
  have cached : cachedBy address s = [⟨address, address⟩] := by
    have page : walk s.mem layout.pageDirectory (pageStart address) = some address := by
      rw [start, translates]
    rw [cachedBy_of_walk holds.toDirectoryApart page, start]
  have loaded := watchedLoadByte_run (w := ⟨s, []⟩) reaches
  rw [cached] at loaded
  exact (bind_of_ok loaded).trans rfl

end Runs

/-- The VGA buffer is accessed, then the first page of the kernel area is unmapped. -/
theorem noStale_of_spares_unmapped_elsewhere :
    ∃ start after, initPaging Layout.sample (Machine.boot fun _ => 0) = .ok () start ∧
      Event.Step Layout.sample ⟨start, []⟩ (.load vgaMemory) ⟨start, [⟨vgaMemory, vgaMemory⟩]⟩ ∧
      Event.Step Layout.sample ⟨start, [⟨vgaMemory, vgaMemory⟩]⟩ (.call (.unmapPage 0x00100000))
        after ∧
      NoStale Layout.sample after := by
  obtain ⟨start, returned, booted⟩ := initPaging_of_boot overrunSpares_sample fun _ => 0
  have holds := booted.identity_holds
  have vga : IdentityPage vgaMemory := identityPage_iff.mpr (by decide)
  have kernel : IdentityPage 0x00100000 := identityPage_iff.mpr (by decide)
  have loads := booted.load_run vga
  obtain ⟨t, extra, unmapped, _⟩ := booted.unmapPage_run [⟨vgaMemory, vgaMemory⟩] kernel
  have present := present_of_walk (holds.identity _ kernel)
  have zero : getPageDirectoryIndex 0x00100000 = 0 := by decide
  have serving : servingTable start.mem Layout.sample.pageDirectory 0x00100000 =
      Layout.sample.firstPageTable := by
    rw [servingTable, directoryEntry, zero, booted.first,
      getPageTableAddress_or_three Layout.sample.firstPageTable_aligned]
  have serves : mappingTable Layout.sample start 0x00100000 =
      some Layout.sample.firstPageTable := serving ▸ if_pos present
  have spared : Spared Layout.sample ⟨start, [⟨vgaMemory, vgaMemory⟩]⟩ 0x00100000 none := by
    refine ⟨holds.identity _ (pageDirectory_identity _), fun table same => ?_, ?_⟩
    · rw [serves] at same
      cases same
      exact holds.identity _ (firstPageTable_identity _)
    · rintro translation (cached | rfl | ⟨table, same, rfl⟩) ⟨_, slot⟩
      · obtain rfl := List.mem_singleton.mp cached
        revert slot
        decide
      · revert slot
        decide
      · rw [serves] at same
        cases same
        revert slot
        decide
  have unpaged : (Machine.boot fun _ => 0).paging = false := rfl
  have path : Path (fun w event after => Event.Step Layout.sample w event after) ⟨start, []⟩
      [(.load vgaMemory, ⟨start, [⟨vgaMemory, vgaMemory⟩]⟩),
        (.call (.unmapPage 0x00100000), ⟨t, [⟨vgaMemory, vgaMemory⟩] ++ extra⟩)] :=
    ⟨loads, unmapped, trivial⟩
  have each : Each (fun w event => Event.Spares Layout.sample w event) ⟨start, []⟩
      [(.load vgaMemory, ⟨start, [⟨vgaMemory, vgaMemory⟩]⟩),
        (.call (.unmapPage 0x00100000), ⟨t, [⟨vgaMemory, vgaMemory⟩] ++ extra⟩)] :=
    ⟨trivial, spared, trivial⟩
  exact ⟨start, _, returned, loads, unmapped, noStale_of_spares unpaged returned path each⟩

/-- The VGA buffer is accessed and then unmapped: its translation stays behind. -/
theorem stale_after_unmap :
    ∃ start after, initPaging Layout.sample (Machine.boot fun _ => 0) = .ok () start ∧
      Event.Step Layout.sample ⟨start, []⟩ (.load vgaMemory) ⟨start, [⟨vgaMemory, vgaMemory⟩]⟩ ∧
      Event.Step Layout.sample ⟨start, [⟨vgaMemory, vgaMemory⟩]⟩ (.call (.unmapPage vgaMemory))
        after ∧
      ⟨vgaMemory, vgaMemory⟩ ∈ after.trace ∧
      walk after.state.mem Layout.sample.pageDirectory vgaMemory = none ∧
      ¬ NoStale Layout.sample after := by
  obtain ⟨start, returned, booted⟩ := initPaging_of_boot overrunSpares_sample fun _ => 0
  have vga : IdentityPage vgaMemory := identityPage_iff.mpr (by decide)
  obtain ⟨t, extra, unmapped, gone⟩ := booted.unmapPage_run [⟨vgaMemory, vgaMemory⟩] vga
  have cached : (⟨vgaMemory, vgaMemory⟩ : Translation) ∈ [⟨vgaMemory, vgaMemory⟩] ++ extra :=
    List.mem_append_left _ (List.mem_singleton_self _)
  refine ⟨start, _, returned, booted.load_run vga, unmapped, cached, gone, fun noStale => ?_⟩
  have current := noStale _ cached
  rw [gone] at current
  cases current

end TorchOS.Paging
