import TorchOS.Paging.Boot
import TorchOS.Paging.FirstFit

/-!
# Where the linker puts the page table bitmap

`page_table_bitmap` is an array of memory like any other. `init_page_table_allocator`
clears it with the size of `page_frame_bitmap`, which is 58 times as long, and so clears
what the linker put behind it. Here the bitmap is read and stored where it lies, for any
place of the three arrays the code works on.
-/

namespace TorchOS.Paging

open Base Base.Program

/-! ## `map_page` over any memory -/

section Code

variable {σ : Type} (load : UInt32 → Program Halt σ UInt32)
  (store : UInt32 → UInt32 → Program Halt σ Unit) (allocate : Program Halt σ UInt32)

/-- The directory entry `map_page` works through. -/
def presentEntryBy (kernelPageDirectory pageDirectoryIndex : UInt32) : Program Halt σ UInt32 := do
  let pde ← load (slot kernelPageDirectory pageDirectoryIndex)
  if isPresent pde then
    pure pde
  else
    let newPageTable ← allocate
    store (slot kernelPageDirectory pageDirectoryIndex) (newPageTable ||| 3)
    load (slot kernelPageDirectory pageDirectoryIndex)

/-- `map_page` with the loads, the stores and the allocator in use. -/
def mapPageBy (kernelPageDirectory virtualAddress physicalAddress : UInt32) :
    Program Halt σ Unit := do
  haltIf (virtualAddress % pageSize ≠ 0)
    (.panic "Trying to map a virtual address that is not page aligned!")
  haltIf (physicalAddress % pageSize ≠ 0)
    (.panic "Trying to map a physical address that is not page aligned!")
  let pde ← presentEntryBy load store allocate kernelPageDirectory
    (getPageDirectoryIndex virtualAddress)
  store (slot (getPageTableAddress pde) (getPageTableIndex virtualAddress))
    (setReadWrite (setPresent physicalAddress))

/-- The loop of `identity_map_range`, from `addr` on, over the `map_page` in use. -/
def identityMapFromBy (map : UInt32 → UInt32 → Program Halt σ Unit) (endAddress : UInt32)
    (fuel : Nat) (addr : UInt32) : Program Halt σ UInt32 :=
  loop (fun addr _ => addr < endAddress)
    (fun addr => do
      map addr addr
      pure (addr + pageSize))
    .endless fuel addr

end Code

theorem mapPage_eq : mapPage = mapPageBy loadWord storeWord pageTableAllocate := rfl

theorem identityMapFrom_eq (kernelPageDirectory endAddress : UInt32) :
    identityMapFrom kernelPageDirectory endAddress =
      identityMapFromBy (mapPage kernelPageDirectory) endAddress loopBound := rfl

/-! ## The placed allocator -/

/-- Where the three arrays lie: apart from each other and outside the page table area. -/
structure Placement where
  pageDirectory : UInt32
  secondPageTable : UInt32
  pageTableBitmap : UInt32
  pageDirectory_aligned : PageAligned pageDirectory
  secondPageTable_aligned : PageAligned secondPageTable
  second_ne_directory : secondPageTable ≠ pageDirectory
  directory_apart : Disjoint (Span pageTableBitmap 128) (page pageDirectory)
  second_apart : Disjoint (Span pageTableBitmap 128) (page secondPageTable)
  bitmap_outside : Disjoint (Span pageTableBitmap 128) (Span pageTableAreaStart 0x00400000)
  directory_outside : ¬ InTableArea pageDirectory
  second_outside : ¬ InTableArea secondPageTable

/-- Memory while paging is off, and the history of `page_table_allocate`: every page
table it has returned, oldest first. -/
structure Image where
  mem : Bytes
  pageTables : List UInt32

/-- Code that runs before paging is on. -/
abbrev Placing := Program Halt Image

namespace Placement

/-- A word load. -/
def load (address : UInt32) : Placing UInt32 := read fun s => s.mem.load32 address

/-- A word store. -/
def store (address value : UInt32) : Placing Unit :=
  update fun s => { s with mem := s.mem.store32 address value }

variable (placement : Placement)

/-- The address of a word of `page_table_bitmap`. -/
def bitmapWord (i : Nat) : UInt32 := slot placement.pageTableBitmap (UInt32.ofNat i)

/-- The nested loops of `page_table_allocate`: the index of the bit they set, or -1. -/
def search : Placing Int := do
  let mut index : Int := -1
  for i in [0:pageTableBitmapSize] do
    if (← load (placement.bitmapWord i)) ≠ 0xFFFFFFFF then
      for j in [0:32] do
        if (← load (placement.bitmapWord i)) &&& Bitmap.mask j = 0 then
          index := i * 32 + j
          store (placement.bitmapWord i)
            ((← load (placement.bitmapWord i)) ||| Bitmap.mask j)
          break
      break
  return index

/-- `page_table_allocate` -/
def pageTableAllocate : Placing UInt32 := do
  let index ← placement.search
  haltIf (index = -1)
    (.panic "Trying to allocate page tables but no page tables left to allocate!")
  let table := pageTableAreaStart + pageSize * UInt32.ofInt index
  update fun s => { s with pageTables := s.pageTables ++ [table] }
  pure table

/-- `map_page` in the page directory. -/
def mapPage : UInt32 → UInt32 → Placing Unit :=
  mapPageBy load store placement.pageTableAllocate placement.pageDirectory

/-- `identity_map_range` in the page directory. -/
def identityMapRange (startAddress endAddress : UInt32) : Placing Unit := do
  let _ ← identityMapFromBy placement.mapPage endAddress loopBound startAddress
  pure ()

/-- `memset` -/
def memset (bufptr : UInt32) (value : UInt8) (size : UInt32) : Placing Unit :=
  times (fun i => update fun s =>
    { s with mem := s.mem.write (bufptr + UInt32.ofNat i) [value] }) size.toNat

/-- `init_page_table_allocator`. It clears as many bytes as `page_frame_bitmap` has. -/
def initPageTableAllocator : Placing Unit := do
  placement.identityMapRange pageTableAreaStart pageTableAreaEnd
  memset placement.pageTableBitmap 0 (4 * UInt32.ofNat pageFrameBitmapSize)
  haltIf (pageTableAreaStart % pageSize ≠ 0)
    (.panic "Page Table Allocator does not start at a page aligned address!")
  haltIf (pageTableAreaEnd % pageSize ≠ 0)
    (.panic "Page Table Allocator does not end at a page aligned address!")

/-! ## The search in memory -/

/-- The bitmap that memory holds. -/
def bitmapAt (mem : Bytes) : Bitmap pageTableBitmapSize :=
  Vector.ofFn fun i => mem.load32 (placement.bitmapWord i)

/-- The memory with one more bit of the bitmap set. -/
def withBit (mem : Bytes) (index : Nat) : Bytes :=
  mem.store32 (placement.bitmapWord (index / 32))
    (mem.load32 (placement.bitmapWord (index / 32)) ||| Bitmap.mask (index % 32))

variable {placement} {mem mem' : Bytes} {s : Image} {address : UInt32}

theorem word_bitmapAt {i : Nat} (inside : i < pageTableBitmapSize) :
    (placement.bitmapAt mem).word i = mem.load32 (placement.bitmapWord i) := by
  simp [Bitmap.word, bitmapAt, inside]

theorem bitmapWord_subset {i : Nat} (inside : i < pageTableBitmapSize) :
    Span (placement.bitmapWord i) 4 ⊆ Span placement.pageTableBitmap 128 := by
  rw [pageTableBitmapSize_eq] at inside
  apply Span.shift_subset
  have four : (4 : UInt32).toNat = 4 := rfl
  rw [UInt32.toNat_mul, UInt32.toNat_ofNat', four]
  omega

theorem bitmapAt_congr (same : ∀ address ∈ Span placement.pageTableBitmap 128,
      mem' address = mem address) : placement.bitmapAt mem' = placement.bitmapAt mem := by
  refine congrArg Vector.ofFn (funext fun i => ?_)
  exact Bytes.load32_congr fun address inside => same address (bitmapWord_subset i.isLt inside)

variable (placement) in
/-- The first clear bit of word `i`. -/
def clearBit (mem : Bytes) (i : Nat) : Option Nat :=
  (List.range 32).find? fun j => mem.load32 (placement.bitmapWord i) &&& Bitmap.mask j = 0

/-- The inner loop sets the first clear bit of its word. -/
theorem takeBit_run {i : Nat} (start : Int) :
    forIn [0:32] start (fun j index => (do
        if (← load (placement.bitmapWord i)) &&& Bitmap.mask j = 0 then
          store (placement.bitmapWord i)
            ((← load (placement.bitmapWord i)) ||| Bitmap.mask j)
          pure (.done ((i : Int) * 32 + j))
        else pure (.yield index) : Placing (ForInStep Int))) s =
      match placement.clearBit s.mem i with
      | some j => .ok ((i : Int) * 32 + j) { s with
          mem := s.mem.store32 (placement.bitmapWord i)
            (s.mem.load32 (placement.bitmapWord i) ||| Bitmap.mask j) }
      | none => .ok start s := by
  rw [Std.Legacy.Range.forIn_eq_forIn_range', clearBit, List.range_eq_range']
  refine forIn_find (fun j _ set => ?_) fun j _ clear => ?_
  · refine (bind_of_ok (read_run _ s)).trans ?_
    rw [if_neg set]
    rfl
  · refine (bind_of_ok (read_run _ s)).trans ?_
    rw [if_pos clear]
    rfl

/-- The outer loop runs the inner one at the first word that is not full. -/
theorem search_words : placement.search s =
    match (List.range pageTableBitmapSize).find? fun i =>
        (placement.bitmapAt s.mem).word i ≠ 0xFFFFFFFF with
    | some i => .ok (((placement.clearBit s.mem i).map fun j => (i : Int) * 32 + j).getD (-1))
        (((placement.clearBit s.mem i).map fun j => { s with
          mem := placement.withBit s.mem (i * 32 + j) }).getD s)
    | none => .ok (-1) s := by
  have range : List.range' [:pageTableBitmapSize].start [:pageTableBitmapSize].size
      [:pageTableBitmapSize].step = List.range pageTableBitmapSize := by
    simp [Std.Legacy.Range.size, List.range_eq_range']
  unfold search
  rw [Std.Legacy.Range.forIn_eq_forIn_range', range]
  refine (congrFun (bind_pure _) s).trans (forIn_find (fun i member full => ?_)
    fun i member notFull => ?_)
  · rw [word_bitmapAt (List.mem_range.mp member)] at full
    refine (bind_of_ok (read_run _ s)).trans ?_
    rw [if_neg full]
    rfl
  · rw [word_bitmapAt (List.mem_range.mp member)] at notFull
    refine (bind_of_ok (read_run _ s)).trans ?_
    rw [if_pos notFull]
    have bits := @takeBit_run placement s i (-1)
    cases found : placement.clearBit s.mem i with
    | none =>
        rw [found] at bits
        exact bind_of_ok bits
    | some j =>
        rw [found] at bits
        refine (bind_of_ok bits).trans ?_
        have below : j < 32 := List.mem_range.mp (List.mem_of_find?_eq_some found)
        have quotient : (i * 32 + j) / 32 = i := by omega
        have remainder : (i * 32 + j) % 32 = j := by omega
        simp only [Option.map_some, Option.getD_some, withBit, quotient, remainder]
        rfl

/-- The search sets the lowest clear bit. -/
theorem search_run : placement.search s =
    match (placement.bitmapAt s.mem).firstFit with
    | some (index, _) => .ok (index : Int) { s with mem := placement.withBit s.mem index }
    | none => .ok (-1) s := by
  rw [search_words]
  unfold Bitmap.firstFit
  cases words : (List.range pageTableBitmapSize).find? fun i =>
      (placement.bitmapAt s.mem).word i ≠ 0xFFFFFFFF with
  | none => rfl
  | some i =>
      have inside : i < pageTableBitmapSize := List.mem_range.mp (List.mem_of_find?_eq_some words)
      simp only [word_bitmapAt inside, clearBit]
      cases (List.range 32).find? fun j =>
          s.mem.load32 (placement.bitmapWord i) &&& Bitmap.mask j = 0 with
      | none => rfl
      | some j => simp

/-- `page_table_allocate` takes the page table of the lowest clear bit. -/
theorem pageTableAllocate_run {index : Nat} {rest : Bitmap pageTableBitmapSize}
    (fits : (placement.bitmapAt s.mem).firstFit = some (index, rest)) :
    placement.pageTableAllocate s =
      .ok (tablePage index) ⟨placement.withBit s.mem index, s.pageTables ++ [tablePage index]⟩ := by
  have found : placement.search s =
      .ok (index : Int) { s with mem := placement.withBit s.mem index } := by
    rw [search_run, fits]
  rw [pageTableAllocate, bind_of_ok found]
  have passed : decide ((index : Int) = -1) = false := by
    rw [decide_eq_false_iff_not]
    omega
  rw [passed, ofInt_natCast]
  rfl

/-- It panics where no bit is clear. -/
theorem pageTableAllocate_full (full : (placement.bitmapAt s.mem).firstFit = none) :
    placement.pageTableAllocate s = .error
      (.panic "Trying to allocate page tables but no page tables left to allocate!") s := by
  have found : placement.search s = .ok (-1) s := by
    rw [search_run, full]
  exact bind_of_ok found

/-- The words of the bitmap share no byte. -/
theorem bitmapWord_disjoint {i j : Nat} (less : i < j) (inside : j < pageTableBitmapSize) :
    Disjoint (Span (placement.bitmapWord i) 4) (Span (placement.bitmapWord j) 4) := by
  rw [pageTableBitmapSize_eq] at inside
  have four : (4 : UInt32).toNat = 4 := rfl
  refine Span.shift_disjoint ?_ ?_
  · rw [UInt32.toNat_mul, UInt32.toNat_mul, UInt32.toNat_ofNat', UInt32.toNat_ofNat', four]
    omega
  · rw [UInt32.toNat_mul, UInt32.toNat_ofNat', four]
    omega

/-- Storing a word of the bitmap replaces that word. -/
theorem bitmapAt_store32 {i : Nat} (inside : i < pageTableBitmapSize) (value : UInt32) :
    placement.bitmapAt (mem.store32 (placement.bitmapWord i) value) =
      (placement.bitmapAt mem).setWord i value := by
  refine Vector.ext fun k bound => ?_
  rw [Bitmap.setWord, Vector.getElem_setIfInBounds bound, bitmapAt, bitmapAt,
    Vector.getElem_ofFn bound, Vector.getElem_ofFn bound]
  by_cases same : i = k
  · subst same
    rw [if_pos rfl, Bytes.load32_store32]
  · rw [if_neg same]
    rcases Nat.lt_or_gt_of_ne same with below | above
    · exact Bytes.load32_store32_of_disjoint (bitmapWord_disjoint below bound).symm
    · exact Bytes.load32_store32_of_disjoint (bitmapWord_disjoint above inside)

/-- Memory then holds the bitmap that `firstFit` leaves. -/
theorem bitmapAt_withBit {index : Nat} {rest : Bitmap pageTableBitmapSize}
    (fits : (placement.bitmapAt mem).firstFit = some (index, rest)) :
    placement.bitmapAt (placement.withBit mem index) = rest := by
  unfold Bitmap.firstFit at fits
  split at fits
  · cases fits
  · rename_i i words
    split at fits
    · cases fits
    · rename_i j bits
      cases fits
      have inside : i < pageTableBitmapSize := List.mem_range.mp (List.mem_of_find?_eq_some words)
      have below : j < 32 := List.mem_range.mp (List.mem_of_find?_eq_some bits)
      have quotient : (i * 32 + j) / 32 = i := by omega
      have remainder : (i * 32 + j) % 32 = j := by omega
      rw [withBit, quotient, remainder, bitmapAt_store32 inside, word_bitmapAt inside]

/-! ## One page -/

/-- Where the directory entry is present, its table gets the entry of the page. -/
theorem mapPage_present (aligned : PageAligned address)
    (present : isPresent (directoryEntry s.mem placement.pageDirectory address) = true) :
    placement.mapPage address address s = .ok () { s with
      mem := withEntry s.mem (servingTable s.mem placement.pageDirectory address) address
        (address ||| 3) } := by
  have found : presentEntryBy load store placement.pageTableAllocate placement.pageDirectory
      (getPageDirectoryIndex address) s =
        .ok (directoryEntry s.mem placement.pageDirectory address) s := by
    refine (bind_of_ok (read_run _ s)).trans ?_
    unfold directoryEntry entryAt at present
    rw [if_pos present]
    rfl
  unfold mapPage mapPageBy
  rw [check_of_aligned aligned]
  refine (bind_of_ok (haltIf_false _ s)).trans ((bind_of_ok (haltIf_false _ s)).trans ?_)
  refine (bind_of_ok found).trans ?_
  rw [setReadWrite_setPresent]
  rfl

/-- Where it is absent, it gets the page table of the lowest clear bit. -/
theorem mapPage_absent (aligned : PageAligned address)
    (absent : isPresent (directoryEntry s.mem placement.pageDirectory address) = false)
    {index : Nat} {rest : Bitmap pageTableBitmapSize}
    (fits : (placement.bitmapAt s.mem).firstFit = some (index, rest)) :
    placement.mapPage address address s = .ok ()
      ⟨withEntry (withTable (placement.withBit s.mem index) placement.pageDirectory address
        (tablePage index)) (tablePage index) address (address ||| 3),
        s.pageTables ++ [tablePage index]⟩ := by
  have inside := (Bitmap.firstFit_some fits).1
  rw [pageTableBitmapSize_eq] at inside
  have found : presentEntryBy load store placement.pageTableAllocate placement.pageDirectory
      (getPageDirectoryIndex address) s = .ok (tablePage index ||| 3)
        ⟨withTable (placement.withBit s.mem index) placement.pageDirectory address
          (tablePage index), s.pageTables ++ [tablePage index]⟩ := by
    refine (bind_of_ok (read_run _ s)).trans ?_
    unfold directoryEntry entryAt at absent
    rw [if_neg (by simp [absent])]
    refine (bind_of_ok (pageTableAllocate_run fits)).trans ?_
    exact (bind_of_ok (update_run _ _)).trans (by simp [load, withTable])
  unfold mapPage mapPageBy
  rw [check_of_aligned aligned]
  refine (bind_of_ok (haltIf_false _ s)).trans ((bind_of_ok (haltIf_false _ s)).trans ?_)
  refine (bind_of_ok found).trans ?_
  rw [setReadWrite_setPresent, getPageTableAddress_or_three (tablePage_aligned inside)]
  rfl

/-- With no page table left, it panics before it stores anything. -/
theorem mapPage_full (aligned : PageAligned address)
    (absent : isPresent (directoryEntry s.mem placement.pageDirectory address) = false)
    (full : (placement.bitmapAt s.mem).firstFit = none) :
    placement.mapPage address address s = .error
      (.panic "Trying to allocate page tables but no page tables left to allocate!") s := by
  have stops : presentEntryBy load store placement.pageTableAllocate placement.pageDirectory
      (getPageDirectoryIndex address) s = .error
        (.panic "Trying to allocate page tables but no page tables left to allocate!") s := by
    refine (bind_of_ok (read_run _ s)).trans ?_
    unfold directoryEntry entryAt at absent
    rw [if_neg (by simp [absent])]
    exact bind_of_error (pageTableAllocate_full full)
  unfold mapPage mapPageBy
  rw [check_of_aligned aligned]
  refine (bind_of_ok (haltIf_false _ s)).trans ((bind_of_ok (haltIf_false _ s)).trans ?_)
  exact bind_of_error stops

/-! ## The pages of the range -/

/-- The page with a number. -/
def pageAt (number : Nat) : UInt32 := UInt32.ofNat (4096 * number)

section Numbers

variable {number : Nat}

theorem toNat_pageAt (low : number < 0x00100000) : (pageAt number).toNat = 4096 * number := by
  rw [pageAt, UInt32.toNat_ofNat']
  omega

theorem pageAt_aligned (low : number < 0x00100000) : PageAligned (pageAt number) := by
  rw [PageAligned, toNat_pageAt low]
  omega

theorem pageAt_succ : pageAt number + pageSize = pageAt (number + 1) := by
  rw [pageAt, pageAt, Nat.mul_add, UInt32.ofNat_add]
  rfl

theorem toNat_directoryIndex_pageAt (low : number < 0x00100000) :
    (getPageDirectoryIndex (pageAt number)).toNat = number / 1024 := by
  rw [getPageDirectoryIndex, Word.toNat_shiftRight_22, toNat_pageAt low]
  omega

theorem toNat_tableIndex_pageAt (low : number < 0x00100000) :
    (getPageTableIndex (pageAt number)).toNat = number % 1024 := by
  rw [getPageTableIndex, Word.toNat_shiftRight_12_and, toNat_pageAt low]
  omega

end Numbers

/-- Rounds that carry an invariant from page to page carry it over the whole range. -/
theorem identityMap_advances {Holds : Nat → Image → Prop} {low : Nat} (count fuel : Nat)
    (inside : low + count ≤ 0x900)
    (maps : ∀ number s, low ≤ number → number < low + count → Holds number s →
      ∃ after, placement.mapPage (pageAt number) (pageAt number) s = .ok () after ∧
        Holds (number + 1) after) (start : Holds low s) :
    ∃ after, Holds (low + count) after ∧
      identityMapFromBy placement.mapPage pageTableAreaEnd (fuel + count) (pageAt low) s =
        identityMapFromBy placement.mapPage pageTableAreaEnd fuel (pageAt (low + count)) after := by
  induction count generalizing low s with
  | zero => exact ⟨s, start, rfl⟩
  | succ count ih =>
      obtain ⟨middle, round, next⟩ := maps low s (Nat.le_refl _) (by omega) start
      obtain ⟨after, holds, rest⟩ := @ih middle (low + 1) (by omega)
        (fun number s lower upper => maps number s (by omega) (by omega)) next
      have there : low + 1 + count = low + (count + 1) := by omega
      rw [there] at holds rest
      have below : pageAt low < pageTableAreaEnd := by
        rw [UInt32.lt_iff_toNat_lt, toNat_pageAt (by omega), toNat_pageTableAreaEnd]
        omega
      have step : (placement.mapPage (pageAt low) (pageAt low) >>= fun _ =>
          pure (pageAt low + pageSize)) s = .ok (pageAt (low + 1)) middle := by
        rw [bind_of_ok round, pageAt_succ]
        rfl
      refine ⟨after, holds, Eq.trans ?_ rest⟩
      unfold identityMapFromBy
      refine (loop_again ?_).trans (bind_of_ok step)
      exact decide_eq_true below

/-! ## The pages below 8 MiB -/

variable (placement) in
/-- The three arrays. -/
def objects : Set UInt32 :=
  Span placement.pageTableBitmap 128 ∪ page placement.pageDirectory ∪
    page placement.secondPageTable

variable (placement) in
/-- Entry 1 of the page directory refers to `second_page_table`. -/
def RefersToSecond (mem : Bytes) : Prop :=
  isPresent (entryAt mem placement.pageDirectory 1) = true ∧
    getPageTableAddress (entryAt mem placement.pageDirectory 1) = placement.secondPageTable

variable (placement mem) in
/-- While the pages below 8 MiB are mapped, only `second_page_table` changes. -/
structure LowerMapped (s : Image) : Prop where
  kept : ∀ address ∉ page placement.secondPageTable, s.mem address = mem address
  allocated : s.pageTables = []

/-- The page directory lies apart from any other table. -/
theorem entry_subset_directory {index : UInt32} (inside : index.toNat < 1024) :
    Span (slot placement.pageDirectory index) 4 ⊆ page placement.pageDirectory :=
  slot_subset_page placement.pageDirectory_aligned inside

theorem LowerMapped.entry (lower : LowerMapped placement mem s) {index : UInt32}
    (inside : index.toNat < 1024) :
    entryAt s.mem placement.pageDirectory index = entryAt mem placement.pageDirectory index := by
  refine Bytes.load32_congr fun address member => lower.kept address fun inSecond => ?_
  exact Set.disjoint_left.mp (page_disjoint placement.secondPageTable_aligned
    placement.pageDirectory_aligned placement.second_ne_directory) inSecond
    (entry_subset_directory inside member)

theorem LowerMapped.bitmap (lower : LowerMapped placement mem s) :
    placement.bitmapAt s.mem = placement.bitmapAt mem :=
  bitmapAt_congr fun _ inBitmap =>
    lower.kept _ (Set.disjoint_left.mp placement.second_apart inBitmap)

theorem directoryIndex_pageAt {number : Nat} {index : UInt32} (low : number < 0x00100000)
    (same : index.toNat = number / 1024) : getPageDirectoryIndex (pageAt number) = index := by
  rw [← UInt32.toNat_inj, toNat_directoryIndex_pageAt low, same]

/-- A page below 8 MiB gets its entry in `second_page_table`. -/
theorem LowerMapped.maps (refers : placement.RefersToSecond mem)
    (lower : LowerMapped placement mem s) {number : Nat} (above : 0x400 ≤ number)
    (below : number < 0x800) :
    ∃ after, placement.mapPage (pageAt number) (pageAt number) s = .ok () after ∧
      LowerMapped placement mem after := by
  have index : getPageDirectoryIndex (pageAt number) = 1 :=
    directoryIndex_pageAt (by omega) (by change 1 = _; omega)
  have entry : directoryEntry s.mem placement.pageDirectory (pageAt number) =
      entryAt mem placement.pageDirectory 1 := by
    rw [directoryEntry, index, lower.entry (by decide)]
  have table : servingTable s.mem placement.pageDirectory (pageAt number) =
      placement.secondPageTable := by
    rw [servingTable, entry, refers.2]
  have run := mapPage_present (pageAt_aligned (by omega : number < 0x00100000))
    (by rw [entry]; exact refers.1)
  refine ⟨_, run, fun address outside => ?_, lower.allocated⟩
  refine Eq.trans (Bytes.store32_of_notMem fun member => outside ?_) (lower.kept address outside)
  rw [table] at member
  exact slot_subset_page placement.secondPageTable_aligned (getPageTableIndex_lt _) member

/-- The pages below 8 MiB are mapped first. -/
theorem lowerPages (refers : placement.RefersToSecond mem) (fuel : Nat) :
    ∃ after, LowerMapped placement mem after ∧
      identityMapFromBy placement.mapPage pageTableAreaEnd (fuel + 0x300) pageTableAreaStart
        ⟨mem, []⟩ =
        identityMapFromBy placement.mapPage pageTableAreaEnd fuel (pageAt 0x800) after := by
  have rounds : ∀ number s, 0x500 ≤ number → number < 0x500 + 0x300 →
      LowerMapped placement mem s →
      ∃ after, placement.mapPage (pageAt number) (pageAt number) s = .ok () after ∧
        LowerMapped placement mem after :=
    fun number s above below lower => lower.maps refers (by omega) below
  have start : LowerMapped placement mem ⟨mem, []⟩ := ⟨fun _ _ => rfl, rfl⟩
  exact identityMap_advances 0x300 fuel (by decide) rounds start

/-! ## The pages from 8 MiB on -/

/-- A store to another table leaves entry 2 as it is. -/
theorem entry_two_apart {table index : UInt32} (aligned : PageAligned table)
    (other : table ≠ placement.pageDirectory) (inside : index.toNat < 1024) {value : UInt32} :
    entryAt (mem.store32 (slot table index) value) placement.pageDirectory 2 =
      entryAt mem placement.pageDirectory 2 :=
  Bytes.load32_store32_of_disjoint
    (slot_disjoint_of_page placement.pageDirectory_aligned aligned other.symm (by decide) inside)

variable (placement mem) in
/-- Once entry 2 refers to a new page table, only that table changes further. -/
structure UpperAllocated (index : Nat) (s : Image) : Prop where
  entry : entryAt s.mem placement.pageDirectory 2 = tablePage index ||| 3
  allocated : s.pageTables = [tablePage index]
  kept : ∀ address ∉ placement.objects, address ∉ page (tablePage index) →
    s.mem address = mem address

/-- The first page of entry 2 takes a page table. -/
theorem LowerMapped.allocates (lower : LowerMapped placement mem s)
    (absent : isPresent (entryAt mem placement.pageDirectory 2) = false) {index : Nat}
    {rest : Bitmap pageTableBitmapSize}
    (fits : (placement.bitmapAt mem).firstFit = some (index, rest)) :
    ∃ after, placement.mapPage (pageAt 0x800) (pageAt 0x800) s = .ok () after ∧
      UpperAllocated placement mem index after := by
  have inside := (Bitmap.firstFit_some fits).1
  rw [pageTableBitmapSize_eq] at inside
  have two : getPageDirectoryIndex (pageAt 0x800) = 2 := rfl
  have zero : getPageTableIndex (pageAt 0x800) = 0 := rfl
  have aligned := tablePage_aligned inside
  have other : tablePage index ≠ placement.pageDirectory := fun same =>
    placement.directory_outside (same ▸ tablePage_inArea inside)
  have run := mapPage_absent (pageAt_aligned (by decide : 0x800 < 0x00100000))
    (by rw [directoryEntry, two, lower.entry (by decide)]; exact absent)
    (by rw [lower.bitmap]; exact fits)
  refine ⟨_, run, ?_, ?_, fun address outside notTable => ?_⟩
  · rw [withEntry, zero, entry_two_apart aligned other (by decide), withTable, two]
    exact Bytes.load32_store32 _
  · rw [lower.allocated]
    rfl
  · have notEntry : address ∉ Span (slot (tablePage index) (getPageTableIndex (pageAt 0x800))) 4 :=
      fun member => notTable (slot_subset_page aligned (getPageTableIndex_lt _) member)
    have notDirectory : address ∉
        Span (slot placement.pageDirectory (getPageDirectoryIndex (pageAt 0x800))) 4 :=
      fun member =>
        outside (.inl (.inr (entry_subset_directory (getPageDirectoryIndex_lt _) member)))
    have notBit : address ∉ Span (placement.bitmapWord (index / 32)) 4 := fun member =>
      outside (.inl (.inl (bitmapWord_subset (by rw [pageTableBitmapSize_eq]; omega) member)))
    refine (Bytes.store32_of_notMem notEntry).trans ((Bytes.store32_of_notMem notDirectory).trans
      ((Bytes.store32_of_notMem notBit).trans ?_))
    exact lower.kept address fun member => outside (.inr member)

/-- The later pages of entry 2 get their entries in it. -/
theorem UpperAllocated.maps {index : Nat} (inside : index < 1024)
    (upper : UpperAllocated placement mem index s) {number : Nat} (above : 0x800 ≤ number)
    (below : number < 0x900) :
    ∃ after, placement.mapPage (pageAt number) (pageAt number) s = .ok () after ∧
      UpperAllocated placement mem index after := by
  have two : getPageDirectoryIndex (pageAt number) = 2 :=
    directoryIndex_pageAt (by omega) (by change 2 = _; omega)
  have entry : directoryEntry s.mem placement.pageDirectory (pageAt number) =
      tablePage index ||| 3 := by
    rw [directoryEntry, two, upper.entry]
  have aligned := tablePage_aligned inside
  have other : tablePage index ≠ placement.pageDirectory := fun same =>
    placement.directory_outside (same ▸ tablePage_inArea inside)
  have table : servingTable s.mem placement.pageDirectory (pageAt number) = tablePage index := by
    rw [servingTable, entry, getPageTableAddress_or_three aligned]
  have run := mapPage_present (pageAt_aligned (by omega : number < 0x00100000))
    (by rw [entry]; exact isPresent_or_three aligned)
  rw [table] at run
  refine ⟨_, run, ?_, upper.allocated, fun address outside notTable => ?_⟩
  · rw [withEntry, entry_two_apart aligned other (getPageTableIndex_lt _)]
    exact upper.entry
  · refine Eq.trans (Bytes.store32_of_notMem fun member => notTable ?_)
      (upper.kept address outside notTable)
    exact slot_subset_page aligned (getPageTableIndex_lt _) member

/-! ## A second entry that is present

The 256 pages then go into the table it refers to. Where that is the page directory
itself, the third store replaces entry 2, and the pages after it go into the table at
their own third page. -/

variable (placement) in
/-- The table that page `i` from 8 MiB on goes into. -/
def upperTable (table : UInt32) (i : Nat) : UInt32 :=
  if table = placement.pageDirectory ∧ 3 ≤ i then pageAt 0x802 else table

variable (placement) in
/-- The entry of that table. -/
def upperSlot (table : UInt32) (i : Nat) : UInt32 :=
  slot (placement.upperTable table i) (UInt32.ofNat i)

/-- The entry that maps page `i` to itself. -/
def upperEntry (i : Nat) : UInt32 := pageAt (0x800 + i) ||| 3

variable (placement) in
/-- The memory with the entries of the first pages stored. -/
def upperMem (mem : Bytes) (table : UInt32) : Nat → Bytes
  | 0 => mem
  | count + 1 =>
      (upperMem mem table count).store32 (placement.upperSlot table count) (upperEntry count)

section Upper

variable {table : UInt32}

theorem upperTable_aligned (aligned : PageAligned table) (i : Nat) :
    PageAligned (placement.upperTable table i) := by
  unfold upperTable
  split
  · exact pageAt_aligned (by decide)
  · exact aligned

/-- The entries of different pages share no byte. -/
theorem upperSlot_disjoint (aligned : PageAligned table) {i j : Nat} (less : i < j) (low : j < 256) :
    Disjoint (Span (placement.upperSlot table i) 4) (Span (placement.upperSlot table j) 4) := by
  have iAt : (UInt32.ofNat i).toNat = i := UInt32.toNat_ofNat_of_lt' (by
    unfold UInt32.size
    omega)
  have jAt : (UInt32.ofNat j).toNat = j := UInt32.toNat_ofNat_of_lt' (by
    unfold UInt32.size
    omega)
  by_cases same : placement.upperTable table i = placement.upperTable table j
  · rw [upperSlot, upperSlot, same]
    refine slot_disjoint (upperTable_aligned aligned j) (by omega) (by omega) fun equal => ?_
    rw [← UInt32.toNat_inj] at equal
    omega
  · exact slot_disjoint_of_page (upperTable_aligned aligned i) (upperTable_aligned aligned j) same
      (by omega) (by omega)

/-- The entries stored change nothing at an address exactly when each alone changes
nothing there. -/
theorem upperMem_eq_iff (aligned : PageAligned table) {count : Nat} (low : count ≤ 256) :
    placement.upperMem mem table count address = mem address ↔
      ∀ i < count, mem.store32 (placement.upperSlot table i) (upperEntry i) address =
        mem address := by
  induction count with
  | zero => exact ⟨fun _ i below => absurd below (Nat.not_lt_zero i), fun _ => rfl⟩
  | succ count ih =>
      rw [Nat.forall_lt_succ_right, upperMem]
      by_cases inside : address ∈ Span (placement.upperSlot table count) 4
      · have stored : (placement.upperMem mem table count).store32
            (placement.upperSlot table count) (upperEntry count) address =
            mem.store32 (placement.upperSlot table count) (upperEntry count) address :=
          Bytes.store32_of_mem inside
        rw [stored]
        refine ⟨fun same => ⟨fun i below => ?_, same⟩, And.right⟩
        exact Bytes.store32_of_notMem fun member =>
          Set.disjoint_left.mp (upperSlot_disjoint aligned below (by omega)) member inside
      · rw [Bytes.store32_of_notMem inside, Bytes.store32_of_notMem inside, ih (by omega)]
        simp

variable (placement mem table) in
/-- While the pages of a present entry 2 are mapped, they go into its table. -/
structure UpperMapped (count : Nat) (s : Image) : Prop where
  present : isPresent (entryAt s.mem placement.pageDirectory 2) = true
  refers : getPageTableAddress (entryAt s.mem placement.pageDirectory 2) =
    placement.upperTable table count
  allocated : s.pageTables = []
  kept : ∀ address ∉ placement.objects,
    s.mem address = placement.upperMem mem table count address

/-- The entry that page `count` stores keeps entry 2 in order. -/
theorem UpperMapped.entry_two {count : Nat} (low : count < 256) (aligned : PageAligned table)
    (upper : UpperMapped placement mem table count s) :
    isPresent (entryAt (s.mem.store32 (placement.upperSlot table count) (upperEntry count))
        placement.pageDirectory 2) = true ∧
      getPageTableAddress (entryAt (s.mem.store32 (placement.upperSlot table count)
        (upperEntry count)) placement.pageDirectory 2) =
          placement.upperTable table (count + 1) := by
  have position : (UInt32.ofNat count).toNat = count := UInt32.toNat_ofNat_of_lt' (by
    unfold UInt32.size
    omega)
  by_cases other : placement.upperTable table count = placement.pageDirectory
  · -- Then entry 2 refers to the directory, and the third page replaces it.
    have own : table = placement.pageDirectory ∧ ¬ 3 ≤ count := by
      unfold upperTable at other
      split at other
      next _ => exact absurd (other ▸ inTableArea_iff.mpr (by decide)) placement.directory_outside
      next early => exact ⟨other, fun later => early ⟨other, later⟩⟩
    rw [upperSlot, other, entryAt_store32 placement.pageDirectory_aligned (by omega) (by decide)]
    by_cases third : count = 2
    · subst third
      have entry := pageAt_aligned (by decide : 0x802 < 0x00100000)
      have same : (2 : UInt32) = UInt32.ofNat 2 := rfl
      rw [if_pos same, upperTable, if_pos ⟨own.1, by decide⟩]
      exact ⟨isPresent_or_three entry, getPageTableAddress_or_three entry⟩
    · have apart : (2 : UInt32) ≠ UInt32.ofNat count := by
        rw [ne_eq, ← UInt32.toNat_inj, position]
        exact fun same => third same.symm
      rw [if_neg apart]
      refine ⟨upper.present, upper.refers.trans ?_⟩
      rw [upperTable, upperTable, if_neg (by omega), if_neg (by omega)]
  · rw [upperSlot, entry_two_apart (upperTable_aligned aligned count) other (by omega)]
    refine ⟨upper.present, upper.refers.trans ?_⟩
    unfold upperTable at other ⊢
    split at other
    next later => rw [if_pos later, if_pos ⟨later.1, by omega⟩]
    next _ => rw [if_neg (fun later => other later.1), if_neg (fun later => other later.1)]

/-- One more page of a present entry 2. -/
theorem UpperMapped.maps {count : Nat} (low : count < 256) (aligned : PageAligned table)
    (upper : UpperMapped placement mem table count s) :
    ∃ after, placement.mapPage (pageAt (0x800 + count)) (pageAt (0x800 + count)) s = .ok () after ∧
      UpperMapped placement mem table (count + 1) after := by
  have two : getPageDirectoryIndex (pageAt (0x800 + count)) = 2 :=
    directoryIndex_pageAt (by omega) (by change 2 = _; omega)
  have place : getPageTableIndex (pageAt (0x800 + count)) = UInt32.ofNat count := by
    rw [← UInt32.toNat_inj, toNat_tableIndex_pageAt (by omega), UInt32.toNat_ofNat']
    omega
  have served : servingTable s.mem placement.pageDirectory (pageAt (0x800 + count)) =
      placement.upperTable table count := by
    rw [servingTable, directoryEntry, two, upper.refers]
  have run := mapPage_present (pageAt_aligned (by omega : 0x800 + count < 0x00100000))
    (by rw [directoryEntry, two]; exact upper.present)
  rw [served, withEntry, place] at run
  obtain ⟨present, refers⟩ := upper.entry_two low aligned
  refine ⟨_, run, present, refers, upper.allocated, fun address outside => ?_⟩
  change (s.mem.store32 (placement.upperSlot table count) (upperEntry count)) address = _
  rw [upperMem]
  by_cases inside : address ∈ Span (placement.upperSlot table count) 4
  · exact Bytes.store32_of_mem inside
  · rw [Bytes.store32_of_notMem inside, Bytes.store32_of_notMem inside]
    exact upper.kept address outside

end Upper

/-! ## The whole range -/

/-- Where the loop returns, so does `identity_map_range`. -/
theorem identityMapRange_of_maps {start after : Image} {addr : UInt32} {fuel : Nat}
    (enough : loopBound = fuel + 0x300)
    (lower : identityMapFromBy placement.mapPage pageTableAreaEnd (fuel + 0x300)
      pageTableAreaStart start =
        identityMapFromBy placement.mapPage pageTableAreaEnd fuel (pageAt 0x800) s)
    (upper : identityMapFromBy placement.mapPage pageTableAreaEnd fuel (pageAt 0x800) s =
      .ok addr after) :
    placement.identityMapRange pageTableAreaStart pageTableAreaEnd start = .ok () after := by
  unfold identityMapRange
  rw [enough]
  exact bind_of_ok (lower.trans upper)

/-- The loop ends at the end of the page table area. -/
theorem maps_done (fuel : Nat) (s : Image) :
    identityMapFromBy placement.mapPage pageTableAreaEnd (fuel + 1) (pageAt 0x900) s =
      .ok (pageAt 0x900) s := by
  unfold identityMapFromBy
  exact loop_done rfl

theorem loopBound_split : ∃ fuel, loopBound = fuel + 1 + 0x100 + 0x300 :=
  ⟨loopBound - 0x401, by
    unfold loopBound
    omega⟩

/-- A present entry 2 takes the pages from 8 MiB on. -/
theorem identityMapRange_present (refers : placement.RefersToSecond mem)
    (present : isPresent (entryAt mem placement.pageDirectory 2) = true) :
    ∃ after, placement.identityMapRange pageTableAreaStart pageTableAreaEnd ⟨mem, []⟩ =
        .ok () after ∧
      UpperMapped placement mem (getPageTableAddress (entryAt mem placement.pageDirectory 2))
        256 after := by
  obtain ⟨fuel, enough⟩ := loopBound_split
  obtain ⟨middle, lower, lowerRun⟩ := lowerPages refers (fuel + 1 + 0x100)
  have aligned := getPageTableAddress_aligned (entryAt mem placement.pageDirectory 2)
  have entry := lower.entry (by decide : (2 : UInt32).toNat < 1024)
  have start : UpperMapped placement mem
      (getPageTableAddress (entryAt mem placement.pageDirectory 2)) (0x800 - 0x800) middle := by
    refine ⟨by rw [entry]; exact present, ?_, lower.allocated, fun address outside =>
      lower.kept address fun member => outside (.inr member)⟩
    rw [entry, upperTable, if_neg fun later => absurd later.2 (by decide)]
  have rounds : ∀ number s, 0x800 ≤ number → number < 0x800 + 0x100 →
      UpperMapped placement mem (getPageTableAddress (entryAt mem placement.pageDirectory 2))
        (number - 0x800) s →
      ∃ after, placement.mapPage (pageAt number) (pageAt number) s = .ok () after ∧
        UpperMapped placement mem (getPageTableAddress (entryAt mem placement.pageDirectory 2))
          (number + 1 - 0x800) after := by
    intro number s above below upper
    obtain ⟨count, rfl⟩ := Nat.exists_eq_add_of_le above
    rw [Nat.add_sub_cancel_left] at upper
    rw [Nat.add_assoc, Nat.add_sub_cancel_left]
    exact upper.maps (by omega) aligned
  obtain ⟨after, upper, upperRun⟩ := identityMap_advances 0x100 (fuel + 1) (by decide) rounds start
  exact ⟨after, identityMapRange_of_maps enough lowerRun (upperRun.trans (maps_done fuel after)),
    upper⟩

/-- An absent entry 2 takes a new page table for them. -/
theorem identityMapRange_absent (refers : placement.RefersToSecond mem)
    (absent : isPresent (entryAt mem placement.pageDirectory 2) = false) {index : Nat}
    {rest : Bitmap pageTableBitmapSize}
    (fits : (placement.bitmapAt mem).firstFit = some (index, rest)) :
    ∃ after, placement.identityMapRange pageTableAreaStart pageTableAreaEnd ⟨mem, []⟩ =
        .ok () after ∧ UpperAllocated placement mem index after := by
  obtain ⟨fuel, enough⟩ := loopBound_split
  obtain ⟨middle, lower, lowerRun⟩ := lowerPages refers (fuel + 1 + 0x100)
  have inside := (Bitmap.firstFit_some fits).1
  rw [pageTableBitmapSize_eq] at inside
  have rounds : ∀ number s, 0x800 ≤ number → number < 0x800 + 0x100 →
      (number = 0x800 ∧ LowerMapped placement mem s ∨
        0x800 < number ∧ UpperAllocated placement mem index s) →
      ∃ after, placement.mapPage (pageAt number) (pageAt number) s = .ok () after ∧
        (number + 1 = 0x800 ∧ LowerMapped placement mem after ∨
          0x800 < number + 1 ∧ UpperAllocated placement mem index after) := by
    rintro number s above below (⟨rfl, lower⟩ | ⟨_, upper⟩)
    · obtain ⟨after, run, upper⟩ := lower.allocates absent fits
      exact ⟨after, run, .inr ⟨by omega, upper⟩⟩
    · obtain ⟨after, run, next⟩ := upper.maps inside above below
      exact ⟨after, run, .inr ⟨by omega, next⟩⟩
  obtain ⟨after, ⟨first, _⟩ | ⟨_, upper⟩, upperRun⟩ :=
    identityMap_advances 0x100 (fuel + 1) (by decide) rounds (.inl ⟨rfl, lower⟩)
  · exact absurd first (by decide)
  · exact ⟨after, identityMapRange_of_maps enough lowerRun
      (upperRun.trans (maps_done fuel after)), upper⟩

/-- With no page table left, it panics at the first of them. -/
theorem identityMapRange_full (refers : placement.RefersToSecond mem)
    (absent : isPresent (entryAt mem placement.pageDirectory 2) = false)
    (full : (placement.bitmapAt mem).firstFit = none) :
    ∃ reason after, placement.identityMapRange pageTableAreaStart pageTableAreaEnd ⟨mem, []⟩ =
        .error reason after ∧ LowerMapped placement mem after := by
  obtain ⟨fuel, enough⟩ := loopBound_split
  obtain ⟨after, lower, lowerRun⟩ := lowerPages refers (fuel + 1 + 0x100)
  have halted := mapPage_full (pageAt_aligned (by decide : 0x800 < 0x00100000))
    (by rw [directoryEntry, (rfl : getPageDirectoryIndex (pageAt 0x800) = 2),
      lower.entry (by decide)]; exact absent)
    (by rw [lower.bitmap]; exact full)
  refine ⟨.panic "Trying to allocate page tables but no page tables left to allocate!", after, ?_,
    lower⟩
  unfold identityMapRange
  rw [enough]
  refine bind_of_error (lowerRun.trans ?_)
  unfold identityMapFromBy
  exact (loop_again rfl).trans (bind_of_error (bind_of_error halted))

/-! ## The memory afterwards -/

variable (placement) in
/-- The bytes that `init_page_table_allocator` clears. -/
def cleared : Set UInt32 := Span placement.pageTableBitmap 7392

instance : DecidablePred (· ∈ placement.cleared) :=
  inferInstanceAs (DecidablePred (· ∈ Span placement.pageTableBitmap 7392))

theorem memset_run (bufptr : UInt32) (value : UInt8) (size : UInt32) :
    memset bufptr value size s =
      .ok () { s with mem := s.mem.write bufptr (List.replicate size.toNat value) } := by
  have wide := size.toNat_lt
  unfold memset
  generalize size.toNat = count at wide
  induction count with
  | zero => simp [times]
  | succ count ih =>
      rw [times, bind_of_ok (ih (by omega)), update_run, Bytes.write_replicate_succ (by omega)]

/-- After the range is mapped, the bytes of `cleared` are zero and no other changes. -/
theorem initPageTableAllocator_of_range {start middle : Image}
    (maps : placement.identityMapRange pageTableAreaStart pageTableAreaEnd start =
      .ok () middle) :
    ∃ after, placement.initPageTableAllocator start = .ok () after ∧
      after.pageTables = middle.pageTables ∧
      ∀ address,
        after.mem address = if address ∈ placement.cleared then 0 else middle.mem address := by
  have size : (4 * UInt32.ofNat pageFrameBitmapSize).toNat = 7392 := by
    rw [pageFrameBitmapSize_eq]
    rfl
  have clears := @memset_run middle placement.pageTableBitmap 0
    (4 * UInt32.ofNat pageFrameBitmapSize)
  rw [size] at clears
  exact ⟨_, (bind_of_ok maps).trans (bind_of_ok clears), rfl, fun _ => Bytes.write_replicate⟩

/-! ## What it touches -/

variable (placement mem) in
/-- `init_page_table_allocator` changes no byte outside the three arrays and the page
tables it allocates. -/
def TouchesNothingElse : Prop :=
  ∀ address ∉ placement.objects,
    (∀ table ∈ (final (placement.initPageTableAllocator ⟨mem, []⟩)).pageTables,
      address ∉ page table) →
        (final (placement.initPageTableAllocator ⟨mem, []⟩)).mem address = mem address

variable (placement mem) in
/-- The cleared bytes that do not belong to `own` are zero already. -/
def ZeroBehind (own : Set UInt32) : Prop :=
  ∀ address ∈ placement.cleared, address ∉ own → mem address = 0

variable (placement mem) in
/-- The entries that the pages from 8 MiB on get in `table` are there already, as far as
they lie outside the arrays and the cleared bytes. -/
def UpperInPlace (table : UInt32) : Prop :=
  ∀ address ∉ placement.objects, address ∉ placement.cleared → ∀ i < 256,
    mem.store32 (placement.upperSlot table i) (upperEntry i) address = mem address

/-- With a present entry 2, the entries of its table count too. -/
theorem touches_present (refers : placement.RefersToSecond mem)
    (present : isPresent (entryAt mem placement.pageDirectory 2) = true) :
    TouchesNothingElse placement mem ↔ ZeroBehind placement mem placement.objects ∧
      UpperInPlace placement mem
        (getPageTableAddress (entryAt mem placement.pageDirectory 2)) := by
  obtain ⟨middle, maps, upper⟩ := identityMapRange_present refers present
  obtain ⟨after, run, tables, memory⟩ := initPageTableAllocator_of_range maps
  have aligned := getPageTableAddress_aligned (entryAt mem placement.pageDirectory 2)
  rw [upper.allocated] at tables
  unfold TouchesNothingElse
  rw [run, final_ok, tables]
  constructor
  · intro kept
    refine ⟨fun address inside outside => ?_, fun address outside notCleared => ?_⟩
    · have same := kept address outside (by simp)
      rw [memory, if_pos inside] at same
      exact same.symm
    · have same := kept address outside (by simp)
      rw [memory, if_neg notCleared, upper.kept address outside] at same
      exact (upperMem_eq_iff aligned (Nat.le_refl _)).mp same
  · rintro ⟨zero, inPlace⟩ address outside -
    rw [memory]
    by_cases inside : address ∈ placement.cleared
    · rw [if_pos inside, zero address inside outside]
    · rw [if_neg inside, upper.kept address outside]
      exact (upperMem_eq_iff aligned (Nat.le_refl _)).mpr (inPlace address outside inside)

/-- With an absent entry 2, only the cleared bytes count. -/
theorem touches_absent (refers : placement.RefersToSecond mem)
    (absent : isPresent (entryAt mem placement.pageDirectory 2) = false) {index : Nat}
    {rest : Bitmap pageTableBitmapSize}
    (fits : (placement.bitmapAt mem).firstFit = some (index, rest)) :
    TouchesNothingElse placement mem ↔
      ZeroBehind placement mem (placement.objects ∪ page (tablePage index)) := by
  obtain ⟨middle, maps, upper⟩ := identityMapRange_absent refers absent fits
  obtain ⟨after, run, tables, memory⟩ := initPageTableAllocator_of_range maps
  rw [upper.allocated] at tables
  unfold TouchesNothingElse
  rw [run, final_ok, tables]
  constructor
  · intro kept address inside outside
    have same := kept address (fun member => outside (.inl member)) fun table member => by
      rw [List.mem_singleton.mp member]
      exact fun inTable => outside (.inr inTable)
    rw [memory, if_pos inside] at same
    exact same.symm
  · intro zero address outside notTable
    have notAllocated := notTable (tablePage index) List.mem_cons_self
    rw [memory]
    by_cases inside : address ∈ placement.cleared
    · rw [if_pos inside, zero address inside fun member => member.elim outside notAllocated]
    · rw [if_neg inside, upper.kept address outside notAllocated]

/-- With no page table left, the panic comes before anything is cleared. -/
theorem touches_full (refers : placement.RefersToSecond mem)
    (absent : isPresent (entryAt mem placement.pageDirectory 2) = false)
    (full : (placement.bitmapAt mem).firstFit = none) : TouchesNothingElse placement mem := by
  obtain ⟨reason, after, maps, lower⟩ := identityMapRange_full refers absent full
  have run : placement.initPageTableAllocator ⟨mem, []⟩ = .error reason after := bind_of_error maps
  unfold TouchesNothingElse
  rw [run, final_error]
  exact fun address outside _ => lower.kept address fun member => outside (.inr member)

variable (placement mem) in
/-- When the set-up is harmless: a present entry 2 serves its pages already, an absent one
takes a page table, and what lies behind the bitmap is zero; or there is no page table. -/
def SetUpHarmless : Prop :=
  if isPresent (entryAt mem placement.pageDirectory 2) then
    ZeroBehind placement mem placement.objects ∧
      UpperInPlace placement mem (getPageTableAddress (entryAt mem placement.pageDirectory 2))
  else
    match (placement.bitmapAt mem).firstFit with
    | some (index, _) => ZeroBehind placement mem (placement.objects ∪ page (tablePage index))
    | none => True

/-- `init_page_table_allocator` keeps to its arrays and page tables exactly when the bytes
it clears behind `page_table_bitmap` were zero, and a present entry 2 served its pages. -/
theorem initPageTableAllocator_touches_iff (refers : placement.RefersToSecond mem) :
    TouchesNothingElse placement mem ↔ SetUpHarmless placement mem := by
  unfold SetUpHarmless
  cases present : isPresent (entryAt mem placement.pageDirectory 2) with
  | true =>
      rw [if_pos rfl]
      exact touches_present refers present
  | false =>
      rw [if_neg (by decide)]
      cases fits : (placement.bitmapAt mem).firstFit with
      | some found => exact touches_absent refers present fits
      | none => exact iff_true_intro (touches_full refers present fits)

/-! ## The bitmap as a field of the machine -/

variable (placement) in
/-- The machine whose bitmap is a field shows what memory holds: the bitmap where it lies, and
the same bytes elsewhere. -/
structure Shows (image : Image) (machine : Machine) : Prop where
  unpaged : machine.paging = false
  bitmap : placement.bitmapAt image.mem = machine.pageTableBitmap
  elsewhere : ∀ address ∉ Span placement.pageTableBitmap 128,
    image.mem address = machine.mem address

variable (placement) in
/-- The page tables in use lie apart from the bitmap and from the page directory. -/
def TablesClear (mem : Bytes) : Prop :=
  ∀ i, Entered mem placement.pageDirectory i →
    Disjoint (Span placement.pageTableBitmap 128) (page (tableAt mem placement.pageDirectory i)) ∧
      tableAt mem placement.pageDirectory i ≠ placement.pageDirectory

section Shows

variable {machine : Machine} {table value : UInt32}

theorem Shows.entryAt_eq (shows : Shows placement s machine) (aligned : PageAligned table)
    (apart : Disjoint (Span placement.pageTableBitmap 128) (page table)) {index : UInt32}
    (inside : index.toNat < 1024) : entryAt s.mem table index = entryAt machine.mem table index :=
  Bytes.load32_congr fun _ member =>
    shows.elsewhere _ (Set.disjoint_right.mp apart (slot_subset_page aligned inside member))

theorem Shows.directoryEntry_eq (shows : Shows placement s machine) :
    directoryEntry s.mem placement.pageDirectory address =
      directoryEntry machine.mem placement.pageDirectory address :=
  shows.entryAt_eq placement.pageDirectory_aligned placement.directory_apart
    (getPageDirectoryIndex_lt address)

/-- An entry stored in a page apart from the bitmap is stored in both. -/
theorem Shows.store (shows : Shows placement s machine) (aligned : PageAligned table)
    (apart : Disjoint (Span placement.pageTableBitmap 128) (page table)) {index : UInt32}
    (inside : index.toNat < 1024) :
    Shows placement { s with mem := s.mem.store32 (slot table index) value }
      { machine with mem := machine.mem.store32 (slot table index) value } := by
  have outside : Disjoint (Span placement.pageTableBitmap 128) (Span (slot table index) 4) :=
    Set.disjoint_of_subset_right (slot_subset_page aligned inside) apart
  refine ⟨shows.unpaged, ?_, fun other notBitmap => ?_⟩
  · refine Eq.trans (bitmapAt_congr fun other inBitmap => ?_) shows.bitmap
    exact Bytes.store32_of_notMem (Set.disjoint_left.mp outside inBitmap)
  · by_cases inSlot : other ∈ Span (slot table index) 4
    · exact Bytes.store32_of_mem inSlot
    · exact (Bytes.store32_of_notMem inSlot).trans
        ((shows.elsewhere other notBitmap).trans (Bytes.store32_of_notMem inSlot).symm)

/-- Setting a bit of the bitmap stays inside it. -/
theorem Shows.withBit (shows : Shows placement s machine) {index : Nat}
    {rest : Bitmap pageTableBitmapSize}
    (fits : machine.pageTableBitmap.firstFit = some (index, rest)) (pageTables : List UInt32) :
    Shows placement ⟨placement.withBit s.mem index, pageTables⟩
      { machine with pageTableBitmap := rest } := by
  have inside := (Bitmap.firstFit_some fits).1
  rw [← shows.bitmap] at fits
  refine ⟨shows.unpaged, bitmapAt_withBit fits, fun other notBitmap => ?_⟩
  refine (Bytes.store32_of_notMem fun inWord => notBitmap ?_).trans
    (shows.elsewhere other notBitmap)
  exact bitmapWord_subset (Nat.div_lt_of_lt_mul (by omega)) inWord

/-- Storing an entry in a table apart from the directory keeps the tables clear. -/
theorem TablesClear.withEntry {mem : Bytes} (clear : TablesClear placement mem)
    (aligned : PageAligned table) (apart : table ≠ placement.pageDirectory) :
    TablesClear placement (withEntry mem table address value) := by
  have directory : ∀ {i : UInt32}, i.toNat < 1024 →
      entryAt (Paging.withEntry mem table address value) placement.pageDirectory i =
        entryAt mem placement.pageDirectory i := fun inside =>
    entryAt_withEntry_of_apart inside aligned placement.pageDirectory_aligned
      (page_disjoint aligned placement.pageDirectory_aligned apart)
  rintro i ⟨inside, present⟩
  rw [directory inside] at present
  rw [tableAt, directory inside]
  exact clear i ⟨inside, present⟩

/-- The tables of the page table area are clear of the bitmap and of the directory. -/
theorem tablePage_clear {index : Nat} (inside : index < 1024) :
    Disjoint (Span placement.pageTableBitmap 128) (page (tablePage index)) ∧
      tablePage index ≠ placement.pageDirectory := by
  refine ⟨Set.disjoint_of_subset_right (fun other member => ?_) placement.bitmap_outside,
    fun same => placement.directory_outside (same ▸ tablePage_inArea inside)⟩
  have start : pageTableAreaStart.toNat = 0x00500000 := rfl
  rw [mem_page_iff (tablePage_aligned inside), toNat_tablePage inside] at member
  rw [Span.mem_iff (by rw [start]; decide), start]
  omega

theorem TablesClear.tableAdded {machine : Machine} (clear : TablesClear placement machine.mem)
    {index : Nat} (inside : index < 1024) (rest : Bitmap pageTableBitmapSize) :
    TablesClear placement
      (tableAdded machine placement.pageDirectory address index rest).mem := by
  intro i entered
  rcases entered_tableAdded placement.pageDirectory_aligned inside entered with
    ⟨_, table⟩ | ⟨before, table⟩ <;> rw [table]
  · exact tablePage_clear inside
  · exact clear i before

/-- `map_page` does the same whether the bitmap is a field or lies in memory. -/
theorem mapPage_matches (aligned : PageAligned address) (shows : Shows placement s machine)
    (clear : TablesClear placement machine.mem) :
    Matches (fun _ image machine => Shows placement image machine ∧
        TablesClear placement machine.mem)
      (placement.mapPage address address s)
      (Paging.mapPage placement.pageDirectory address address machine) := by
  have direct := fun {t : Machine} (unpaged : t.paging = false) => direct_of_unpaged unpaged
  cases present : isPresent (directoryEntry machine.mem placement.pageDirectory address) with
  | true =>
      obtain ⟨apart, different⟩ := clear _ (entered_of_present present)
      have sameTable : servingTable s.mem placement.pageDirectory address =
          servingTable machine.mem placement.pageDirectory address := by
        rw [servingTable, shows.directoryEntry_eq, servingTable]
      rw [mapPage_present aligned (shows.directoryEntry_eq ▸ present), sameTable,
        mapPage_of_present aligned aligned present (direct shows.unpaged _)
          (direct shows.unpaged _)]
      exact ⟨rfl, shows.store (getPageTableAddress_aligned _) apart (getPageTableIndex_lt address),
        clear.withEntry (getPageTableAddress_aligned _) different⟩
  | false =>
      have absent : isPresent (directoryEntry s.mem placement.pageDirectory address) = false := by
        rw [shows.directoryEntry_eq, present]
      cases fits : machine.pageTableBitmap.firstFit with
      | none =>
          rw [mapPage_full aligned absent (by rw [shows.bitmap, fits]),
            Paging.mapPage_full aligned aligned present fits (direct shows.unpaged _)]
          rfl
      | some found =>
          obtain ⟨index, rest⟩ := found
          have inside := firstFit_index_lt fits
          have clearTable : Disjoint (Span placement.pageTableBitmap 128)
              (page (tablePage index)) ∧ tablePage index ≠ placement.pageDirectory :=
            tablePage_clear inside
          obtain ⟨apart, different⟩ := clearTable
          rw [mapPage_absent aligned absent (by rw [shows.bitmap, fits]),
            mapPage_of_absent aligned aligned present fits (direct shows.unpaged _)
              (direct (by exact shows.unpaged) _) (direct (by exact shows.unpaged) _)]
          have marked := shows.withBit fits (s.pageTables ++ [tablePage index])
          exact ⟨rfl, (marked.store placement.pageDirectory_aligned placement.directory_apart
            (getPageDirectoryIndex_lt address)).store (tablePage_aligned inside) apart
              (getPageTableIndex_lt address),
            (clear.tableAdded inside rest).withEntry (tablePage_aligned inside) different⟩

/-- Mapping a range does the same as well. -/
theorem identityMapRange_matches {startAddress endAddress : UInt32}
    (startAligned : PageAligned startAddress) (shows : Shows placement s machine)
    (clear : TablesClear placement machine.mem) :
    Matches (fun _ image machine => Shows placement image machine)
      (placement.identityMapRange startAddress endAddress s)
      (Paging.identityMapRange placement.pageDirectory startAddress endAddress machine) := by
  have rounds : Matches (fun addr image machine => PageAligned addr ∧
        Shows placement image machine ∧ TablesClear placement machine.mem)
      (identityMapFromBy placement.mapPage endAddress loopBound startAddress s)
      (identityMapFromBy (Paging.mapPage placement.pageDirectory) endAddress loopBound
        startAddress machine) := by
    unfold identityMapFromBy
    refine Matches.loop ?_ loopBound ⟨startAligned, shows, clear⟩
    rintro addr image current ⟨aligned, held, still⟩ -
    refine (mapPage_matches aligned held still).bind fun _ _ _ next => ⟨rfl, ?_, next⟩
    unfold PageAligned at aligned ⊢
    rw [UInt32.toNat_add, toNat_pageSize]
    omega
  exact rounds.bind fun _ _ _ held => ⟨rfl, held.2.1⟩

/-- `init_page_table_allocator` clears in memory the bitmap, which the machine has as a field,
and what lies behind, as the machine does. -/
theorem initPageTableAllocator_matches {layout : Layout}
    (directory : layout.pageDirectory = placement.pageDirectory)
    (bitmap : layout.pageTableBitmap = placement.pageTableBitmap)
    (shows : Shows placement s machine) (clear : TablesClear placement machine.mem) :
    Matches (fun _ image machine => Shows placement image machine)
      (placement.initPageTableAllocator s) (Paging.initPageTableAllocator layout machine) := by
  have startAligned : PageAligned pageTableAreaStart := rfl
  unfold initPageTableAllocator Paging.initPageTableAllocator
  rw [directory]
  refine (identityMapRange_matches startAligned shows clear).bind fun _ image mapped held => ?_
  have unpaged : Machine.paging { mapped with
      pageTableBitmap := Bitmap.clear pageTableBitmapSize } = false := held.unpaged
  have size : (4 * UInt32.ofNat pageFrameBitmapSize).toNat = 7392 := by
    rw [pageFrameBitmapSize_eq]
    rfl
  rw [bind_of_ok (memset_run _ _ _), bind_of_ok (update_run _ _),
    bind_of_ok (memset_of_unpaged unpaged _ _ _)]
  rw [size]
  refine ⟨rfl, held.unpaged, Vector.ext fun i inside => ?_, fun address outside => ?_⟩
  · have zero : (image.mem.write placement.pageTableBitmap (List.replicate 7392 0)).load32
        (placement.bitmapWord i) = Bytes.load32 (fun _ => 0) (placement.bitmapWord i) := by
      refine Bytes.load32_congr fun address member => Bytes.write_replicate.trans (if_pos ?_)
      exact Span.mono (by decide) (bitmapWord_subset inside member)
    change (placement.bitmapAt _)[i] = (Vector.replicate pageTableBitmapSize 0)[i]
    rw [bitmapAt, Vector.getElem_ofFn, Vector.getElem_replicate, zero]
    rfl
  · have upper := layout.pageTableBitmap_inKernel.2
    rw [UInt32.lt_iff_toNat_lt, toNat_kernelEnd] at upper
    rw [← bitmap, Span.mem_iff (by omega)] at outside
    have behind : address ∈ overrun layout ↔ address ∈ Span placement.pageTableBitmap 7392 := by
      rw [mem_overrun_iff, ← bitmap, Span.mem_iff (by omega)]
      omega
    refine Bytes.write_replicate.trans (Eq.trans ?_ overrunCleared_apply.symm)
    simp only [behind]
    split
    · rfl
    · refine held.elsewhere address ?_
      rwa [← bitmap, Span.mem_iff (by omega)]

end Shows

/-! ## Two memories -/

/-- One placement: the bitmap behind the page tables. -/
def sample : Placement where
  pageDirectory := Layout.sample.pageDirectory
  secondPageTable := Layout.sample.secondPageTable
  pageTableBitmap := Layout.sample.pageTableBitmap
  pageDirectory_aligned := by decide
  secondPageTable_aligned := by decide
  second_ne_directory := by decide
  directory_apart := (Span.disjoint_of_le (by decide) (by decide)).symm
  second_apart := (Span.disjoint_of_le (by decide) (by decide)).symm
  bitmap_outside := Span.disjoint_of_le (by decide) (by decide)
  directory_outside := by
    rw [inTableArea_iff]
    decide
  second_outside := by
    rw [inTableArea_iff]
    decide

/-- Memory with entry 1 in place. -/
def withSecond (mem : Bytes) : Bytes :=
  mem.store32 (slot sample.pageDirectory 1) (sample.secondPageTable ||| 3)

theorem withSecond_refers (mem : Bytes) : sample.RefersToSecond (withSecond mem) := by
  have entry : entryAt (withSecond mem) sample.pageDirectory 1 = sample.secondPageTable ||| 3 :=
    Bytes.load32_store32 _
  rw [RefersToSecond, entry]
  exact ⟨isPresent_or_three sample.secondPageTable_aligned,
    getPageTableAddress_or_three sample.secondPageTable_aligned⟩

theorem withSecond_load32 {mem : Bytes} {start : UInt32}
    (apart : Disjoint (Span start 4) (Span (slot sample.pageDirectory 1) 4)) :
    (withSecond mem).load32 start = mem.load32 start :=
  Bytes.load32_store32_of_disjoint apart

theorem withSecond_zeroes {start : UInt32}
    (apart : Disjoint (Span start 4) (Span (slot sample.pageDirectory 1) 4)) :
    (withSecond fun _ => 0).load32 start = 0 :=
  withSecond_load32 apart

/-- The only page table in use is the second one, behind the directory. -/
theorem tablesClear_withSecond : TablesClear sample (withSecond fun _ => 0) := by
  rintro i ⟨inside, present⟩
  by_cases one : i = 1
  · subst one
    rw [tableAt, (withSecond_refers _).2]
    exact ⟨sample.second_apart, sample.second_ne_directory⟩
  · have absent : entryAt (withSecond fun _ => 0) sample.pageDirectory i = 0 :=
      withSecond_zeroes (slot_disjoint sample.pageDirectory_aligned inside (by decide) one)
    rw [absent] at present
    exact absurd present (by decide)

theorem initPageTableAllocator_matches_zeroes :
    Matches (fun _ image machine => Shows sample image machine)
      (sample.initPageTableAllocator ⟨withSecond fun _ => 0, []⟩)
      (Paging.initPageTableAllocator Layout.sample (Machine.boot (withSecond fun _ => 0))) := by
  have shows : Shows sample ⟨withSecond fun _ => 0, []⟩
      (Machine.boot (withSecond fun _ => 0)) := by
    refine ⟨rfl, Vector.ext fun i inside => ?_, fun _ _ => rfl⟩
    have apart : Disjoint (Span (sample.bitmapWord i) 4) (Span (slot sample.pageDirectory 1) 4) :=
      Set.disjoint_of_subset (bitmapWord_subset inside)
        (slot_subset_page sample.pageDirectory_aligned (by decide)) sample.directory_apart
    have word : (sample.bitmapAt (withSecond fun _ => 0))[i] = 0 := by
      rw [bitmapAt, Vector.getElem_ofFn, withSecond_zeroes apart]
    exact word.trans (Vector.getElem_replicate inside).symm
  have directory : Layout.sample.pageDirectory = sample.pageDirectory := rfl
  have bitmap : Layout.sample.pageTableBitmap = sample.pageTableBitmap := rfl
  have clear : TablesClear sample (Machine.boot (withSecond fun _ => 0)).mem :=
    tablesClear_withSecond
  -- With the memory in sight the goal would be run.
  generalize Machine.boot (withSecond fun _ => 0) = machine at shows clear ⊢
  generalize (⟨withSecond fun _ => 0, []⟩ : Image) = image at shows ⊢
  exact initPageTableAllocator_matches directory bitmap shows clear

theorem initPageTableAllocator_touches_iff_zeroes :
    TouchesNothingElse sample (withSecond fun _ => 0) := by
  refine (initPageTableAllocator_touches_iff (withSecond_refers _)).mpr ?_
  have zero : ∀ own, ZeroBehind sample (withSecond fun _ => 0) own := fun own address inside _ =>
    Bytes.store32_of_notMem (Set.disjoint_right.mp
      (Span.disjoint_of_le (by decide) (by decide) :
        Disjoint (Span (slot sample.pageDirectory 1) 4) (Span sample.pageTableBitmap 7392)) inside)
  have entry : entryAt (withSecond fun _ => 0) sample.pageDirectory 2 = 0 :=
    withSecond_load32 (Span.disjoint_of_le (by decide) (by decide)).symm
  rw [SetUpHarmless, entry, if_neg (by decide)]
  cases (sample.bitmapAt (withSecond fun _ => 0)).firstFit with
  | some found => exact zero _
  | none => trivial

/-- A byte behind the bitmap that is not zero. -/
def marked : Bytes := withSecond (Bytes.write (fun _ => 0) 0x00203080 [1])

/-- Where that byte is not, and entry 1 is not, words are zero. -/
theorem marked_load32 {start : UInt32}
    (apart : Disjoint (Span start 4) (Span (slot sample.pageDirectory 1) 4))
    (unmarked : Disjoint (Span start 4) (Span 0x00203080 1)) : marked.load32 start = 0 := by
  rw [marked, withSecond_load32 apart, Bytes.load32, Bytes.read_write_of_disjoint unmarked]
  rfl

/-- It is cleared with the bitmap. -/
theorem marked_is_cleared : sample.RefersToSecond marked ∧ ¬ TouchesNothingElse sample marked := by
  have refers : sample.RefersToSecond marked := withSecond_refers _
  have entry : entryAt marked sample.pageDirectory 2 = 0 :=
    marked_load32 (Span.disjoint_of_le (by decide) (by decide)).symm
      (Span.disjoint_of_le (by decide) (by decide))
  have absent : isPresent (entryAt marked sample.pageDirectory 2) = false := by
    rw [entry]
    rfl
  have word : marked.load32 (sample.bitmapWord 0) = 0 :=
    marked_load32 (Span.disjoint_of_le (by decide) (by decide)).symm
      (Span.disjoint_of_le (by decide) (by decide))
  refine ⟨refers, fun kept => ?_⟩
  cases fits : (sample.bitmapAt marked).firstFit with
  | none =>
      have taken := Bitmap.firstFit_eq_none_iff.mp fits 0 (by rw [pageTableBitmapSize_eq]; decide)
      rw [Bitmap.isSet, word_bitmapAt (by rw [pageTableBitmapSize_eq]; decide), word] at taken
      exact absurd taken (by decide)
  | some found =>
      obtain ⟨index, rest⟩ := found
      have inside := (Bitmap.firstFit_some fits).1
      rw [pageTableBitmapSize_eq] at inside
      have zero := (touches_absent refers absent fits).mp kept
      have outside : (0x00203080 : UInt32) ∉ sample.objects ∪ page (tablePage index) := by
        rintro (((inBitmap | inDirectory) | inSecond) | inTable)
        · exact absurd inBitmap (by decide : (0x00203080 : UInt32) ∉ Span 0x00203000 128)
        · exact absurd inDirectory (by decide : (0x00203080 : UInt32) ∉ Span 0x00200000 4096)
        · exact absurd inSecond (by decide : (0x00203080 : UInt32) ∉ Span 0x00202000 4096)
        · rw [mem_page_iff (tablePage_aligned inside), toNat_tablePage inside] at inTable
          have low : (0x00203080 : UInt32).toNat = 0x00203080 := rfl
          omega
      have byte : marked 0x00203080 = 0 := zero 0x00203080 (by decide) outside
      exact absurd byte (by decide)

end Placement

end TorchOS.Paging
