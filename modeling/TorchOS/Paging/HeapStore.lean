import TorchOS.Base.Arena
import TorchOS.Paging.HeapPages
import TorchOS.Paging.Tlb

/-!
# The heap as independent arrays

What the rest of the kernel relies on when it calls `heap_allocate` once paging is on: every
block is an array of its own that starts out zero, whatever the frames held before, and that
nothing but a store into it changes. Byte `d` of the heap area is byte `d` of the frame area, so
a call writes no heap byte below its own block: the page it maps first may hold the end of an
earlier block, but was mapped, and cleared, by that block's call.
-/

namespace TorchOS.Paging

open Base Base.Program

theorem loadByte_of_physical {s : Machine} {address target : UInt32}
    (reaches : physical s address = some target) : loadByte address s = .ok (s.mem target) s := by
  simp only [loadByte, reaches]

/-! ## Bytes of the heap -/

/-- The size of the heap area. -/
def heapSize : Nat := 0x02000000

/-- Byte `d` of the heap area. -/
def heapByte (d : Nat) : UInt32 := heapAllocatorAreaStart + UInt32.ofNat d

/-- Byte `d` of the frame area, which is behind it. -/
def backing (d : Nat) : UInt32 := pageFrameAllocatorAreaStart + UInt32.ofNat d

section Bytes

variable {layout : Layout} {index count d : Nat} {s after : Machine}

theorem toNat_heapByte (inside : d ≤ heapSize) : (heapByte d).toNat = 0x0F000000 + d := by
  unfold heapSize at inside
  rw [heapByte, UInt32.toNat_add, UInt32.toNat_ofNat', toNat_heapAllocatorAreaStart]
  omega

theorem toNat_backing (inside : d ≤ heapSize) : (backing d).toNat = 0x00900000 + d := by
  unfold heapSize at inside
  rw [backing, UInt32.toNat_add, UInt32.toNat_ofNat', toNat_pageFrameAllocatorAreaStart]
  omega

theorem heapByte_add (i : Nat) : heapByte d + UInt32.ofNat i = heapByte (d + i) := by
  rw [heapByte, heapByte, UInt32.ofNat_add]
  grind

theorem backing_add (i : Nat) : backing d + UInt32.ofNat i = backing (d + i) := by
  rw [backing, backing, UInt32.ofNat_add]
  grind

theorem heapByte_injective {e : Nat} (left : d < heapSize) (right : e < heapSize)
    (same : backing d = backing e) : d = e := by
  have values := congrArg UInt32.toNat same
  rw [toNat_backing (Nat.le_of_lt left), toNat_backing (Nat.le_of_lt right)] at values
  omega

/-- A mapped byte of the heap translates to the byte behind it. -/
theorem HeapPages.walk_heapByte (holds : HeapPages layout index count s) (room : count ≤ 8192)
    (inside : d < 4096 * count) :
    walk s.mem layout.pageDirectory (heapByte d) = some (backing d) := by
  have small : d / 4096 < 8192 := by omega
  have place : (heapByte d).toNat = 0x0F000000 + d := toNat_heapByte (by unfold heapSize; omega)
  have start := toNat_heapPage (Nat.le_of_lt small)
  have member : heapByte d ∈ page (heapPage (d / 4096)) := by
    rw [mem_page_iff (heapPage_aligned (Nat.le_of_lt small)), place, start]
    omega
  obtain ⟨-, translates⟩ := walk_of_mem_page (heapPage_aligned (Nat.le_of_lt small)) member
    (holds.pages _ (by omega))
  rw [translates, Option.some_inj, ← UInt32.toNat_inj, UInt32.toNat_add, UInt32.toNat_sub, place,
    start, toNat_framePage small, toNat_backing (by unfold heapSize; omega)]
  omega

theorem HeapPages.physical_heapByte (holds : HeapPages layout index count s)
    (room : count ≤ 8192) (inside : d < 4096 * count) :
    physical s (heapByte d) = some (backing d) := by
  rw [physical, if_pos holds.paged, holds.cr3]
  exact holds.walk_heapByte room inside

/-- No page table lies behind the heap. -/
theorem backing_notMem_slot {table i : UInt32} (identity : IdentityPage table)
    (small : i.toNat < 1024) (inside : d < heapSize) : backing d ∉ Span (slot table i) 4 := by
  intro member
  have inPage := slot_subset_page identity.1 small member
  rw [mem_page_iff identity.1, toNat_backing (Nat.le_of_lt inside)] at inPage
  obtain ⟨aligned, place⟩ := identityPage_iff.mp identity
  omega

/-- Bytes written behind the heap leave the tables alone. -/
theorem sameTables_write_backing {mem : Base.Bytes} {bytes : List UInt8}
    (inside : d + bytes.length ≤ heapSize) : SameTables mem (mem.write (backing d) bytes) := by
  intro table identity i small
  refine Bytes.load32_congr fun address member => Bytes.write_of_notMem fun here => ?_
  obtain ⟨offset, below, -, rfl⟩ := Span.exists_index here
  rw [backing_add] at member
  exact backing_notMem_slot identity small (by omega) member

/-- Clearing mapped bytes of the heap writes the bytes behind them. -/
theorem HeapPages.memset_heap (holds : HeapPages layout index count s) (room : count ≤ 8192)
    {value : UInt8} {size : UInt32} (inside : d + size.toNat ≤ 4096 * count) :
    memset (heapByte d) value size s =
      .ok () { s with mem := s.mem.write (backing d) (List.replicate size.toNat value) } := by
  have yields : Yields (memset (heapByte d) value size s)
      (fun _ after =>
        after = { s with mem := s.mem.write (backing d) (List.replicate size.toNat value) })
      (fun _ => False) := by
    refine Yields.times (I := fun i after =>
      after = { s with mem := s.mem.write (backing d) (List.replicate i value) }) ?_ ?_
    · simp
    · rintro i _ below rfl
      have fits : d + (List.replicate i value).length ≤ heapSize := by
        rw [List.length_replicate]
        unfold heapSize
        omega
      have same : SameTables s.mem (s.mem.write (backing d) (List.replicate i value)) :=
        sameTables_write_backing fits
      have kept : HeapPages layout index count
          { s with mem := s.mem.write (backing d) (List.replicate i value) } :=
        holds.congr same rfl rfl rfl rfl
      have reaches := kept.physical_heapByte room (d := d + i) (by omega)
      rw [← heapByte_add] at reaches
      rw [storeByte_of_physical reaches, ← backing_add]
      have wide := size.toNat_lt
      have fits' : i + 1 ≤ 2 ^ 32 := by omega
      exact congrArg (fun mem => { s with mem := mem }) (Bytes.write_replicate_succ fits')
  obtain ⟨_, _, run, rfl⟩ := yields.returns
  exact run

end Bytes

/-! ## What an allocation leaves of earlier blocks -/

section Keeps

variable {layout : Layout} {index count d limit : Nat} {s t after : Machine}

/-- The first bytes of the heap are as they were. -/
def KeepsBelow (limit : Nat) (s t : Machine) : Prop :=
  ∀ d < limit, t.mem (backing d) = s.mem (backing d)

theorem KeepsBelow.trans {u : Machine} (first : KeepsBelow limit s t)
    (second : KeepsBelow limit t u) : KeepsBelow limit s u :=
  fun d inside => (second d inside).trans (first d inside)

theorem KeepsBelow.mono {fewer : Nat} (keeps : KeepsBelow limit s t) (less : fewer ≤ limit) :
    KeepsBelow fewer s t :=
  fun d inside => keeps d (Nat.lt_of_lt_of_le inside less)

/-- Bytes written from some byte on keep those before it. -/
theorem keepsBelow_write {bytes : List UInt8} (inside : d + bytes.length ≤ heapSize) :
    KeepsBelow d s { s with mem := s.mem.write (backing d) bytes } := by
  intro e before
  refine Bytes.write_of_notMem fun member => ?_
  obtain ⟨offset, below, -, same⟩ := Span.exists_index member
  rw [backing_add] at same
  have equal := heapByte_injective (by omega) (by omega) same
  omega

/-- Preparing a page stores into the directory at most. -/
theorem Prepared.keeps {address table : UInt32} (prepared : Prepared layout s address table t) :
    KeepsBelow heapSize s t := by
  cases prepared with
  | present _ => exact fun d _ => rfl
  | added _ _ =>
      exact fun d inside => Bytes.store32_of_notMem
        (backing_notMem_slot (pageDirectory_identity layout) (getPageDirectoryIndex_lt _) inside)

/-- Mapping the next page of the heap writes no byte of it. -/
theorem HeapPages.mapPage_keeps (holds : HeapPages layout index count s) (room : count < 8192)
    {bitmap : Bitmap pageFrameBitmapSize}
    (returned : mapPage layout.pageDirectory (heapPage count) (framePage count)
      { s with pageFrameBitmap := bitmap } = .ok () after) : KeepsBelow heapSize s after := by
  have taken : DirectoryKept layout index { s with pageFrameBitmap := bitmap } :=
    holds.toDirectoryKept.congr (fun _ _ => rfl) rfl rfl
  have tables : HeapTables layout (tablesFor count) { s with pageFrameBitmap := bitmap } :=
    holds.tables.congr rfl fun _ _ => rfl
  obtain ⟨ready, prepared, -, -, -⟩ := tables.prepare room
  have kept := taken.keepsPrepared prepared
  obtain ⟨present, -⟩ := prepared.serves
  have run := taken.mapPage_run (heapPage_aligned (Nat.le_of_lt room)) (framePage_aligned room)
    holds.directory_itself (holds.table_itself (by omega)) prepared
  rw [returned] at run
  cases run
  intro d inside
  have table := kept.tableAt_identity (entered_of_present present)
  exact (Bytes.store32_of_notMem
    (backing_notMem_slot table (getPageTableIndex_lt _) inside)).trans (prepared.keeps d inside)

theorem heapPage_eq (count : Nat) : heapPage count = heapByte (4096 * count) := by
  rw [heapPage, heapByte, UInt32.ofNat_mul]
  rfl

/-- `page_frame_allocate` clears the new page and writes no other byte of the heap. -/
theorem HeapPages.pageFrameAllocate_keeps (holds : HeapPages layout index count s)
    (room : count < 8192) {address : UInt32}
    (returned : pageFrameAllocate layout (heapPage count) s = .ok address after) :
    KeepsBelow (4096 * count) s after := by
  obtain ⟨bitmap, took, filled⟩ := holds.takePageFrame_run room
  obtain ⟨mapped, mapping, kept, -⟩ := holds.mapPage_run room filled
  have fits : 4096 * count + pageSize.toNat ≤ 4096 * (count + 1) := by
    rw [toNat_pageSize]
    omega
  have cleared : memset (heapByte (4096 * count)) 0 pageSize mapped = _ :=
    kept.memset_heap (by omega) fits
  rw [← heapPage_eq] at cleared
  unfold pageFrameAllocate at returned
  rw [bind_of_ok (panicIf_run (check_of_aligned (heapPage_aligned (Nat.le_of_lt room)))),
    bind_of_ok took, bind_of_ok mapping, bind_of_ok cleared] at returned
  cases returned
  have before : KeepsBelow (4096 * count) s mapped :=
    (holds.mapPage_keeps room mapping).mono (by unfold heapSize; omega)
  refine before.trans (keepsBelow_write ?_)
  rw [List.length_replicate, toNat_pageSize]
  unfold heapSize
  omega

theorem HeapMapped.heapMapNext_keeps (holds : HeapMapped layout index count s)
    (room : count < 8192) (returned : heapMapNext layout s = .ok () after) :
    KeepsBelow (4096 * count) s after := by
  obtain ⟨grown, allocated, -, -⟩ := holds.pageFrameAllocate_run room
  have keeps := holds.pageFrameAllocate_keeps room allocated
  unfold heapMapNext at returned
  rw [bind_of_ok (read_run _ _), holds.watermark, bind_of_ok allocated] at returned
  obtain ⟨-, rfl⟩ := EStateM.Result.ok.inj returned
  exact fun d inside => keeps d inside

/-- The mapping loop writes no byte of the pages that were mapped. -/
theorem HeapMapped.heapMapUpTo_keeps (holds : HeapMapped layout index count s) {size : UInt32}
    (limit : (s.heapCurrent + size).toNat ≤ heapAllocatorAreaEnd.toNat)
    (returned : heapMapUpTo layout size s = .ok () after) : KeepsBelow (4096 * count) s after := by
  rw [toNat_heapAllocatorAreaEnd] at limit
  refine (loop_ok (I := fun _ t => (∃ reached, HeapMapped layout index reached t ∧
    count ≤ reached) ∧ t.heapCurrent = s.heapCurrent ∧ KeepsBelow (4096 * count) s t) ?_
    ⟨⟨count, holds, Nat.le_refl _⟩, rfl, fun _ _ => rfl⟩ returned).1.2.2
  rintro _ t _ u ⟨⟨reached, mapped, more⟩, current, keeps⟩ again round
  rw [decide_eq_true_eq, current, gt_iff_lt, UInt32.lt_iff_toNat_lt] at again
  have here := mapped.toNat_watermark
  have room : reached < 8192 := by omega
  obtain ⟨next, run, kept, same⟩ := mapped.heapMapNext_run room
  rw [round] at run
  cases run
  refine ⟨⟨reached + 1, kept, by omega⟩, same.trans current, keeps.trans ?_⟩
  exact (mapped.heapMapNext_keeps room round).mono (by omega)

/-- A call whose block ends in the heap area returns the top and moves it behind the block,
which is zero; what lies below it is as it was. -/
theorem HeapReady.heapAllocate_exact (holds : HeapReady layout index count s) {size : UInt32}
    (top : s.heapCurrent = heapByte d) (inside : d + size.toNat ≤ heapSize) :
    ∃ after reached, heapAllocate layout size s = .ok (heapByte d) after ∧
      HeapReady layout index reached after ∧ after.heapCurrent = heapByte (d + size.toNat) ∧
      KeepsBelow d s after ∧ ∀ i < size.toNat, after.mem (backing (d + i)) = 0 := by
  have place : s.heapCurrent.toNat = 0x0F000000 + d := by
    rw [top, toNat_heapByte (by omega)]
  have limit : s.heapCurrent.toNat + size.toNat ≤ heapAllocatorAreaEnd.toNat := by
    rw [place, toNat_heapAllocatorAreaEnd]
    unfold heapSize at inside
    omega
  have sum : (s.heapCurrent + size).toNat = s.heapCurrent.toNat + size.toNat := by
    rw [toNat_heapAllocatorAreaEnd] at limit
    rw [UInt32.toNat_add]
    omega
  obtain ⟨grown, _, after, reached, mapping, current, -, clears, run, rfl, ready⟩ :=
    holds.heapAllocate_run limit
  have tight := holds.tight
  obtain ⟨grown', reached', mapping', mapped, -, covered, -⟩ :=
    holds.toHeapMapped.heapMapUpTo_run (sum ▸ limit) (by omega)
  rw [mapping] at mapping'
  cases mapping'
  have fits : d + size.toNat ≤ 4096 * reached' := by
    have watermark := mapped.toNat_watermark
    omega
  have cleared : memset (heapByte d) 0 size grown = _ :=
    mapped.toHeapPages.memset_heap mapped.room fits
  have before : KeepsBelow d s grown := by
    refine (holds.toHeapMapped.heapMapUpTo_keeps (sum ▸ limit) mapping).mono ?_
    have watermark := holds.toNat_watermark
    have below := holds.covered
    omega
  rw [current, top, cleared] at clears
  obtain ⟨-, rfl⟩ := EStateM.Result.ok.inj clears
  have block : d + (List.replicate size.toNat (0 : UInt8)).length ≤ heapSize := by
    rwa [List.length_replicate]
  refine ⟨_, reached, top ▸ run, ready, ?_, before.trans (keepsBelow_write block), ?_⟩
  · change s.heapCurrent + size = _
    rw [top, ← heapByte_add, UInt32.ofNat_toNat]
  · intro i below
    have wide := size.toNat_lt
    have position : i < (List.replicate size.toNat (0 : UInt8)).length := by
      rwa [List.length_replicate]
    rw [← backing_add]
    refine (Bytes.write_at position (by omega)).trans ?_
    rw [List.getElem_replicate]

end Keeps

/-! ## The heap in use -/

/-- What the kernel does with the heap: a call of `heap_allocate`, and a store into and a load
from the block that an earlier call returned. -/
inductive HeapUse where
  | allocate (size : UInt32)
  | put (block offset : Nat) (value : UInt8)
  | get (block offset : Nat)

namespace HeapUse

/-- The address of a byte of a block, from the addresses that the calls so far returned. -/
def address (blocks : List UInt32) (block offset : Nat) : UInt32 :=
  blocks.getD block 0 + UInt32.ofNat offset

/-- What the kernel runs: the blocks after it, and the byte that a load returned. -/
def run (layout : Layout) (blocks : List UInt32) :
    HeapUse → Kernel (List UInt32 × Option UInt8)
  | allocate size => do
      let block ← heapAllocate layout size
      pure (blocks ++ [block], none)
  | put block offset value => do
      storeByte (address blocks block offset) value
      pure (blocks, none)
  | get block offset => do
      let value ← loadByte (address blocks block offset)
      pure (blocks, some value)

/-- The same for arrays that are independent of each other, where there is room for the new
array, or an element to store or load. -/
def apply (arena : Arena UInt8) : HeapUse → Option (Arena UInt8 × Option UInt8)
  | allocate size =>
      if arena.total + size.toNat ≤ heapSize then some (arena.grow size.toNat 0, none) else none
  | put block offset value =>
      (arena.get block offset).map fun _ => (arena.put block offset value, none)
  | get block offset => (arena.get block offset).map fun value => (arena, some value)

/-- One use after another, with what the loads returned. -/
def runAll (layout : Layout) : List HeapUse → List UInt32 →
    Kernel (List UInt32 × List (Option UInt8))
  | [], blocks => pure (blocks, [])
  | use :: uses, blocks => do
      let (blocks, value) ← run layout blocks use
      let (blocks, values) ← runAll layout uses blocks
      pure (blocks, value :: values)

/-- The same for the arrays. -/
def applyAll : List HeapUse → Arena UInt8 → Option (Arena UInt8 × List (Option UInt8))
  | [], arena => some (arena, [])
  | use :: uses, arena => do
      let (arena, value) ← apply arena use
      let (arena, values) ← applyAll uses arena
      pure (arena, value :: values)

end HeapUse

/-- The blocks hold the arrays, end to end from the start of the heap area to its top. -/
structure Stores (layout : Layout) (index : Nat) (arena : Arena UInt8) (blocks : List UInt32)
    (s : Machine) : Prop where
  ready : ∃ count, HeapReady layout index count s
  top : s.heapCurrent = heapByte arena.total
  room : arena.total ≤ heapSize
  count : blocks.length = arena.length
  starts : ∀ block < arena.length, blocks[block]? = some (heapByte (arena.offset block))
  bytes : ∀ block offset value, arena.get block offset = some value →
    s.mem (backing (arena.offset block + offset)) = value

section Stores

variable {layout : Layout} {index block offset : Nat} {arena arena' : Arena UInt8}
  {blocks : List UInt32} {s : Machine} {value : UInt8} {reply : Option UInt8}

theorem Booted.stores (booted : Booted layout index s) : Stores layout index [] [] s where
  ready := ⟨0, booted.heapReady⟩
  top := booted.heapCurrent
  room := Nat.zero_le _
  count := rfl
  starts := fun block inside => absurd inside (Nat.not_lt_zero block)
  bytes := fun block offset value present => by simp [Arena.get] at present

theorem Stores.address_eq (stores : Stores layout index arena blocks s)
    (present : arena.get block offset = some value) :
    HeapUse.address blocks block offset = heapByte (arena.offset block + offset) := by
  have start := stores.starts block (Arena.lt_length present)
  rw [HeapUse.address, List.getD_eq_getElem?_getD, start, Option.getD_some, heapByte_add]

/-- A byte of a block is mapped to the byte behind it. -/
theorem Stores.physical_eq (stores : Stores layout index arena blocks s)
    (present : arena.get block offset = some value) :
    physical s (HeapUse.address blocks block offset) =
      some (backing (arena.offset block + offset)) := by
  obtain ⟨count, ready⟩ := stores.ready
  have place := Arena.place_lt_total present
  have watermark := ready.toNat_watermark
  have covered := ready.covered
  rw [stores.top, toNat_heapByte stores.room] at covered
  rw [stores.address_eq present]
  exact ready.physical_heapByte ready.room (by omega)

/-- A store into the heap area keeps the heap ready. -/
theorem HeapReady.storeByte {count d : Nat} (ready : HeapReady layout index count s)
    (inside : d < heapSize) :
    HeapReady layout index count { s with mem := s.mem.write (backing d) [value] } := by
  have one : d + [value].length ≤ heapSize := inside
  have same : SameTables s.mem (s.mem.write (backing d) [value]) := sameTables_write_backing one
  exact ⟨⟨ready.toHeapPages.congr same rfl rfl rfl rfl, ready.room, ready.watermark⟩,
    ready.above, ready.covered, ready.tight⟩

/-- A new block is a new array of zeroes, and the arrays before it are as they were. -/
theorem Stores.allocate (stores : Stores layout index arena blocks s) {size : UInt32}
    (fits : arena.total + size.toNat ≤ heapSize) :
    ∃ after, heapAllocate layout size s = .ok (heapByte arena.total) after ∧
      Stores layout index (arena.grow size.toNat 0) (blocks ++ [heapByte arena.total]) after := by
  obtain ⟨count, ready⟩ := stores.ready
  obtain ⟨after, reached, run, ready', top, keeps, zeroes⟩ :=
    ready.heapAllocate_exact stores.top fits
  refine ⟨after, run, ⟨reached, ready'⟩, ?_, ?_, ?_, fun block inside => ?_,
    fun block offset value present => ?_⟩
  · rw [top, Arena.total_grow]
  · rwa [Arena.total_grow]
  · rw [List.length_append, List.length_singleton, stores.count, Arena.length_grow]
  · rw [Arena.length_grow] at inside
    by_cases old : block < arena.length
    · rw [List.getElem?_append_left (by rw [stores.count]; exact old),
        Arena.offset_grow (Nat.le_of_lt old)]
      exact stores.starts block old
    · have last : block = arena.length := by omega
      subst last
      rw [← stores.count, List.getElem?_concat_length, stores.count, Arena.offset_grow_last]
  · by_cases old : block < arena.length
    · rw [Arena.get_grow_old old] at present
      rw [Arena.offset_grow (Nat.le_of_lt old), keeps _ (Arena.place_lt_total present)]
      exact stores.bytes block offset value present
    · have inside := Arena.lt_length present
      rw [Arena.length_grow] at inside
      have last : block = arena.length := by omega
      subst last
      rw [Arena.get_grow_new] at present
      rw [Arena.offset_grow_last]
      split at present
      next below =>
        cases present
        exact zeroes offset below
      next => cases present

variable (value) in
/-- A store into a block replaces one element of one array. -/
theorem Stores.put (stores : Stores layout index arena blocks s) {old : UInt8}
    (present : arena.get block offset = some old) :
    ∃ after, storeByte (HeapUse.address blocks block offset) value s = .ok () after ∧
      Stores layout index (arena.put block offset value) blocks after := by
  have place := Arena.place_lt_total present
  have room := stores.room
  obtain ⟨count, ready⟩ := stores.ready
  refine ⟨_, storeByte_of_physical (stores.physical_eq present),
    ⟨count, ready.storeByte (by omega)⟩, ?_, ?_, ?_, fun block' inside => ?_,
    fun block' offset' value' present' => ?_⟩
  · rw [Arena.total_put]
    exact stores.top
  · rwa [Arena.total_put]
  · rw [Arena.length_put, stores.count]
  · rw [Arena.length_put] at inside
    rw [Arena.offset_put]
    exact stores.starts block' inside
  · rw [Arena.offset_put]
    change s.mem.write _ [value] _ = value'
    rw [Bytes.write_singleton]
    by_cases same : block' = block ∧ offset' = offset
    · obtain ⟨rfl, rfl⟩ := same
      rw [Arena.get_put_same present] at present'
      rw [if_pos rfl]
      exact Option.some.inj present'
    · rw [Arena.get_put_other same] at present'
      rw [if_neg]
      · exact stores.bytes block' offset' value' present'
      · intro here
        have place' := Arena.place_lt_total present'
        have equal := heapByte_injective (by omega) (by omega) here
        exact same (Arena.place_injective present' present equal)

/-- What the arrays do, the kernel does. -/
theorem Stores.run (stores : Stores layout index arena blocks s) {use : HeapUse}
    (applied : use.apply arena = some (arena', reply)) :
    ∃ blocks' after, use.run layout blocks s = .ok (blocks', reply) after ∧
      Stores layout index arena' blocks' after := by
  cases use with
  | allocate size =>
      rw [HeapUse.apply] at applied
      split at applied
      next fits =>
        cases applied
        obtain ⟨after, run, holds⟩ := stores.allocate fits
        refine ⟨_, after, ?_, holds⟩
        rw [HeapUse.run, bind_of_ok run]
        rfl
      next => cases applied
  | put block offset value =>
      obtain ⟨old, present, same⟩ := Option.map_eq_some_iff.mp applied
      cases same
      obtain ⟨after, run, holds⟩ := stores.put value present
      refine ⟨_, after, ?_, holds⟩
      rw [HeapUse.run, bind_of_ok run]
      rfl
  | get block offset =>
      obtain ⟨value, present, same⟩ := Option.map_eq_some_iff.mp applied
      cases same
      refine ⟨blocks, s, ?_, stores⟩
      rw [HeapUse.run, bind_of_ok (loadByte_of_physical (stores.physical_eq present)),
        stores.bytes block offset value present]
      rfl

theorem Stores.runAll (stores : Stores layout index arena blocks s) {uses : List HeapUse}
    {replies : List (Option UInt8)}
    (applied : HeapUse.applyAll uses arena = some (arena', replies)) :
    ∃ blocks' after, HeapUse.runAll layout uses blocks s = .ok (blocks', replies) after ∧
      Stores layout index arena' blocks' after := by
  induction uses generalizing arena blocks s replies with
  | nil =>
      cases applied
      exact ⟨blocks, s, rfl, stores⟩
  | cons use uses ih =>
      simp only [HeapUse.applyAll, Option.bind_eq_bind, Option.bind_eq_some_iff] at applied
      obtain ⟨⟨middle, reply⟩, first, ⟨last, rest⟩, later, same⟩ := applied
      cases same
      obtain ⟨blocks', t, run, holds⟩ := stores.run first
      obtain ⟨blocks'', after, runs, holds'⟩ := ih holds later
      refine ⟨blocks'', after, ?_, holds'⟩
      rw [HeapUse.runAll, bind_of_ok run]
      simp only
      rw [bind_of_ok runs]
      rfl

/-- After an `init_paging` that spares the arrays it works on, whatever memory held, any calls of
`heap_allocate` mixed with stores into and loads from the blocks do what they do on independent
arrays that start out zero, as long as these have room in the heap area; a call for which there
is no more room panics. -/
theorem heapUses_refine {start : Machine} (spares : OverrunSpares layout)
    (unpaged : s.paging = false) (booted : initPaging layout s = .ok () start)
    {uses : List HeapUse}
    {replies : List (Option UInt8)}
    (applied : HeapUse.applyAll uses [] = some (arena, replies)) :
    ∃ blocks after, HeapUse.runAll layout uses [] start = .ok (blocks, replies) after ∧
      (∀ block offset value, arena.get block offset = some value →
        loadByte (HeapUse.address blocks block offset) after = .ok value after) ∧
      ∀ size : UInt32, heapSize < arena.total + size.toNat →
        heapAllocatorAreaStart.toNat + arena.total + size.toNat < 2 ^ 32 →
          heapAllocate layout size after =
            .error (.panic "Heap is overflowing! Cannot allocate!") after := by
  obtain ⟨index, _, _, state⟩ := (initPaging_boots layout unpaged spares).of_ok booted
  obtain ⟨blocks, after, run, stores⟩ := state.stores.runAll applied
  refine ⟨blocks, after, run, fun block offset value present => ?_, fun size full fits => ?_⟩
  · rw [loadByte_of_physical (stores.physical_eq present),
      stores.bytes block offset value present]
  · have place : after.heapCurrent.toNat = 0x0F000000 + arena.total := by
      rw [stores.top, toNat_heapByte stores.room]
    rw [toNat_heapAllocatorAreaStart] at fits
    refine heapAllocate_overflows layout (by omega) ?_
    rw [toNat_heapAllocatorAreaEnd]
    unfold heapSize at full
    omega

end Stores

/-- Memory is not zero at boot; a byte of the first block is stored before the second is
allocated. -/
theorem heapUses_refine_two_blocks :
    ∃ start blocks after, initPaging Layout.sample (Machine.boot fun _ => 0xFF) = .ok () start ∧
      HeapUse.runAll Layout.sample
        [.allocate 3, .put 0 1 7, .allocate 2, .get 0 1, .get 1 0] [] start =
          .ok (blocks, [none, none, none, some 7, some 0]) after := by
  obtain ⟨start, returned, -⟩ := initPaging_of_boot overrunSpares_sample fun _ => 0xFF
  have applied : HeapUse.applyAll
      [.allocate 3, .put 0 1 7, .allocate 2, .get 0 1, .get 1 0] [] =
        some ([[0, 7, 0], [0, 0]], [none, none, none, some 7, some 0]) := by decide
  obtain ⟨blocks, after, run, -, -⟩ := heapUses_refine overrunSpares_sample rfl returned applied
  exact ⟨start, blocks, after, returned, run⟩

end TorchOS.Paging
