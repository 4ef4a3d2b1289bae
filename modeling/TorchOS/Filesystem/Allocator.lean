import TorchOS.Paging.Heap

/-!
# What the filesystem relies on of `kalloc`

A `Heap` hands out blocks of an arena that overlap no block handed out before, and
leaves all memory alone that it has handed out or does not own. It may keep books in
memory, which it never hands out; an `Allocator` keeps none. The kernel's own
`heap_allocate` is one, on a heap whose pages are all mapped.
-/

namespace TorchOS.Filesystem

open Base Base.Program

/-- The addresses of an arena that no block handed out covers. -/
def unused (arena : Set UInt32) (kallocs : List Block) : Set UInt32 :=
  {address | address ∈ arena ∧ ∀ block ∈ kallocs, address ∉ block.span}

/-- The machines agree in all a heap keeps outside memory. -/
structure SameHeap (before after : Machine) : Prop where
  paging : after.paging = before.paging
  cr3 : after.cr3 = before.cr3
  pageFrameBitmap : after.pageFrameBitmap = before.pageFrameBitmap
  pageTableBitmap : after.pageTableBitmap = before.pageTableBitmap
  heapCurrent : after.heapCurrent = before.heapCurrent
  heapMapped : after.heapMapped = before.heapMapped
  kallocs : after.kallocs = before.kallocs

theorem SameHeap.withMem (s : Machine) (mem : Bytes) : SameHeap s (s.withMem mem) :=
  ⟨rfl, rfl, rfl, rfl, rfl, rfl, rfl⟩

theorem SameHeap.withSerial (s : Machine) (serial : List LogLine) :
    SameHeap s (s.withSerial serial) :=
  ⟨rfl, rfl, rfl, rfl, rfl, rfl, rfl⟩

/-- A block of `size` bytes was handed out at `start`. -/
structure Allocation (arena books : Set UInt32) (size : UInt32) (before : Machine)
    (start : UInt32) (after : Machine) : Prop where
  ne_null : start ≠ 0
  inArena : Span start size.toNat ⊆ unused arena before.kallocs
  kept : ∀ address ∉ unused (arena ∪ books) before.kallocs,
    after.mem address = before.mem address
  kallocs : after.kallocs = before.kallocs ++ [⟨start, size⟩]
  root : after.root = before.root

/-- A heap: while it is `Ready`, a request of up to 256 bytes is granted, or stops the
kernel when the request exceeds the room left. Of memory it reads no more than its
books. -/
structure Heap where
  kalloc : UInt32 → Kernel UInt32
  arena : Set UInt32
  books : Set UInt32
  books_apart : Disjoint arena books
  Ready : Machine → Prop
  room : Machine → Nat
  ready_congr : ∀ {before after}, SameHeap before after →
    (∀ address ∈ unused books before.kallocs, after.mem address = before.mem address) →
    Ready before → Ready after
  room_congr : ∀ {before after}, SameHeap before after → room after = room before
  yields : ∀ {s} {size : UInt32}, Ready s → size.toNat ≤ 256 →
    Yields (kalloc size s)
      (fun start after => Allocation arena books size s start after ∧ Ready after ∧
        room after + size.toNat = room s)
      (fun _ => room s < size.toNat)

/-- A heap that keeps nothing in memory. -/
structure Allocator extends Heap where
  books_empty : books = ∅

instance : Coe Allocator Heap := ⟨Allocator.toHeap⟩

theorem unused_mono {arena larger : Set UInt32} (inside : arena ⊆ larger) (kallocs : List Block) :
    unused arena kallocs ⊆ unused larger kallocs :=
  fun _ member => ⟨inside member.1, member.2⟩

theorem Allocation.fresh {arena books : Set UInt32} {size start : UInt32}
    {before after : Machine} (allocation : Allocation arena books size before start after) :
    Span start size.toNat ⊆ unused (arena ∪ books) before.kallocs :=
  allocation.inArena.trans (unused_mono Set.subset_union_left _)

namespace Heap

variable (heap : Heap)

/-- The heap stops the kernel for this reason. -/
def HaltsFor (reason : Halt) : Prop :=
  ∃ s size after, heap.Ready s ∧ size.toNat ≤ 256 ∧ heap.kalloc size s = .error reason after

/-- The memory the heap may still change: what it has yet to hand out, and its books. -/
def reserve (s : Machine) : Set UInt32 := unused (heap.arena ∪ heap.books) s.kallocs

variable {heap} {s after : Machine} {block : Block}

/-- Code that leaves the reserve and all outside memory alone keeps the heap ready. -/
theorem ready_of_kept (ready : heap.Ready s) (same : SameHeap s after)
    (kept : ∀ address ∈ heap.reserve s, after.mem address = s.mem address) : heap.Ready after :=
  heap.ready_congr same (fun address inBooks =>
    kept address (unused_mono Set.subset_union_right _ inBooks)) ready

theorem ready_withSerial (ready : heap.Ready s) (serial : List LogLine) :
    heap.Ready (s.withSerial serial) :=
  ready_of_kept ready (SameHeap.withSerial s serial) fun _ _ => rfl

theorem room_withSerial (s : Machine) (serial : List LogLine) :
    heap.room (s.withSerial serial) = heap.room s :=
  heap.room_congr (SameHeap.withSerial s serial)

theorem room_withMem (s : Machine) (mem : Bytes) : heap.room (s.withMem mem) = heap.room s :=
  heap.room_congr (SameHeap.withMem s mem)

/-- Code that stores only to memory that was handed out keeps the heap ready. -/
theorem ready_of_granted {mem : Bytes} {region : Set UInt32} (ready : heap.Ready s)
    (granted : Disjoint region (heap.reserve s))
    (kept : ∀ address ∉ region, mem address = s.mem address) : heap.Ready (s.withMem mem) :=
  ready_of_kept ready (SameHeap.withMem s mem) fun address inReserve =>
    kept address fun inside => Set.disjoint_left.mp granted inside inReserve

/-- A block that was handed out is not in the reserve. -/
theorem disjoint_reserve (granted : block ∈ s.kallocs) :
    Disjoint block.span (heap.reserve s) := by
  rw [Set.disjoint_left]
  rintro address inside ⟨-, unused⟩
  exact unused block granted inside

/-- A request is granted, or the heap halts for want of room. -/
theorem grants (ready : heap.Ready s) {size : UInt32} (small : size.toNat ≤ 256) :
    Yields (heap.kalloc size s)
      (fun start after => Allocation heap.arena heap.books size s start after ∧ heap.Ready after ∧
        heap.room after + size.toNat = heap.room s)
      (fun reason => heap.room s < size.toNat ∧ heap.HaltsFor reason) := by
  have yields := heap.yields ready small
  cases run : heap.kalloc size s with
  | ok start after => exact yields.of_ok run
  | error reason after => exact ⟨yields.of_error run, s, size, after, ready, small, run⟩

/-- A request that fits the room left is granted. -/
theorem returns (ready : heap.Ready s) {size : UInt32} (small : size.toNat ≤ 256)
    (enough : size.toNat ≤ heap.room s) :
    ∃ start after, heap.kalloc size s = .ok start after ∧
      Allocation heap.arena heap.books size s start after ∧ heap.Ready after ∧
      heap.room after + size.toNat = heap.room s :=
  ((heap.yields ready small).mono (fun _ _ granted => granted)
    fun _ full => Nat.not_lt.mpr enough full).returns

/-- The reserve shrinks as blocks are handed out. -/
theorem reserve_anti (grown : s.kallocs ⊆ after.kallocs) :
    heap.reserve after ⊆ heap.reserve s := by
  rintro address ⟨inside, unused⟩
  exact ⟨inside, fun block member => unused block (grown member)⟩

end Heap

/-- What a heap without books is ready for does not depend on memory. -/
theorem Allocator.ready_withMem {heap : Allocator} {s : Machine} (ready : heap.Ready s)
    (mem : Bytes) : heap.Ready (s.withMem mem) :=
  heap.ready_congr (SameHeap.withMem s mem)
    (fun _ inBooks => (heap.books_empty ▸ inBooks.1 : _ ∈ (∅ : Set UInt32)).elim) ready

/-! ## `heap_allocate` on a mapped heap -/

/-- Paging is off, every page of the heap area is mapped, and every block handed
out ends below the top of the heap. -/
structure MappedHeap (s : Machine) : Prop where
  unpaged : s.paging = false
  above : heapAllocatorAreaStart.toNat ≤ s.heapCurrent.toNat
  below : s.heapCurrent.toNat ≤ heapAllocatorAreaEnd.toNat
  mapped : s.heapMapped = heapAllocatorAreaEnd
  blocks : ∀ block ∈ s.kallocs, block.start.toNat + block.size.toNat ≤ s.heapCurrent.toNat

/-- The bytes left above the top of the heap. -/
def heapRoom (s : Machine) : Nat := heapAllocatorAreaEnd.toNat - s.heapCurrent.toNat

/-- The addresses of the heap area. -/
def heapArena : Set UInt32 := Span heapAllocatorAreaStart 0x02000000

theorem mem_heapArena {address : UInt32} : address ∈ heapArena ↔
    heapAllocatorAreaStart.toNat ≤ address.toNat ∧
      address.toNat < heapAllocatorAreaEnd.toNat := by
  rw [heapArena, Span.mem_iff (by decide), toNat_heapAllocatorAreaStart,
    toNat_heapAllocatorAreaEnd]

section Mapped

variable {layout : Layout} {s : Machine} {size : UInt32}

theorem heapAllocate_of_full (full : heapAllocatorAreaEnd.toNat < (s.heapCurrent + size).toNat) :
    Paging.heapAllocate layout size s =
      .error (.panic "Heap is overflowing! Cannot allocate!") s := by
  have fails : decide (s.heapCurrent + size > heapAllocatorAreaEnd) = true := by
    rwa [decide_eq_true_eq, gt_iff_lt, UInt32.lt_iff_toNat_lt]
  rw [Paging.heapAllocate, bind_of_ok (read_run _ _), panicIf, fails]
  exact bind_of_error (haltIf_true _ _)

/-- On a mapped heap a request takes the next bytes, or panics when they pass the end. -/
theorem heapAllocate_cases (layout : Layout) (heap : MappedHeap s) (small : size.toNat ≤ 256) :
    (heapRoom s < size.toNat ∧ Paging.heapAllocate layout size s =
        .error (.panic "Heap is overflowing! Cannot allocate!") s) ∨
      (size.toNat ≤ heapRoom s ∧ (s.heapCurrent + size).toNat = s.heapCurrent.toNat + size.toNat ∧
        Paging.heapAllocate layout size s = .ok s.heapCurrent { s with
          mem := s.mem.write s.heapCurrent (List.replicate size.toNat 0)
          heapCurrent := s.heapCurrent + size
          kallocs := s.kallocs ++ [⟨s.heapCurrent, size⟩] }) := by
  have below := heap.below
  rw [toNat_heapAllocatorAreaEnd] at below
  have top : (s.heapCurrent + size).toNat = s.heapCurrent.toNat + size.toNat := by
    rw [UInt32.toNat_add]
    omega
  rw [heapRoom, toNat_heapAllocatorAreaEnd]
  by_cases full : heapAllocatorAreaEnd.toNat < (s.heapCurrent + size).toNat
  · refine .inl ⟨?_, heapAllocate_of_full full⟩
    rw [toNat_heapAllocatorAreaEnd] at full
    omega
  · have covered : (s.heapCurrent + size).toNat ≤ s.heapMapped.toNat := by
      rw [heap.mapped]
      omega
    refine .inr ⟨?_, top, Paging.heapAllocate_of_covered heap.unpaged (by omega) covered⟩
    rw [toNat_heapAllocatorAreaEnd] at full
    omega

theorem heapAllocate_mapped (heap : MappedHeap s) (small : size.toNat ≤ 256) :
    Yields (Paging.heapAllocate layout size s)
      (fun start after => Allocation heapArena ∅ size s start after ∧ MappedHeap after ∧
        heapRoom after + size.toNat = heapRoom s)
      (fun _ => heapRoom s < size.toNat) := by
  have above := heap.above
  rw [toNat_heapAllocatorAreaStart] at above
  rcases heapAllocate_cases layout heap small with ⟨full, halts⟩ | ⟨fits, top, grants⟩
  · rw [halts]
    exact full
  · rw [grants]
    rw [heapRoom, toNat_heapAllocatorAreaEnd] at fits
    have below := heap.below
    rw [toNat_heapAllocatorAreaEnd] at below
    have span : ∀ address ∈ Span s.heapCurrent size.toNat,
        s.heapCurrent.toNat ≤ address.toNat ∧
          address.toNat < s.heapCurrent.toNat + size.toNat := by
      intro address inside
      rwa [Span.mem_iff (by omega)] at inside
    have fresh : Span s.heapCurrent size.toNat ⊆ unused heapArena s.kallocs := by
      intro address inside
      have bounds := span address inside
      refine ⟨mem_heapArena.mpr ?_, ?_⟩
      · rw [toNat_heapAllocatorAreaStart, toNat_heapAllocatorAreaEnd]
        omega
      · intro block member covers
        have ends := heap.blocks block member
        rw [Block.span, Span.mem_iff (by omega)] at covers
        omega
    refine ⟨⟨?_, fresh, ?_, rfl, rfl⟩, ⟨heap.unpaged, ?_, ?_, heap.mapped, ?_⟩, ?_⟩
    · intro null
      have zero : s.heapCurrent.toNat = 0 := congrArg UInt32.toNat null
      omega
    · intro address outside
      apply Bytes.write_of_notMem
      rw [List.length_replicate]
      exact fun inside => outside (unused_mono Set.subset_union_left _ (fresh inside))
    · change _ ≤ (s.heapCurrent + size).toNat
      rw [toNat_heapAllocatorAreaStart]
      omega
    · change (s.heapCurrent + size).toNat ≤ _
      rw [toNat_heapAllocatorAreaEnd]
      omega
    · change ∀ block ∈ s.kallocs ++ [_], _ ≤ (s.heapCurrent + size).toNat
      intro block member
      rcases List.mem_append.mp member with old | new
      · have ends := heap.blocks block old
        omega
      · rw [List.mem_singleton.mp new, top]
    · change heapAllocatorAreaEnd.toNat - (s.heapCurrent + size).toNat + _ = heapRoom s
      rw [heapRoom, toNat_heapAllocatorAreaEnd]
      omega

/-- `heap_allocate` as an allocator of the mapped heap. -/
def mappedHeap (layout : Layout) : Allocator where
  kalloc := Paging.heapAllocate layout
  arena := heapArena
  books := ∅
  books_apart := Set.disjoint_empty _
  Ready := MappedHeap
  room := heapRoom
  ready_congr := by
    rintro before after same - ⟨unpaged, above, below, mapped, blocks⟩
    rw [← same.paging] at unpaged
    rw [← same.heapCurrent] at above below blocks
    rw [← same.heapMapped] at mapped
    rw [← same.kallocs] at blocks
    exact ⟨unpaged, above, below, mapped, blocks⟩
  room_congr := by
    intro before after same
    rw [heapRoom, heapRoom, same.heapCurrent]
  yields := heapAllocate_mapped
  books_empty := rfl

theorem mappedHeap_reserve_subset : (mappedHeap layout).reserve s ⊆ heapArena := by
  rintro address ⟨inArena | inBooks, -⟩
  · exact inArena
  · exact inBooks.elim

end Mapped

end TorchOS.Filesystem
