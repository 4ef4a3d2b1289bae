import TorchOS.Filesystem.Allocator

/-!
# Heaps that grow upward

A growing heap hands its memory out from low addresses to high ones, block behind
block, up to where it ends, and panics when it is full. The heap that the ramdisk is read
into grows so.
-/

namespace TorchOS.Filesystem

open Base Base.Program

/-- All that is still to be handed out lies above what was handed out, free without a gap
from the next block to the end, and a full heap panics. -/
structure Growing (heap : Heap) where
  finish : Nat
  finish_le : finish ≤ 2 ^ 32
  room_le : ∀ {s}, heap.Ready s → heap.room s ≤ finish
  starts : ∀ {s after} {size start : UInt32}, heap.Ready s → size.toNat ≤ 256 →
    heap.kalloc size s = .ok start after → start.toNat + heap.room s = finish
  free : ∀ {s} {address : UInt32}, heap.Ready s → finish ≤ address.toNat + heap.room s →
    address.toNat < finish → address ∈ unused heap.arena s.kallocs
  ascends : ∀ {s}, heap.Ready s → ∀ block ∈ s.kallocs, ∀ address ∈ heap.reserve s,
    block.start.toNat + block.size.toNat ≤ address.toNat
  panics : ∀ {reason}, heap.HaltsFor reason → ∃ message, reason = .panic message

/-- The addresses below everything that is still to be handed out. -/
def settled (heap : Heap) (s : Machine) : Set UInt32 :=
  {address | ∀ free ∈ heap.reserve s, address.toNat < free.toNat}

section Settled

variable {heap : Heap} {s after : Machine} {block : Block}

theorem settled_disjoint : Disjoint (settled heap s) (heap.reserve s) := by
  rw [Set.disjoint_left]
  exact fun address below free => Nat.lt_irrefl _ (below address free)

theorem settled_mono (grown : s.kallocs ⊆ after.kallocs) : settled heap s ⊆ settled heap after :=
  fun _ below free inReserve => below free (Heap.reserve_anti grown inReserve)

/-- What was handed out is settled. -/
theorem Growing.block_settled (growing : Growing heap) (ready : heap.Ready s)
    (granted : block ∈ s.kallocs) : block.span ⊆ settled heap s := by
  intro address inside free inReserve
  have above := growing.ascends ready block granted free inReserve
  have wide := free.toNat_lt
  rw [Block.span, Span.mem_iff (by omega)] at inside
  omega

/-- What is written from a new block on, as long as it fits the room left, is free memory. -/
theorem Growing.span_free (growing : Growing heap) (ready : heap.Ready s) {start : UInt32}
    (starts : start.toNat + heap.room s = growing.finish) {count : Nat}
    (fits : count ≤ heap.room s) : Span start count ⊆ unused heap.arena s.kallocs := by
  intro address inside
  have limit := growing.finish_le
  rw [Span.mem_iff (by omega)] at inside
  exact growing.free ready (by omega) (by omega)

end Settled

end TorchOS.Filesystem
