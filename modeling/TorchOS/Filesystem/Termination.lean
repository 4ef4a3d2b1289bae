import TorchOS.Filesystem.BootHeap

/-!
# Reading a ramdisk ends

A block's size is any 32-bit word, but `ramdisk_write` panics for more than 256
bytes before `read_ramdisk` adds it, so each round that returns moves `current` up by
132 to 388 bytes. This rests on `kalloc`: where it hands out memory that a block or its
name lies in, the copy of the name can go on for ever.
-/

namespace TorchOS.Filesystem

open Base Base.Program Lib

section Walk

variable {heap : Heap} {layout : Layout} {fixed : Set UInt32} {origin s after : Machine}
  {count : Nat} {entries : List UInt32} {files : List (List UInt8)}
  {current initrdStart initrdEnd : UInt32}

/-- Along the walk there is an entry for each block passed. -/
theorem Walking.walk (growing : Growing heap) (bounded : initrdEnd ≤ kernelEnd)
    (blocks : BlocksFixed fixed (heap.room origin) initrdStart initrdEnd origin.mem)
    {path : List (Unit × UInt32 × Machine)}
    (walking : Walking heap layout fixed initrdStart initrdEnd origin count current entries files s)
    (whole : Path (BlockStep layout heap.kalloc initrdEnd) (current, s) path) :
    ∃ entries' files', Walking heap layout fixed initrdStart initrdEnd origin
      (count + path.length) (finish (current, s) path).1 entries' files'
        (finish (current, s) path).2 := by
  induction path generalizing count current entries files s with
  | nil => exact ⟨entries, files, walking⟩
  | cons head rest ih =>
      obtain ⟨⟨more, returned⟩, later⟩ := whole
      have block := blocks count current (walking.block more)
      have advanced := (walking.proceeds growing block).of_ok returned
      obtain ⟨-, -, entry, next⟩ := walking.passes bounded more block advanced
      obtain ⟨entries', files', last⟩ := ih next later
      refine ⟨entries', files', ?_⟩
      have length : count + (head :: rest).length = count + 1 + rest.length := by
        rw [List.length_cons]
        omega
      rw [length]
      exact last

end Walk

/-! ## A heap inside the image -/

end TorchOS.Filesystem
