import TorchOS.Base.Run
import TorchOS.Filesystem.Reading

/-!
# The walk over the blocks of an image

The sizes in an image lay its blocks one behind the other. Where they lie in memory that
reading the ramdisk does not change, `read_ramdisk` comes to these blocks in turn, with
one entry in the root directory and 432 bytes of the heap for each one passed.
-/

namespace TorchOS.Filesystem

open Base Base.Program Lib

/-- The memory of an image. -/
def imageSpan (initrdStart initrdEnd : UInt32) : Set UInt32 :=
  {address | initrdStart ≤ address ∧ address < initrdEnd}

/-- The blocks of an image: the first lies at its start, and each one whose size is at most
256 bytes is followed by another while the end is not reached. -/
inductive NthBlock (mem : Bytes) (initrdStart initrdEnd : UInt32) : Nat → UInt32 → Prop where
  | first (more : initrdStart < initrdEnd) : NthBlock mem initrdStart initrdEnd 0 initrdStart
  | next {count : Nat} {current next : UInt32}
      (block : NthBlock mem initrdStart initrdEnd count current)
      (fits : (mem.load32 (RamdiskBlock.size current)).toNat ≤ 256)
      (place : next.toNat =
        current.toNat + (132 + (mem.load32 (RamdiskBlock.size current)).toNat))
      (more : next < initrdEnd) : NthBlock mem initrdStart initrdEnd (count + 1) next

/-- Every block of the image lies in fixed memory, and so does the string at its name, of
which a copy fits the memory left when the heap comes to it. -/
def BlocksFixed (fixed : Set UInt32) (room : Nat) (initrdStart initrdEnd : UInt32)
    (mem : Bytes) : Prop :=
  ∀ count current, NthBlock mem initrdStart initrdEnd count current →
    BlockFixed fixed (room - 432 * count) mem current

/-- The root directory as `init_filesystem` makes it before it reads the ramdisk: empty,
in a block of the heap. -/
structure RootReady (heap : Heap) (s : Machine) : Prop where
  ready : heap.Ready s
  granted : ⟨s.root, nodeSize⟩ ∈ s.kallocs
  empty : EmptyDirectory s.mem s.root

/-- From the block at an address in a state, a round that returns leads to the next. -/
def BlockStep (layout : Layout) (kalloc : UInt32 → Kernel UInt32) (initrdEnd : UInt32)
    (start : UInt32 × Machine) (_ : Unit) (after : UInt32 × Machine) : Prop :=
  start.1 < initrdEnd ∧ readBlock layout kalloc start.1 start.2 = .ok after.1 after.2

/-- The log line `read_ramdisk` begins with. -/
def begun (s : Machine) : Machine :=
  s.withSerial (s.serial ++ [⟨"===== READING FROM RAMDISK =====\n", []⟩])

/-- The walk has passed `count` blocks of the image that memory held at the start. -/
structure Walking (heap : Heap) (layout : Layout) (fixed : Set UInt32)
    (initrdStart initrdEnd : UInt32) (origin : Machine) (count : Nat) (current : UInt32)
    (entries : List UInt32) (files : List (List UInt8)) (s : Machine) : Prop where
  reading : Reading heap layout fixed entries files s
  counted : entries.length = count
  block : current < initrdEnd → NthBlock origin.mem initrdStart initrdEnd count current
  room : heap.room s + 432 * count = heap.room origin
  same : ∀ address ∈ fixed, s.mem address = origin.mem address
  passed : initrdStart.toNat + 132 * count ≤ current.toNat

section Walk

variable {heap : Heap} {layout : Layout} {fixed : Set UInt32} {origin s after : Machine}
  {count : Nat} {entries : List UInt32} {files : List (List UInt8)} {mem mem' : Bytes}
  {current next initrdStart initrdEnd : UInt32}

theorem lt_kernelEnd (bounded : initrdEnd ≤ kernelEnd) (more : current < initrdEnd) :
    current < kernelEnd := by
  rw [UInt32.le_iff_toNat_le] at bounded
  rw [UInt32.lt_iff_toNat_lt] at more ⊢
  omega

/-- Fixed memory is the same in both. -/
theorem BlockFixed.congr {room : Nat} (block : BlockFixed fixed room mem current)
    (same : ∀ address ∈ fixed, mem' address = mem address) :
    mem'.load32 (RamdiskBlock.size current) = mem.load32 (RamdiskBlock.size current) ∧
      BlockFixed fixed room mem' current := by
  have size : mem'.load32 (RamdiskBlock.size current) =
      mem.load32 (RamdiskBlock.size current) :=
    Bytes.load32_congr fun address inSize => same address (block.header (size_subset_header inSize))
  refine ⟨size, block.header, size ▸ block.contents, fun enough => ?_⟩
  obtain ⟨text, string, inFixed, fits⟩ := block.name enough
  exact ⟨text, string.congr fun address inName => same address (inFixed inName), inFixed, fits⟩

theorem RootReady.reading (root : RootReady heap s) (reserve : Disjoint fixed (heap.reserve s))
    (apart : Disjoint fixed (Span s.root 168)) : Reading heap layout fixed [] [] s := by
  have none : ∀ {P : UInt32 → Prop}, ∀ entry ∈ ([] : List UInt32), P entry :=
    fun _ member => absurd member List.not_mem_nil
  refine ⟨root.ready, root.empty, ⟨node_disjoint_reserve root.granted, none, none, none⟩,
    root.granted, none, .nil, none, none, none, reserve, ?_, none⟩
  rw [Set.disjoint_left]
  rintro address inFixed (inRoot | ⟨entry, member, -⟩)
  · exact Set.disjoint_left.mp apart inFixed inRoot
  · exact absurd member List.not_mem_nil

/-- Before the first round no block was passed. -/
theorem RootReady.walking (root : RootReady heap s) (growing : Growing heap)
    (reserve : Disjoint fixed (heap.reserve s)) (apart : Disjoint fixed (Span s.root 168)) :
    Walking heap layout fixed initrdStart initrdEnd s 0 initrdStart [] [] (begun s) :=
  ⟨(root.reading reserve apart).printed growing _, rfl, NthBlock.first, Heap.room_withSerial s _,
    fun _ _ => rfl, Nat.le_refl _⟩

theorem Walking.few
    (walking :
      Walking heap layout fixed initrdStart initrdEnd origin count current entries files s) :
    entries.length + 1 < 2 ^ 32 := by
  have bound := walking.passed
  have wide := current.toNat_lt
  rw [walking.counted]
  omega

/-- A round from a block in fixed memory. -/
theorem Walking.proceeds
    (walking : Walking heap layout fixed initrdStart initrdEnd origin count current entries files s)
    (growing : Growing heap)
    (block : BlockFixed fixed (heap.room origin - 432 * count) origin.mem current) :
    Yields (readBlock layout heap.kalloc current s)
      (fun next after => Advanced heap layout fixed entries files current s next after)
      (fun reason => (∃ message, reason = .panic message) ∧
        (256 < (s.mem.load32 (RamdiskBlock.size current)).toNat ∨ heap.room s < 432)) := by
  have left : heap.room origin - 432 * count = heap.room s := by
    have room := walking.room
    omega
  rw [left] at block
  exact walking.reading.proceeds growing (block.congr walking.same).2 walking.few

/-- A round that returns passes its block: the walk is where the size in it leads to. -/
theorem Walking.passes
    (walking : Walking heap layout fixed initrdStart initrdEnd origin count current entries files s)
    (bounded : initrdEnd ≤ kernelEnd) (more : current < initrdEnd)
    (block : BlockFixed fixed (heap.room origin - 432 * count) origin.mem current)
    (advanced : Advanced heap layout fixed entries files current s next after) :
    (origin.mem.load32 (RamdiskBlock.size current)).toNat ≤ 256 ∧
      next.toNat = current.toNat +
        (132 + (origin.mem.load32 (RamdiskBlock.size current)).toNat) ∧
      ∃ entry, Walking heap layout fixed initrdStart initrdEnd origin (count + 1) next
        (entries ++ [entry]) (files ++ [origin.mem.read (current + blockSize)
          (origin.mem.load32 (RamdiskBlock.size current)).toNat]) after := by
  have roomLeft : heap.room after + 432 * (count + 1) = heap.room origin := by
    rw [← walking.room, ← advanced.room]
    omega
  have enough : 424 ≤ heap.room origin - 432 * count := by
    have before := walking.room
    have room := advanced.room
    omega
  have size := (block.congr walking.same).1
  have fits := advanced.fits
  have moved := advanced.moved
  obtain ⟨entry, reading⟩ := advanced.listed
  rw [size] at fits moved reading
  have contents : s.mem.read (current + blockSize)
      (origin.mem.load32 (RamdiskBlock.size current)).toNat =
      origin.mem.read (current + blockSize)
        (origin.mem.load32 (RamdiskBlock.size current)).toNat :=
    Bytes.read_congr fun address inside =>
      walking.same address (block.contents enough fits inside)
  rw [contents] at reading
  have width : blockSize.toNat = 132 := rfl
  have place : next.toNat = current.toNat +
      (132 + (origin.mem.load32 (RamdiskBlock.size current)).toNat) := by
    have low := UInt32.lt_iff_toNat_lt.mp (lt_kernelEnd bounded more)
    rw [toNat_kernelEnd] at low
    rw [moved, UInt32.toNat_add, UInt32.toNat_add, width]
    omega
  have passed := walking.passed
  refine ⟨fits, place, entry, reading, ?_, .next (walking.block more) fits place, roomLeft,
    fun address inside => (advanced.fixed address inside).trans (walking.same address inside),
    by omega⟩
  rw [List.length_append, List.length_singleton, walking.counted]

end Walk

/-! ## Packed images -/

section Packed

variable {fixed : Set UInt32} {mem : Bytes} {count room : Nat} {files : List PackedFile}
  {current initrdStart initrdEnd : UInt32}

theorem NthBlock.passed (block : NthBlock mem initrdStart initrdEnd count current) :
    initrdStart.toNat + 132 * count ≤ current.toNat ∧ current < initrdEnd := by
  induction block with
  | first more => exact ⟨Nat.le_refl _, more⟩
  | next before fits place more ih => exact ⟨by omega, more⟩

/-- A packed file lies at an address, and the rest of the image behind it. -/
structure PackedAt (mem : Bytes) (initrdEnd current : UInt32) (file : PackedFile)
    (rest : List PackedFile) : Prop where
  block : BlockAt mem current file
  stored : mem.read (current + UInt32.ofNat (132 + file.contents.length))
    (makeInitrd rest).length = makeInitrd rest
  ends : initrdEnd.toNat =
    current.toNat + (132 + file.contents.length) + (makeInitrd rest).length

section Place

variable {file next : PackedFile} {rest : List PackedFile}

theorem PackedAt.of_stored
    (stored : mem.read current (makeInitrd (file :: rest)).length = makeInitrd (file :: rest))
    (ends : initrdEnd.toNat = current.toNat + (makeInitrd (file :: rest)).length) :
    PackedAt mem initrdEnd current file rest := by
  rw [makeInitrd_cons, List.length_append, length_packFile] at ends
  rw [makeInitrd_cons, List.length_append, Bytes.read_add] at stored
  obtain ⟨first, others⟩ := List.append_inj stored Bytes.length_read
  rw [length_packFile] at others
  exact ⟨.of_read first, others, by omega⟩

theorem PackedAt.size (here : PackedAt mem initrdEnd current file rest) :
    (mem.load32 (RamdiskBlock.size current)).toNat = file.contents.length := by
  rw [here.block.size]
  exact UInt32.toNat_ofNat_of_lt' (Nat.lt_of_le_of_lt file.contents_short (by decide))

/-- Where the file behind it lies. -/
theorem PackedAt.place (here : PackedAt mem initrdEnd current file rest) :
    (current + UInt32.ofNat (132 + file.contents.length)).toNat =
      current.toNat + (132 + file.contents.length) := by
  have ends := here.ends
  have wide := initrdEnd.toNat_lt
  rw [UInt32.toNat_add, UInt32.toNat_ofNat']
  omega

/-- The file behind it, if there is one. -/
theorem PackedAt.behind (here : PackedAt mem initrdEnd current file (next :: rest)) :
    PackedAt mem initrdEnd (current + UInt32.ofNat (132 + file.contents.length)) next rest := by
  refine .of_stored here.stored ?_
  rw [here.place]
  exact here.ends

end Place

/-- The blocks of a packed image are those of its files. -/
theorem NthBlock.packed
    (stored : mem.read initrdStart (makeInitrd files).length = makeInitrd files)
    (ends : initrdEnd.toNat = initrdStart.toNat + (makeInitrd files).length)
    (block : NthBlock mem initrdStart initrdEnd count current) :
    ∃ file rest, files.drop count = file :: rest ∧
      PackedAt mem initrdEnd current file rest := by
  induction block with
  | first more =>
      rw [UInt32.lt_iff_toNat_lt] at more
      cases files with
      | nil => exact absurd more (Nat.not_lt.mpr (Nat.le_of_eq ends))
      | cons file rest => exact ⟨file, rest, rfl, .of_stored stored ends⟩
  | @next count current next before fits place more ih =>
      obtain ⟨file, rest, dropped, here⟩ := ih
      rw [here.size] at place
      have position : current + UInt32.ofNat (132 + file.contents.length) = next :=
        UInt32.toNat_inj.mp (here.place.trans place.symm)
      have droppedNext : files.drop (count + 1) = rest := by
        rw [← List.tail_drop, dropped, List.tail_cons]
      cases rest with
      | nil =>
          have last : initrdEnd.toNat = next.toNat := here.ends.trans place.symm
          exact absurd (UInt32.lt_iff_toNat_lt.mp more) (Nat.not_lt.mpr (Nat.le_of_eq last))
      | cons following rest => exact ⟨following, rest, droppedNext, position ▸ here.behind⟩

end Packed

end TorchOS.Filesystem
