import TorchOS.Base.ByteFile
import TorchOS.Filesystem.Ramdisk
import TorchOS.Filesystem.Allocator

/-!
# Files in memory

What it means that a node holds a file, and what each operation of the ramdisk
does to it: the file afterwards, the memory it touched, or the panic.
-/

namespace TorchOS.Filesystem

open Base Base.Program Lib

/-! ## Files -/

/-- The address of the data of a file. -/
def bufferOf (mem : Bytes) (node : UInt32) : UInt32 := mem.load32 (Node.buffer node)

/-- The memory of a file: its node and its data. -/
def footprint (mem : Bytes) (node : UInt32) : Set UInt32 :=
  Span node 168 ∪ Span (bufferOf mem node) 256

/-- The node holds the file. -/
structure FileAt (layout : Layout) (mem : Bytes) (node : UInt32) (file : ByteFile) : Prop where
  type : mem.load32 (Node.type node) = NodeType.file.value
  read : mem.load32 (Node.read node) = layout.ramdiskRead
  write : mem.load32 (Node.write node) = layout.ramdiskWrite
  seek : mem.load32 (Node.seek node) = layout.ramdiskSeek
  offset : (mem.load32 (Node.offset node)).toNat = file.cursor
  canonicalSize : (mem.load32 (Node.canonicalSize node)).toNat = file.bytes.length
  allocatedSize : mem.load32 (Node.allocatedSize node) = 256
  bytes : mem.read (bufferOf mem node) file.bytes.length = file.bytes
  length_le : file.bytes.length ≤ 256
  cursor_le : file.cursor ≤ 256
  apart : Disjoint (Span node 168) (Span (bufferOf mem node) 256)

section Held

variable {layout : Layout} {mem mem' : Bytes} {node : UInt32} {file file' : ByteFile}

/-- A change that keeps a node up to its union, and its buffer, makes it hold what
the offset, the size and the data now say. -/
theorem FileAt.updated (held : FileAt layout mem node file)
    (kept : ∀ address ∈ Span node 152, mem' address = mem address)
    (sameBuffer : bufferOf mem' node = bufferOf mem node)
    (allocatedSize : mem'.load32 (Node.allocatedSize node) = mem.load32 (Node.allocatedSize node))
    (offset : (mem'.load32 (Node.offset node)).toNat = file'.cursor)
    (canonicalSize : (mem'.load32 (Node.canonicalSize node)).toNat = file'.bytes.length)
    (bytes : mem'.read (bufferOf mem node) file'.bytes.length = file'.bytes)
    (length_le : file'.bytes.length ≤ 256) (cursor_le : file'.cursor ≤ 256) :
    FileAt layout mem' node file' where
  type := (load32_field_congr (by decide) kept).trans held.type
  read := (load32_field_congr (by decide) kept).trans held.read
  write := (load32_field_congr (by decide) kept).trans held.write
  seek := (load32_field_congr (by decide) kept).trans held.seek
  offset := offset
  canonicalSize := canonicalSize
  allocatedSize := allocatedSize.trans held.allocatedSize
  bytes := by rw [sameBuffer]; exact bytes
  length_le := length_le
  cursor_le := cursor_le
  apart := by rw [sameBuffer]; exact held.apart

theorem bufferOf_congr (same : ∀ address ∈ Span node 168, mem' address = mem address) :
    bufferOf mem' node = bufferOf mem node :=
  load32_field_congr (by decide) same

theorem footprint_congr (same : ∀ address ∈ footprint mem node, mem' address = mem address) :
    footprint mem' node = footprint mem node := by
  rw [footprint, bufferOf_congr fun address member => same address (.inl member)]
  rfl

/-- Where its node is unchanged, a file is still held, with what its buffer now holds. -/
theorem FileAt.reread (held : FileAt layout mem node file)
    (same : ∀ address ∈ Span node 168, mem' address = mem address) :
    FileAt layout mem' node
      ⟨mem'.read (bufferOf mem node) file.bytes.length, file.cursor⟩ := by
  have length : (mem'.read (bufferOf mem node) file.bytes.length).length = file.bytes.length :=
    Bytes.length_read
  have length_le := held.length_le
  refine held.updated (fun address member => same address (Span.mono (by omega) member))
    (bufferOf_congr same) (load32_field_congr (by decide) same) ?_ ?_ ?_
    (length.trans_le length_le) held.cursor_le
  · exact (congrArg UInt32.toNat (load32_field_congr (by decide) same)).trans held.offset
  · rw [length]
    exact (congrArg UInt32.toNat (load32_field_congr (by decide) same)).trans held.canonicalSize
  · rw [length]

/-- A node holds the bytes of one file only. -/
theorem FileAt.bytes_eq {other : ByteFile} (held : FileAt layout mem node file)
    (also : FileAt layout mem node other) : file.bytes = other.bytes := by
  have length : file.bytes.length = other.bytes.length :=
    held.canonicalSize.symm.trans also.canonicalSize
  rw [← held.bytes, ← also.bytes, length]

/-- A file is still held where its memory is unchanged. -/
theorem FileAt.congr (held : FileAt layout mem node file)
    (same : ∀ address ∈ footprint mem node, mem' address = mem address) :
    FileAt layout mem' node file := by
  have reread := held.reread fun address member => same address (.inl member)
  have bytes : mem'.read (bufferOf mem node) file.bytes.length = file.bytes :=
    (Bytes.read_congr fun address member =>
      same address (.inr (Span.mono held.length_le member))).trans held.bytes
  rwa [bytes] at reread

/-- A store to the offset moves the cursor and nothing else. -/
theorem FileAt.moved (held : FileAt layout mem node file) {position : UInt32}
    (inside : position.toNat ≤ 256) :
    FileAt layout (mem.store32 (Node.offset node) position) node
      { file with cursor := position.toNat } := by
  have sameBuffer : bufferOf (mem.store32 (Node.offset node) position) node = bufferOf mem node :=
    load32_other_field (by decide) (by decide) (by decide)
  refine held.updated (fun address member => ?_) sameBuffer
    (load32_other_field (by decide) (by decide) (by decide)) ?_ ?_ ?_ held.length_le inside
  · exact Bytes.store32_of_notMem
      (Set.disjoint_left.mp (disjoint_field (by decide) (by decide)) member)
  · rw [Bytes.load32_store32]
  · rw [Node.canonicalSize, Node.offset,
      load32_other_field (by decide) (by decide) (by decide)]
    exact held.canonicalSize
  · refine (Bytes.read_congr fun address member => ?_).trans held.bytes
    have inBuffer : address ∈ Span (bufferOf mem node) 256 := Span.mono held.length_le member
    exact Bytes.store32_of_notMem fun inOffset =>
      Set.disjoint_left.mp held.apart (field_subset (by decide) inOffset) inBuffer

/-- The memory after a write to a file: the data in its place, then the new size
and the new offset. -/
def writtenMem (mem : Bytes) (node offset top finish : UInt32) (data : List UInt8) : Bytes :=
  ((mem.write (bufferOf mem node + offset) data).store32 (Node.canonicalSize node) top).store32
    (Node.offset node) finish

/-- Only the union of a node and its data may differ. -/
structure Rewrites (node : UInt32) (mem mem' : Bytes) : Prop where
  buffer : bufferOf mem' node = bufferOf mem node
  kept : ∀ address, address ∉ Span (Node.offset node) 16 →
    address ∉ Span (bufferOf mem node) 256 → mem' address = mem address

theorem Rewrites.outside (rewrites : Rewrites node mem mem') {address : UInt32}
    (outside : address ∉ footprint mem node) : mem' address = mem address :=
  rewrites.kept address
    (fun inUnion => outside (.inl (Span.shift_subset (by decide) inUnion)))
    fun inData => outside (.inr inData)

theorem Rewrites.footprint (rewrites : Rewrites node mem mem') :
    footprint mem' node = footprint mem node := by
  rw [Filesystem.footprint, rewrites.buffer]
  rfl

/-- A file's name lies before the union, and stays. -/
theorem Rewrites.kept_start (rewrites : Rewrites node mem mem')
    (apart : Disjoint (Span node 168) (Span (bufferOf mem node) 256)) :
    ∀ address ∈ Span node 152, mem' address = mem address := by
  intro address inStart
  have zero : node + 0 = node := by grind
  have beforeUnion : Disjoint (Span (node + 0) 152) (Span (node + 152) 16) :=
    Span.shift_disjoint (by decide) (by decide)
  rw [zero] at beforeUnion
  refine rewrites.kept address (Set.disjoint_left.mp beforeUnion inStart) ?_
  exact Set.disjoint_left.mp apart (Span.mono (by omega) inStart)

section Written

variable {offset top finish : UInt32} {data : List UInt8}

/-- The part of the buffer a write fills. -/
theorem target_subset (fits : offset.toNat + data.length ≤ 256) :
    Span (bufferOf mem node + offset) data.length ⊆ Span (bufferOf mem node) 256 :=
  Span.shift_subset fits

/-- The fields of a node are not in its data. -/
theorem load32_written (held : FileAt layout mem node file) {field : UInt32}
    (inside : field.toNat + 4 ≤ 168) (fits : offset.toNat + data.length ≤ 256) :
    (mem.write (bufferOf mem node + offset) data).load32 (node + field) =
      mem.load32 (node + field) := by
  apply Bytes.load32_congr
  intro address inField
  refine Bytes.write_of_notMem fun inTarget => ?_
  exact Set.disjoint_left.mp held.apart (field_subset inside inField) (target_subset fits inTarget)

theorem writtenMem_rewrites (held : FileAt layout mem node file)
    (fits : offset.toNat + data.length ≤ 256) :
    Rewrites node mem (writtenMem mem node offset top finish data) := by
  constructor
  · calc bufferOf (writtenMem mem node offset top finish data) node
      _ = bufferOf ((mem.write (bufferOf mem node + offset) data).store32
            (Node.canonicalSize node) top) node :=
          load32_other_field (by decide) (by decide) (by decide)
      _ = bufferOf (mem.write (bufferOf mem node + offset) data) node :=
          load32_other_field (by decide) (by decide) (by decide)
      _ = bufferOf mem node := load32_written held (by decide) fits
  · intro address outsideUnion outsideData
    have four : (4 : UInt32).toNat = 4 := rfl
    have outsideOffset : address ∉ Span (Node.offset node) 4 :=
      fun inside => outsideUnion (Span.mono (by omega) inside)
    have outsideSize : address ∉ Span (Node.canonicalSize node) 4 := by
      intro inside
      apply outsideUnion
      have later : Node.canonicalSize node = Node.offset node + 8 := by
        unfold Node.canonicalSize Node.offset
        grind
      rw [later] at inside
      exact Span.shift_subset (by decide) inside
    rw [writtenMem, Bytes.store32_of_notMem outsideOffset, Bytes.store32_of_notMem outsideSize]
    exact Bytes.write_of_notMem fun inTarget => outsideData (target_subset fits inTarget)

/-- A write at the cursor makes the node hold the spliced string. -/
theorem FileAt.written (held : FileAt layout mem node file) (atCursor : offset.toNat = file.cursor)
    (inFile : file.cursor ≤ file.bytes.length) (fits : file.cursor + data.length ≤ 256)
    (newEnd : finish.toNat = file.cursor + data.length)
    (newSize : top.toNat = max file.bytes.length (file.cursor + data.length)) :
    FileAt layout (writtenMem mem node offset top finish data) node
      ⟨splice file.bytes file.cursor data, file.cursor + data.length⟩ := by
  have length : (splice file.bytes file.cursor data).length = _ := length_splice inFile
  have length_le := held.length_le
  have rewrites : Rewrites node mem (writtenMem mem node offset top finish data) :=
    writtenMem_rewrites held (by omega)
  have place : offset = UInt32.ofNat file.cursor := by
    rw [← atCursor, UInt32.ofNat_toNat]
  refine held.updated (rewrites.kept_start held.apart) rewrites.buffer ?_ ?_ ?_ ?_ ?_ ?_
  · rw [writtenMem, Node.allocatedSize, Node.offset, Node.canonicalSize,
      load32_other_field (by decide) (by decide) (by decide),
      load32_other_field (by decide) (by decide) (by decide),
      load32_written held (by decide) (by omega)]
  · rw [writtenMem, Bytes.load32_store32]
    exact newEnd
  · rw [writtenMem, Node.canonicalSize, Node.offset,
      load32_other_field (by decide) (by decide) (by decide), Bytes.load32_store32, newSize,
      length]
  · have stored : (mem.write (bufferOf mem node + UInt32.ofNat file.cursor) data).read
        (bufferOf mem node) (max file.bytes.length (file.cursor + data.length)) = _ :=
      Bytes.read_write_splice inFile (by omega) (by omega)
    rw [held.bytes] at stored
    rw [length, ← stored, place]
    apply Bytes.read_congr
    intro address inside
    have inData : address ∈ Span (bufferOf mem node) 256 := Span.mono (by omega) inside
    have outside : ∀ field : UInt32, field.toNat + 4 ≤ 168 → address ∉ Span (node + field) 4 :=
      fun field fieldFits inField =>
        Set.disjoint_left.mp held.apart (field_subset fieldFits inField) inData
    have outsideOffset : address ∉ Span (Node.offset node) 4 := outside 152 (by decide)
    have outsideSize : address ∉ Span (Node.canonicalSize node) 4 := outside 160 (by decide)
    rw [writtenMem, Bytes.store32_of_notMem outsideOffset, Bytes.store32_of_notMem outsideSize]
  · rw [length]
    omega
  · exact fits

end Written

end Held

/-! ## Operations -/

section Operations

variable {layout : Layout} {s : Machine} {node size buffer position : UInt32} {file : ByteFile}

/-- `fs_seek` on a file goes to `ramdisk_seek`. -/
theorem fsSeek_eq (held : FileAt layout s.mem node file) :
    fsSeek layout node position s = ramdiskSeek node position s := by
  have set : decide (s.mem.load32 (Node.seek node) = 0) = false := by
    rw [held.seek, decide_eq_false_iff_not]
    exact layout.ramdiskSeek_ne_null
  rw [fsSeek, bind_of_ok (getWord_run _ _), bind_of_ok (panicIf_run set),
    bind_of_ok (getWord_run _ _), held.seek, callSeek, if_pos rfl]

/-- `fs_write` on a file goes to `ramdisk_write` at its cursor. -/
theorem fsWrite_eq (held : FileAt layout s.mem node file) :
    fsWrite layout node size buffer s =
      ramdiskWrite node (s.mem.load32 (Node.offset node)) size buffer s := by
  have set : decide (s.mem.load32 (Node.write node) = 0) = false := by
    rw [held.write, decide_eq_false_iff_not]
    exact layout.ramdiskWrite_ne_null
  rw [fsWrite, bind_of_ok (getWord_run _ _), bind_of_ok (panicIf_run set),
    bind_of_ok (getWord_run _ _), bind_of_ok (getWord_run _ _), held.write, callTransfer,
    if_neg (Ne.symm layout.read_ne_write), if_pos rfl]

/-- `fs_read` on a file goes to `ramdisk_read` at its cursor. -/
theorem fsRead_eq (held : FileAt layout s.mem node file) :
    fsRead layout node size buffer s =
      ramdiskRead node (s.mem.load32 (Node.offset node)) size buffer s := by
  have set : decide (s.mem.load32 (Node.read node) = 0) = false := by
    rw [held.read, decide_eq_false_iff_not]
    exact layout.ramdiskRead_ne_null
  rw [fsRead, bind_of_ok (getWord_run _ _), bind_of_ok (panicIf_run set),
    bind_of_ok (getWord_run _ _), bind_of_ok (getWord_run _ _), held.read, callTransfer,
    if_pos rfl]

theorem isFile (held : FileAt layout s.mem node file) :
    decide (s.mem.load32 (Node.type node) ≠ NodeType.file.value) = false := by
  rw [decide_eq_false_iff_not, not_not]
  exact held.type

/-- A seek inside the buffer sets the cursor. -/
theorem fsSeek_ok (held : FileAt layout s.mem node file) (inside : position.toNat ≤ 256) :
    fsSeek layout node position s =
      .ok position (s.withMem (s.mem.store32 (Node.offset node) position)) := by
  have valid : (decide (position > s.mem.load32 (Node.allocatedSize node)) ||
      decide (position < 0)) = false := by
    rw [Bool.or_eq_false_iff, decide_eq_false_iff_not, decide_eq_false_iff_not,
      held.allocatedSize, gt_iff_lt, UInt32.lt_iff_toNat_lt, UInt32.lt_iff_toNat_lt]
    change ¬ 256 < position.toNat ∧ ¬ position.toNat < 0
    omega
  rw [fsSeek_eq held, ramdiskSeek, bind_of_ok (getWord_run _ _),
    bind_of_ok (panicIf_run (isFile held)), bind_of_ok (getWord_run _ _),
    bind_of_ok (panicIf_run valid), bind_of_ok (putWord_run _ _ _), pure_run]

/-- A seek past the buffer panics. -/
theorem fsSeek_panics (held : FileAt layout s.mem node file) (outside : 256 < position.toNat) :
    fsSeek layout node position s =
      .error (.panic "Position is invalid during RAMDISK seek!") s := by
  have invalid : (decide (position > s.mem.load32 (Node.allocatedSize node)) ||
      decide (position < 0)) = true := by
    rw [Bool.or_eq_true, decide_eq_true_eq, held.allocatedSize, gt_iff_lt,
      UInt32.lt_iff_toNat_lt]
    exact .inl outside
  rw [fsSeek_eq held, ramdiskSeek, bind_of_ok (getWord_run _ _),
    bind_of_ok (panicIf_run (isFile held)), bind_of_ok (getWord_run _ _),
    bind_of_error (panicIf_panics invalid)]

/-- A write that passes the checks returns, whatever it copied. -/
theorem fsWrite_passes {mem : Bytes} (held : FileAt layout s.mem node file)
    (inFile : ¬ s.mem.load32 (Node.offset node) > s.mem.load32 (Node.canonicalSize node))
    (fits : ¬ s.mem.load32 (Node.offset node) + size > s.mem.load32 (Node.allocatedSize node))
    (copies : memcpy (bufferOf s.mem node + s.mem.load32 (Node.offset node)) buffer size s =
      .ok () (s.withMem mem)) :
    fsWrite layout node size buffer s = .ok size (s.withMem
      ((mem.store32 (Node.canonicalSize node)
        (maxWord (mem.load32 (Node.canonicalSize node))
          (s.mem.load32 (Node.offset node) + size))).store32
        (Node.offset node) (s.mem.load32 (Node.offset node) + size))) := by
  rw [bufferOf] at copies
  rw [fsWrite_eq held, ramdiskWrite, bind_of_ok (getWord_run _ _),
    bind_of_ok (panicIf_run (isFile held)), bind_of_ok (getWord_run _ _),
    bind_of_ok (panicIf_run (decide_eq_false inFile)), bind_of_ok (getWord_run _ _),
    bind_of_ok (panicIf_run (decide_eq_false fits)), bind_of_ok (getWord_run _ _),
    bind_of_ok copies, bind_of_ok (getWord_run _ _), bind_of_ok (putWord_run _ _ _),
    bind_of_ok (putWord_run _ _ _), pure_run]
  rfl

/-- A write at a cursor that is not past the end, and that fits the buffer, stores
whatever `memcpy` copies. -/
theorem fsWrite_copies {data : List UInt8} (held : FileAt layout s.mem node file)
    (inFile : file.cursor ≤ file.bytes.length) (fits : file.cursor + size.toNat ≤ 256)
    (length : data.length = size.toNat)
    (copies : memcpy (bufferOf s.mem node + s.mem.load32 (Node.offset node)) buffer size s =
      .ok () (s.withMem (s.mem.write (bufferOf s.mem node + s.mem.load32 (Node.offset node))
        data))) :
    ∃ mem, fsWrite layout node size buffer s = .ok size (s.withMem mem) ∧
      FileAt layout mem node
        ⟨splice file.bytes file.cursor data, file.cursor + size.toNat⟩ ∧
      Rewrites node s.mem mem := by
  have offset := held.offset
  have canonicalSize := held.canonicalSize
  have length_le := held.length_le
  have finish : (s.mem.load32 (Node.offset node) + size).toNat = file.cursor + size.toNat := by
    rw [UInt32.toNat_add, offset]
    omega
  have first : ¬ s.mem.load32 (Node.offset node) > s.mem.load32 (Node.canonicalSize node) := by
    rw [gt_iff_lt, UInt32.lt_iff_toNat_lt]
    omega
  have second : ¬ s.mem.load32 (Node.offset node) + size >
      s.mem.load32 (Node.allocatedSize node) := by
    rw [gt_iff_lt, UInt32.lt_iff_toNat_lt, finish, held.allocatedSize]
    change ¬ 256 < _
    omega
  have sizeKept : (s.mem.write (bufferOf s.mem node + s.mem.load32 (Node.offset node))
      data).load32 (Node.canonicalSize node) = s.mem.load32 (Node.canonicalSize node) :=
    load32_written held (by decide) (by omega)
  have run := fsWrite_passes held first second copies
  rw [sizeKept] at run
  have newSize : (maxWord (s.mem.load32 (Node.canonicalSize node))
      (s.mem.load32 (Node.offset node) + size)).toNat =
      max file.bytes.length (file.cursor + size.toNat) := by
    rw [toNat_maxWord, canonicalSize, finish]
  refine ⟨_, run, ?_, writtenMem_rewrites held (by omega)⟩
  rw [← length] at finish newSize fits
  have written := held.written offset inFile fits finish newSize
  rwa [length] at written

/-- Such a write overwrites or extends the file with what its source holds, when the
source lies elsewhere. -/
theorem fsWrite_ok (held : FileAt layout s.mem node file)
    (inFile : file.cursor ≤ file.bytes.length) (fits : file.cursor + size.toNat ≤ 256)
    (apart : Disjoint (Span buffer size.toNat) (Span (bufferOf s.mem node) 256)) :
    ∃ mem, fsWrite layout node size buffer s = .ok size (s.withMem mem) ∧
      FileAt layout mem node
        ⟨splice file.bytes file.cursor (s.mem.read buffer size.toNat),
          file.cursor + size.toNat⟩ ∧
      Rewrites node s.mem mem := by
  have offset := held.offset
  have target : Span (bufferOf s.mem node + s.mem.load32 (Node.offset node)) size.toNat ⊆
      Span (bufferOf s.mem node) 256 := Span.shift_subset (by omega)
  exact fsWrite_copies held inFile fits Bytes.length_read
    (memcpy_run (Set.disjoint_of_subset_right target apart))

/-- A write that a check fails panics. -/
theorem fsWrite_refuses (held : FileAt layout s.mem node file)
    (refused : s.mem.load32 (Node.offset node) > s.mem.load32 (Node.canonicalSize node) ∨
      s.mem.load32 (Node.offset node) + size > s.mem.load32 (Node.allocatedSize node))
    (buffer : UInt32) :
    ∃ message, fsWrite layout node size buffer s = .error (.panic message) s := by
  rw [fsWrite_eq held, ramdiskWrite, bind_of_ok (getWord_run _ _),
    bind_of_ok (panicIf_run (isFile held)), bind_of_ok (getWord_run _ _)]
  cases first : decide (s.mem.load32 (Node.offset node) >
      s.mem.load32 (Node.canonicalSize node)) with
  | true => exact ⟨_, bind_of_error (panicIf_panics rfl)⟩
  | false =>
      have second := refused.resolve_left (of_decide_eq_false first)
      rw [bind_of_ok (panicIf_run rfl), bind_of_ok (getWord_run _ _)]
      exact ⟨_, bind_of_error (panicIf_panics (decide_eq_true second))⟩

/-- A write past the end of the file, or past the buffer, panics. -/
theorem fsWrite_panics (held : FileAt layout s.mem node file)
    (wide : file.cursor + size.toNat < 2 ^ 32)
    (refused : ¬ (file.cursor ≤ file.bytes.length ∧ file.cursor + size.toNat ≤ 256))
    (buffer : UInt32) :
    ∃ message, fsWrite layout node size buffer s = .error (.panic message) s := by
  have offset := held.offset
  have canonicalSize := held.canonicalSize
  have finish : (s.mem.load32 (Node.offset node) + size).toNat = file.cursor + size.toNat := by
    rw [UInt32.toNat_add, offset]
    omega
  have limit : (256 : UInt32).toNat = 256 := rfl
  refine fsWrite_refuses held ?_ buffer
  rw [gt_iff_lt, gt_iff_lt, UInt32.lt_iff_toNat_lt, UInt32.lt_iff_toNat_lt, finish,
    held.allocatedSize]
  omega

/-- A read that passes the check returns, whatever it copied. -/
theorem fsRead_passes {mem : Bytes} (held : FileAt layout s.mem node file)
    (inside : ¬ s.mem.load32 (Node.offset node) + size > s.mem.load32 (Node.canonicalSize node))
    (copies : memcpy buffer (bufferOf s.mem node + s.mem.load32 (Node.offset node)) size s =
      .ok () (s.withMem mem)) :
    fsRead layout node size buffer s = .ok size (s.withMem
      (mem.store32 (Node.offset node) (s.mem.load32 (Node.offset node) + size))) := by
  have checks : checkReadEnd node (s.mem.load32 (Node.offset node)) size s = .ok () s := by
    rw [checkReadEnd, bind_of_ok (getWord_run _ _), if_neg inside, pure_run]
  rw [bufferOf] at copies
  rw [fsRead_eq held, ramdiskRead, bind_of_ok (getWord_run _ _),
    bind_of_ok (panicIf_run (isFile held)), bind_of_ok checks, bind_of_ok (getWord_run _ _),
    bind_of_ok copies, bind_of_ok (putWord_run _ _ _), pure_run]
  rfl

/-- A read that ends inside the file delivers its bytes from the cursor on. -/
theorem fsRead_ok (held : FileAt layout s.mem node file)
    (inFile : file.cursor + size.toNat ≤ file.bytes.length)
    (apart : Disjoint (Span buffer size.toNat) (footprint s.mem node)) :
    ∃ mem, fsRead layout node size buffer s = .ok size (s.withMem mem) ∧
      FileAt layout mem node { file with cursor := file.cursor + size.toNat } ∧
      mem.read buffer size.toNat = file.contents size.toNat ∧
      ∀ address, address ∉ Span buffer size.toNat → address ∉ Span (Node.offset node) 4 →
        mem address = s.mem address := by
  have offset := held.offset
  have canonicalSize := held.canonicalSize
  have length_le := held.length_le
  have place : s.mem.load32 (Node.offset node) = UInt32.ofNat file.cursor := by
    rw [← offset, UInt32.ofNat_toNat]
  have finish : (s.mem.load32 (Node.offset node) + size).toNat = file.cursor + size.toNat := by
    rw [UInt32.toNat_add, offset]
    omega
  have inside : ¬ s.mem.load32 (Node.offset node) + size >
      s.mem.load32 (Node.canonicalSize node) := by
    rw [gt_iff_lt, UInt32.lt_iff_toNat_lt, finish]
    omega
  have source : Span (bufferOf s.mem node + s.mem.load32 (Node.offset node)) size.toNat ⊆
      footprint s.mem node := fun address member =>
    .inr (Span.shift_subset (by omega) member)
  have copies := memcpy_run (s := s) (Set.disjoint_of_subset_left source apart.symm)
  have delivered : s.mem.read (bufferOf s.mem node + s.mem.load32 (Node.offset node)) size.toNat =
      file.contents size.toNat := by
    rw [place, Bytes.read_part inFile, held.bytes]
    rfl
  rw [delivered] at copies
  have length : (file.contents size.toNat).length = size.toNat := by
    rw [← delivered, Bytes.length_read]
  have run := fsRead_passes held inside copies
  have kept : ∀ address ∈ footprint s.mem node,
      s.mem.write buffer (file.contents size.toNat) address = s.mem address := by
    intro address inFootprint
    apply Bytes.write_of_notMem
    rw [length]
    exact Set.disjoint_right.mp apart inFootprint
  have inBuffer : (s.mem.load32 (Node.offset node) + size).toNat ≤ 256 := by omega
  have moved := (held.congr kept).moved inBuffer
  rw [finish] at moved
  refine ⟨_, run, moved, ?_, ?_⟩
  · have untouched : Disjoint (Span buffer size.toNat) (Span (Node.offset node) 4) :=
      Set.disjoint_of_subset_right
        (fun _ inOffset => .inl (field_subset (by decide) inOffset)) apart
    have stored : (s.mem.write buffer (file.contents size.toNat)).read buffer
        (file.contents size.toNat).length = _ := Bytes.read_write_same (by omega)
    rw [length] at stored
    refine (Bytes.read_congr fun address member => ?_).trans stored
    exact Bytes.store32_of_notMem (Set.disjoint_left.mp untouched member)
  · intro address outsideBuffer outsideOffset
    rw [Bytes.store32_of_notMem outsideOffset, Bytes.write_of_notMem (by rwa [length])]

/-- A read that the check fails panics. -/
theorem fsRead_refuses (held : FileAt layout s.mem node file)
    (past : s.mem.load32 (Node.offset node) + size > s.mem.load32 (Node.canonicalSize node))
    (buffer : UInt32) :
    ∃ after, fsRead layout node size buffer s =
      .error (.panic "Trying to RAMDISK read past the end of a file!") after := by
  have fails : ∃ after, checkReadEnd node (s.mem.load32 (Node.offset node)) size s =
      .error (.panic "Trying to RAMDISK read past the end of a file!") after := by
    rw [checkReadEnd, bind_of_ok (getWord_run _ _), if_pos past]
    exact ⟨_, bind_of_ok (logf_numbers _ [_, _, _])⟩
  obtain ⟨after, fails⟩ := fails
  refine ⟨after, ?_⟩
  rw [fsRead_eq held, ramdiskRead, bind_of_ok (getWord_run _ _),
    bind_of_ok (panicIf_run (isFile held)), bind_of_error fails]

/-- A read past the end of the file panics. -/
theorem fsRead_panics (held : FileAt layout s.mem node file)
    (wide : file.cursor + size.toNat < 2 ^ 32)
    (outside : file.bytes.length < file.cursor + size.toNat) (buffer : UInt32) :
    ∃ after, fsRead layout node size buffer s =
      .error (.panic "Trying to RAMDISK read past the end of a file!") after := by
  have finish : (s.mem.load32 (Node.offset node) + size).toNat = file.cursor + size.toNat := by
    rw [UInt32.toNat_add, held.offset]
    omega
  refine fsRead_refuses held ?_ buffer
  rw [gt_iff_lt, UInt32.lt_iff_toNat_lt, finish, held.canonicalSize]
  exact outside

end Operations

end TorchOS.Filesystem
