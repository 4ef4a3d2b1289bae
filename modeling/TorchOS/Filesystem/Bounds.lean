import TorchOS.Base.Run
import TorchOS.Filesystem.Store

/-!
# Cursors and bounds of files

Which calls keep the cursor inside the file, and which pass the checks of
`ramdisk_read` and `ramdisk_write` although they end past the bound: the exact
conditions, along every path of calls on a file.
-/

namespace TorchOS.Filesystem

open Base Base.Program Lib

/-! ## Calls on one file -/

/-- `node->file.offset` -/
def offsetOf (mem : Bytes) (node : UInt32) : UInt32 := mem.load32 (Node.offset node)

/-- `node->file.canonical_size` -/
def canonicalSizeOf (mem : Bytes) (node : UInt32) : UInt32 := mem.load32 (Node.canonicalSize node)

/-- `node->file.allocated_size` -/
def allocatedSizeOf (mem : Bytes) (node : UInt32) : UInt32 := mem.load32 (Node.allocatedSize node)

/-- The caller's buffer is not the node itself. -/
def Call.Own (node : UInt32) : Call → Prop
  | seek _ => True
  | write _ _ => True
  | read size buffer => Disjoint (Span buffer size.toNat) (Span node 168)

/-- One step in the life of a file: a call on it that returned, or anything that
leaves its node alone. -/
inductive FileStep (layout : Layout) (node : UInt32) : Machine → Option Call → Machine → Prop where
  | called {s after : Machine} {ret : UInt32} {call : Call} (own : call.Own node)
      (returned : call.run layout node s = .ok ret after) : FileStep layout node s (some call) after
  | elsewhere {s after : Machine}
      (kept : ∀ address ∈ Span node 168, after.mem address = s.mem address) :
      FileStep layout node s none after

section Calls

variable {layout : Layout} {s after : Machine} {node size buffer ret : UInt32} {file : ByteFile}
  {call : Call}

/-- A read into memory that is not the node moves the cursor and keeps the size. -/
theorem fsRead_moves (held : FileAt layout s.mem node file)
    (inFile : file.cursor + size.toNat ≤ file.bytes.length)
    (apart : Disjoint (Span buffer size.toNat) (Span node 168)) :
    ∃ after bytes, fsRead layout node size buffer s = .ok size after ∧
      bytes.length = file.bytes.length ∧
      FileAt layout after.mem node ⟨bytes, file.cursor + size.toNat⟩ := by
  have length_le := held.length_le
  have finish : (s.mem.load32 (Node.offset node) + size).toNat = file.cursor + size.toNat := by
    rw [UInt32.toNat_add, held.offset]
    omega
  have inside : ¬ s.mem.load32 (Node.offset node) + size >
      s.mem.load32 (Node.canonicalSize node) := by
    rw [gt_iff_lt, UInt32.lt_iff_toNat_lt, finish, held.canonicalSize]
    omega
  obtain ⟨data, length, copies⟩ := memcpy_writes buffer
    (bufferOf s.mem node + s.mem.load32 (Node.offset node)) size s
  have kept : ∀ address ∈ Span node 168, s.mem.write buffer data address = s.mem address := by
    intro address inNode
    apply Bytes.write_of_notMem
    rw [length]
    exact Set.disjoint_right.mp apart inNode
  have limit : (s.mem.load32 (Node.offset node) + size).toNat ≤ 256 := by omega
  have moved := (held.reread kept).moved limit
  rw [finish] at moved
  exact ⟨_, _, fsRead_passes held inside copies, Bytes.length_read, moved⟩

/-- A seek that returns went inside the buffer. -/
theorem fsSeek_returned {position : UInt32} (held : FileAt layout s.mem node file)
    (returned : fsSeek layout node position s = .ok ret after) :
    position.toNat ≤ 256 ∧ FileAt layout after.mem node { file with cursor := position.toNat } := by
  by_cases inside : position.toNat ≤ 256
  · rw [fsSeek_ok held inside] at returned
    cases returned
    exact ⟨inside, held.moved inside⟩
  · rw [fsSeek_panics held (by omega)] at returned
    cases returned

/-- A write that returns, at an end that does not wrap, started inside the file and
ended inside the buffer. -/
theorem fsWrite_returned (held : FileAt layout s.mem node file)
    (wide : file.cursor + size.toNat < 2 ^ 32)
    (returned : fsWrite layout node size buffer s = .ok ret after) :
    file.cursor ≤ file.bytes.length ∧ file.cursor + size.toNat ≤ 256 ∧
      ∃ bytes, bytes.length = max file.bytes.length (file.cursor + size.toNat) ∧
        FileAt layout after.mem node ⟨bytes, file.cursor + size.toNat⟩ := by
  by_cases fits : file.cursor ≤ file.bytes.length ∧ file.cursor + size.toNat ≤ 256
  · obtain ⟨data, length, copies⟩ := memcpy_writes
      (bufferOf s.mem node + s.mem.load32 (Node.offset node)) buffer size s
    obtain ⟨mem, run, written, -⟩ := fsWrite_copies held fits.1 fits.2 length copies
    rw [run] at returned
    cases returned
    refine ⟨fits.1, fits.2, _, ?_, written⟩
    rw [length_splice fits.1, length]
  · obtain ⟨message, panics⟩ := fsWrite_panics held wide fits buffer
    rw [panics] at returned
    cases returned

/-- A read that returns, at an end that does not wrap, ended inside the file. -/
theorem fsRead_returned (held : FileAt layout s.mem node file)
    (wide : file.cursor + size.toNat < 2 ^ 32)
    (apart : Disjoint (Span buffer size.toNat) (Span node 168))
    (returned : fsRead layout node size buffer s = .ok ret after) :
    file.cursor + size.toNat ≤ file.bytes.length ∧
      ∃ bytes, bytes.length = file.bytes.length ∧
        FileAt layout after.mem node ⟨bytes, file.cursor + size.toNat⟩ := by
  by_cases inFile : file.cursor + size.toNat ≤ file.bytes.length
  · obtain ⟨moved, bytes, run, length, read⟩ := fsRead_moves held inFile apart
    rw [run] at returned
    cases returned
    exact ⟨inFile, bytes, length, read⟩
  · obtain ⟨_, panics⟩ := fsRead_panics held wide (by omega) buffer
    rw [panics] at returned
    cases returned

end Calls

/-! ## The cursor and the file's size -/

section Cursor

variable {layout : Layout} {start s after : Machine} {node : UInt32} {file : ByteFile}

/-- The cursor is in the file and the file in its buffer; so no write is refused for
its offset, and a read of nothing returns. -/
structure CursorInFile (layout : Layout) (node : UInt32) (s : Machine) : Prop where
  inFile : offsetOf s.mem node ≤ canonicalSizeOf s.mem node
  inBuffer : canonicalSizeOf s.mem node ≤ allocatedSizeOf s.mem node
  writes : ∀ size buffer refused, fsWrite layout node size buffer s ≠
    .error (.panic "Trying to RAMDISK write to a node an an invalid offset") refused
  reads : ∀ buffer, ∃ after, fsRead layout node 0 buffer s = .ok 0 after

/-- A write at a cursor in the file is not refused for its offset. -/
theorem fsWrite_offset_valid (held : FileAt layout s.mem node file)
    (inFile : file.cursor ≤ file.bytes.length) (size buffer : UInt32) (refused : Machine) :
    fsWrite layout node size buffer s ≠
      .error (.panic "Trying to RAMDISK write to a node an an invalid offset") refused := by
  have valid : ¬ s.mem.load32 (Node.offset node) > s.mem.load32 (Node.canonicalSize node) := by
    rw [gt_iff_lt, UInt32.lt_iff_toNat_lt, held.offset, held.canonicalSize]
    omega
  by_cases fits : s.mem.load32 (Node.offset node) + size > s.mem.load32 (Node.allocatedSize node)
  · intro run
    rw [fsWrite_eq held, ramdiskWrite, bind_of_ok (getWord_run _ _),
      bind_of_ok (panicIf_run (isFile held)), bind_of_ok (getWord_run _ _),
      bind_of_ok (panicIf_run (decide_eq_false valid)), bind_of_ok (getWord_run _ _),
      bind_of_error (panicIf_panics (decide_eq_true fits))] at run
    simp at run
  · obtain ⟨data, _, copies⟩ := memcpy_writes
      (bufferOf s.mem node + s.mem.load32 (Node.offset node)) buffer size s
    rw [fsWrite_passes held valid fits copies]
    exact fun run => by cases run

/-- On a file, the consequences follow from the bounds. -/
theorem cursorInFile_iff (held : FileAt layout s.mem node file) :
    CursorInFile layout node s ↔ file.cursor ≤ file.bytes.length := by
  have offset : (offsetOf s.mem node).toNat = file.cursor := held.offset
  have size : (canonicalSizeOf s.mem node).toNat = file.bytes.length := held.canonicalSize
  constructor
  · intro inside
    have inFile := UInt32.le_iff_toNat_le.mp inside.inFile
    rwa [offset, size] at inFile
  · intro inFile
    constructor
    · rw [UInt32.le_iff_toNat_le, offset, size]
      exact inFile
    · have allocated : allocatedSizeOf s.mem node = 256 := held.allocatedSize
      rw [UInt32.le_iff_toNat_le, size, allocated]
      exact held.length_le
    · exact fsWrite_offset_valid held inFile
    · intro buffer
      have nothing : Disjoint (Span buffer (0 : UInt32).toNat) (Span node 168) := by
        rw [Set.disjoint_left]
        intro address inside
        exact absurd inside (Nat.not_lt_zero _)
      obtain ⟨after, _, run, _⟩ := fsRead_moves held (by exact inFile) nothing
      exact ⟨after, run⟩

/-- A step whose call has an offset and a size that add up below 2^32. -/
def InRangeStep (layout : Layout) (node : UInt32) (s : Machine) (event : Option Call)
    (after : Machine) : Prop :=
  FileStep layout node s event after ∧ ∀ call, event = some call → call.InRange s.mem node

/-- A seek goes no further than the end of the file. -/
def SeeksInFile (node : UInt32) (s : Machine) (event : Option Call) : Prop :=
  ∀ position, event = some (.seek position) → position ≤ canonicalSizeOf s.mem node

/-- A step keeps the node a file. -/
theorem InRangeStep.keeps {event : Option Call} (held : FileAt layout s.mem node file)
    (step : InRangeStep layout node s event after) :
    ∃ file', FileAt layout after.mem node file' ∧
      (file.cursor ≤ file.bytes.length →
        (file'.cursor ≤ file'.bytes.length ↔ SeeksInFile node s event)) := by
  obtain ⟨taken, inRange⟩ := step
  cases taken with
  | elsewhere kept =>
      refine ⟨_, held.reread kept, fun inFile => ?_⟩
      simp [SeeksInFile, inFile]
  | @called _ ret call own returned =>
      have wide := inRange call rfl
      rw [Call.InRange, held.offset] at wide
      cases call with
      | seek position =>
          obtain ⟨_, sought⟩ := fsSeek_returned held returned
          refine ⟨_, sought, fun _ => ?_⟩
          simp [SeeksInFile, UInt32.le_iff_toNat_le, canonicalSizeOf, held.canonicalSize]
      | write size buffer =>
          obtain ⟨_, _, bytes, length, written⟩ := fsWrite_returned held wide returned
          refine ⟨_, written, fun _ => ?_⟩
          simp [SeeksInFile, length]
      | read size buffer =>
          obtain ⟨inFile, bytes, length, read⟩ := fsRead_returned held wide own returned
          refine ⟨_, read, fun _ => ?_⟩
          simp [SeeksInFile, length, inFile]

/-- From a file with its cursor inside, as a new one has it, the cursor stays in the
file along a path of calls exactly when no call seeks past the end of the file. -/
theorem cursorInFile_iff_seeksInFile {path : List (Option Call × Machine)}
    (held : FileAt layout start.mem node file) (inFile : file.cursor ≤ file.bytes.length)
    (whole : Path (InRangeStep layout node) start path) :
    (∀ reached ∈ path, CursorInFile layout node reached.2) ↔
      Each (SeeksInFile node) start path := by
  apply whole.always_iff (I := fun s => ∃ file, FileAt layout s.mem node file) ⟨file, held⟩
    ((cursorInFile_iff held).mpr inFile)
  · rintro state event after ⟨file, held⟩ step
    obtain ⟨next, heldNext, _⟩ := InRangeStep.keeps held step
    exact ⟨next, heldNext⟩
  · rintro state event after ⟨file, held⟩ inside step
    obtain ⟨next, heldNext, decided⟩ := InRangeStep.keeps held step
    rw [cursorInFile_iff heldNext]
    exact decided ((cursorInFile_iff held).mp inside)

end Cursor

/-! ## The bounds checks -/

section Bounds

variable {layout : Layout} {start s after : Machine} {node : UInt32} {file : ByteFile}
  {call : Call}

/-- How far a call may go: a read to the end of the file, the others to the end of
its buffer. -/
def Call.limit (mem : Bytes) (node : UInt32) : Call → UInt32
  | seek _ => allocatedSizeOf mem node
  | write _ _ => allocatedSizeOf mem node
  | read _ _ => canonicalSizeOf mem node

/-- The call panics when it would end past its limit; when it returns, it copied
inside the file's buffer, and the cursor and the size are still bounded by it. -/
structure Call.Checked (layout : Layout) (node : UInt32) (s : Machine) (call : Call) : Prop where
  refuses : (call.limit s.mem node).toNat < (offsetOf s.mem node).toNat + call.moved →
    ∃ message after, call.run layout node s = .error (.panic message) after
  inside : ∀ {ret after}, call.run layout node s = .ok ret after →
    Span (bufferOf s.mem node + offsetOf s.mem node) call.moved ⊆
      Span (bufferOf s.mem node) (allocatedSizeOf s.mem node).toNat
  bounds : ∀ {ret after}, call.run layout node s = .ok ret after → call.Own node →
    offsetOf after.mem node ≤ allocatedSizeOf after.mem node ∧
      canonicalSizeOf after.mem node ≤ allocatedSizeOf after.mem node

/-- The call's end does not wrap around 2^32, or the call is refused all the same: a
write by the check of its cursor, a read because the size is below even the wrapped end. -/
def Call.WrapRefused (mem : Bytes) (node : UInt32) (call : Call) : Prop :=
  call.InRange mem node ∨
    match call with
    | seek _ => True
    | write _ _ => canonicalSizeOf mem node < offsetOf mem node
    | read size _ => canonicalSizeOf mem node < offsetOf mem node + size

/-- A file's cursor and size are bounded by its buffer. -/
theorem FileAt.bounds (held : FileAt layout s.mem node file) :
    offsetOf s.mem node ≤ allocatedSizeOf s.mem node ∧
      canonicalSizeOf s.mem node ≤ allocatedSizeOf s.mem node := by
  have offset : (offsetOf s.mem node).toNat = file.cursor := held.offset
  have size : (canonicalSizeOf s.mem node).toNat = file.bytes.length := held.canonicalSize
  have allocated : allocatedSizeOf s.mem node = 256 := held.allocatedSize
  rw [UInt32.le_iff_toNat_le, UInt32.le_iff_toNat_le, offset, size, allocated]
  exact ⟨held.cursor_le, held.length_le⟩

/-- A call that panics is checked. -/
theorem Call.Checked.of_panic {message : String} {refused : Machine}
    (panics : call.run layout node s = .error (.panic message) refused) :
    call.Checked layout node s := by
  constructor
  · intro _
    exact ⟨message, refused, panics⟩
  · intro ret after returned
    rw [panics] at returned
    cases returned
  · intro ret after returned
    rw [panics] at returned
    cases returned

/-- Without wrapping, the checks are exact. -/
theorem Call.checked_of_inRange (held : FileAt layout s.mem node file)
    (inRange : call.InRange s.mem node) : call.Checked layout node s := by
  have offset : (offsetOf s.mem node).toNat = file.cursor := held.offset
  have length : (canonicalSizeOf s.mem node).toNat = file.bytes.length := held.canonicalSize
  have allocated : allocatedSizeOf s.mem node = 256 := held.allocatedSize
  have capacity : (allocatedSizeOf s.mem node).toNat = 256 := by
    rw [allocated]
    rfl
  have length_le := held.length_le
  have cursor_le := held.cursor_le
  have wide : file.cursor + call.moved < 2 ^ 32 := by
    rw [← held.offset]
    exact inRange
  cases call with
  | seek position =>
      constructor
      · intro past
        rw [Call.limit, Call.moved, capacity, offset] at past
        omega
      · intro ret after returned
        exact Span.shift_subset (by rw [Call.moved, offset, capacity]; omega)
      · intro ret after returned _
        exact (fsSeek_returned held returned).2.bounds
  | write size buffer =>
      constructor
      · intro past
        rw [Call.limit, Call.moved, capacity, offset] at past
        obtain ⟨message, panics⟩ := fsWrite_panics held wide (by omega) buffer
        exact ⟨message, s, panics⟩
      · intro ret after returned
        obtain ⟨_, fits, _⟩ := fsWrite_returned held wide returned
        exact Span.shift_subset (by rw [Call.moved, offset, capacity]; exact fits)
      · intro ret after returned _
        obtain ⟨_, _, _, _, written⟩ := fsWrite_returned held wide returned
        exact written.bounds
  | read size buffer =>
      constructor
      · intro past
        rw [Call.limit, Call.moved, length, offset] at past
        obtain ⟨after, panics⟩ := fsRead_panics held wide past buffer
        exact ⟨_, after, panics⟩
      · intro ret after returned
        by_cases past : file.bytes.length < file.cursor + size.toNat
        · obtain ⟨refused, panics⟩ := fsRead_panics held wide past buffer
          rw [Call.run, panics] at returned
          cases returned
        · exact Span.shift_subset (by rw [Call.moved, offset, capacity]; omega)
      · intro ret after returned own
        obtain ⟨_, _, _, read⟩ := fsRead_returned held wide own returned
        exact read.bounds

/-- A call is checked exactly when its end does not wrap, or wraps and is refused. -/
theorem Call.checked_iff (held : FileAt layout s.mem node file) :
    call.Checked layout node s ↔ call.WrapRefused s.mem node := by
  have offset : (offsetOf s.mem node).toNat = file.cursor := held.offset
  have cursor_le := held.cursor_le
  constructor
  · intro checked
    by_contra accepted
    obtain ⟨wraps, passes⟩ := not_or.mp accepted
    rw [Call.InRange, held.offset, Nat.not_lt] at wraps
    have limit_lt := (call.limit s.mem node).toNat_lt
    obtain ⟨message, refused, panics⟩ := checked.refuses (by omega)
    cases call with
    | seek position => exact passes trivial
    | write size buffer =>
        have finish : (s.mem.load32 (Node.offset node) + size).toNat =
            file.cursor + size.toNat - 2 ^ 32 := by
          have sizeBound := size.toNat_lt
          rw [Call.moved] at wraps
          rw [UInt32.toNat_add, held.offset]
          omega
        have fits : ¬ s.mem.load32 (Node.offset node) + size >
            s.mem.load32 (Node.allocatedSize node) := by
          have sizeBound := size.toNat_lt
          have capacity : (256 : UInt32).toNat = 256 := rfl
          rw [gt_iff_lt, UInt32.lt_iff_toNat_lt, finish, held.allocatedSize]
          omega
        obtain ⟨data, _, copies⟩ := memcpy_writes
          (bufferOf s.mem node + s.mem.load32 (Node.offset node)) buffer size s
        rw [Call.run, fsWrite_passes held passes fits copies] at panics
        cases panics
    | read size buffer =>
        obtain ⟨data, _, copies⟩ := memcpy_writes buffer
          (bufferOf s.mem node + s.mem.load32 (Node.offset node)) size s
        rw [Call.run, fsRead_passes held passes copies] at panics
        cases panics
  · rintro (inRange | refused)
    · exact Call.checked_of_inRange held inRange
    · cases call with
      | seek position =>
          apply Call.checked_of_inRange held
          rw [Call.InRange, held.offset]
          exact Nat.lt_of_le_of_lt cursor_le (by decide)
      | write size buffer =>
          obtain ⟨message, panics⟩ := fsWrite_refuses held (.inl refused) buffer
          exact .of_panic panics
      | read size buffer =>
          obtain ⟨after, panics⟩ := fsRead_refuses held refused buffer
          exact .of_panic panics

/-- The condition on the call of a step, if it is one. -/
def WrapRefusedStep (node : UInt32) (s : Machine) (event : Option Call) : Prop :=
  ∀ call, event = some call → call.WrapRefused s.mem node

/-- A step whose call does not wrap, or is refused, keeps the node a file. -/
theorem FileStep.keeps {event : Option Call} (held : FileAt layout s.mem node file)
    (refused : WrapRefusedStep node s event) (step : FileStep layout node s event after) :
    ∃ file', FileAt layout after.mem node file' := by
  cases step with
  | elsewhere kept => exact ⟨_, held.reread kept⟩
  | @called _ ret call own returned =>
      rcases refused call rfl with inRange | refuses
      · have step : InRangeStep layout node s (some call) after := by
          refine ⟨.called own returned, ?_⟩
          rintro _ ⟨⟩
          exact inRange
        obtain ⟨next, heldNext, _⟩ := InRangeStep.keeps held step
        exact ⟨next, heldNext⟩
      · cases call with
        | seek position => exact ⟨_, (fsSeek_returned held returned).2⟩
        | write size buffer =>
            obtain ⟨message, panics⟩ := fsWrite_refuses held (.inl refuses) buffer
            rw [Call.run, panics] at returned
            cases returned
        | read size buffer =>
            obtain ⟨_, panics⟩ := fsRead_refuses held refuses buffer
            rw [Call.run, panics] at returned
            cases returned

/-- Along every path of calls that do not wrap or are refused, a file's cursor and
size stay in its buffer, and the checks are exact for just the calls that do not
wrap or are refused. -/
theorem checked_iff_wrapRefused {path : List (Option Call × Machine)}
    (held : FileAt layout start.mem node file) (whole : Path (FileStep layout node) start path)
    (each : Each (WrapRefusedStep node) start path) :
    (offsetOf (finish start path).mem node ≤ allocatedSizeOf (finish start path).mem node ∧
      canonicalSizeOf (finish start path).mem node ≤
        allocatedSizeOf (finish start path).mem node) ∧
    ∀ call : Call, call.Checked layout node (finish start path) ↔
      call.WrapRefused (finish start path).mem node := by
  obtain ⟨reached, heldReached⟩ : ∃ file, FileAt layout (finish start path).mem node file := by
    apply whole.invariant (I := fun s => ∃ file, FileAt layout s.mem node file) each ⟨file, held⟩
    rintro state event after ⟨file, held⟩ refused step
    exact FileStep.keeps held refused step
  exact ⟨heldReached.bounds, fun call => Call.checked_iff heldReached⟩

end Bounds

/-! ## A new file and a written one -/

/-- A seek to the end of the buffer leaves an empty file, and is not refused. -/
theorem seek_leaves_file : ∃ node start after,
    fsConstructNode Layout.sample (mappedHeap Layout.sample).kalloc 0x1000 .file helloMachine =
      .ok node start ∧
    InRangeStep Layout.sample node start (some (.seek 256)) after ∧
    ¬ CursorInFile Layout.sample node after := by
  obtain ⟨node, start, constructs, constructed⟩ := helloFile_constructed
  have held := constructed.held
  have returned := fsSeek_ok held (by decide : (256 : UInt32).toNat ≤ 256)
  refine ⟨node, start, _, constructs, ⟨.called trivial returned, ?_⟩, ?_⟩
  · rintro _ ⟨⟩
    rw [Call.InRange, held.offset]
    decide
  · rw [cursorInFile_iff (held.moved (by decide))]
    decide

/-- In the file that holds `Hello`, a seek to offset 2 and a read of the last 3 bytes. -/
theorem helloFile_reread : ∃ node start sought after bytes,
    FileAt Layout.sample start.mem node ⟨[72, 101, 108, 108, 111], 5⟩ ∧
    (fsSeek Layout.sample node 2 start = .ok 2 sought ∧
      FileAt Layout.sample sought.mem node ⟨[72, 101, 108, 108, 111], 2⟩) ∧
    (Disjoint (Span 0x2000 (3 : UInt32).toNat) (Span node 168) ∧
      fsRead Layout.sample node 3 0x2000 sought = .ok 3 after) ∧
    bytes.length = 5 ∧ FileAt Layout.sample after.mem node ⟨bytes, 5⟩ := by
  obtain ⟨node, s, run, held, inHeap⟩ := helloFile_written
  have apart : Disjoint (Span 0x2000 (3 : UInt32).toNat) (Span node 168) :=
    Set.disjoint_of_subset_right (Set.subset_union_left.trans inHeap)
      (low_disjoint_heapArena (by decide))
  have sought := held.moved (by decide : (2 : UInt32).toNat ≤ 256)
  obtain ⟨after, bytes, returned, length, read⟩ :=
    fsRead_moves (s := s.withMem _) sought (by decide) apart
  exact ⟨node, s, _, after, bytes, held, ⟨fsSeek_ok held (by decide), sought⟩, ⟨apart, returned⟩,
    length, read⟩

theorem cursorInFile_iff_seeksInFile_hello : ∃ node start sought after,
    InRangeStep Layout.sample node start (some (.seek 2)) sought ∧
    InRangeStep Layout.sample node sought (some (.read 3 0x2000)) after ∧
    CursorInFile Layout.sample node sought ∧ CursorInFile Layout.sample node after := by
  obtain ⟨node, start, sought, after, bytes, held, ⟨seeks, moved⟩, ⟨own, reads⟩, -⟩ :=
    helloFile_reread
  have first : InRangeStep Layout.sample node start (some (.seek 2)) sought := by
    refine ⟨.called trivial seeks, ?_⟩
    rintro _ ⟨⟩
    rw [Call.InRange, held.offset]
    decide
  have second : InRangeStep Layout.sample node sought (some (.read 3 0x2000)) after := by
    refine ⟨.called own reads, ?_⟩
    rintro _ ⟨⟩
    rw [Call.InRange, moved.offset]
    decide
  have whole : Path (InRangeStep Layout.sample node) start
      [(some (.seek 2), sought), (some (.read 3 0x2000), after)] := ⟨first, second, trivial⟩
  have inside := (cursorInFile_iff_seeksInFile held (by decide) whole).mpr ⟨?_, ?_, trivial⟩
  · exact ⟨node, start, sought, after, first, second, inside _ List.mem_cons_self,
      inside _ (List.mem_cons_of_mem _ List.mem_cons_self)⟩
  · rintro position ⟨⟩
    rw [canonicalSizeOf, UInt32.le_iff_toNat_le, held.canonicalSize]
    decide
  · rintro position ⟨⟩

/-- At offset 5 of a file of 5 bytes, a read of 2^32 - 5 bytes is not refused. -/
theorem wrapped_read_returns : ∃ node s after,
    FileAt Layout.sample s.mem node ⟨[72, 101, 108, 108, 111], 5⟩ ∧
    (canonicalSizeOf s.mem node).toNat <
      (offsetOf s.mem node).toNat + (0xFFFFFFFB : UInt32).toNat ∧
    fsRead Layout.sample node 0xFFFFFFFB 0x2000 s = .ok 0xFFFFFFFB after := by
  obtain ⟨node, s, run, held, -⟩ := helloFile_written
  have offset : s.mem.load32 (Node.offset node) = 5 :=
    UInt32.toNat_inj.mp (held.offset.trans rfl)
  obtain ⟨data, _, copies⟩ := memcpy_writes 0x2000
    (bufferOf s.mem node + s.mem.load32 (Node.offset node)) 0xFFFFFFFB s
  refine ⟨node, s, _, held, ?_, fsRead_passes held ?_ copies⟩
  · rw [canonicalSizeOf, held.canonicalSize, offsetOf, offset]
    decide
  · rw [offset, gt_iff_lt, UInt32.lt_iff_toNat_lt, held.canonicalSize]
    decide

/-- After a seek and a read, one byte more is refused, and 2^32 - 5 bytes are not. -/
theorem checked_iff_wrapRefused_hello : ∃ node start sought after,
    Path (FileStep Layout.sample node) start
      [(some (.seek 2), sought), (some (.read 3 0x2000), after)] ∧
    (Call.read 1 0x2000).Checked Layout.sample node after ∧
    ¬ (Call.read 0xFFFFFFFB 0x2000).Checked Layout.sample node after := by
  obtain ⟨node, start, sought, after, bytes, held, ⟨seeks, moved⟩, ⟨own, reads⟩, length, read⟩ :=
    helloFile_reread
  have whole : Path (FileStep Layout.sample node) start
      [(some (.seek 2), sought), (some (.read 3 0x2000), after)] :=
    ⟨.called trivial seeks, .called own reads, trivial⟩
  have refused : Each (WrapRefusedStep node) start
      [(some (.seek 2), sought), (some (.read 3 0x2000), after)] := by
    refine ⟨?_, ?_, trivial⟩
    · rintro _ ⟨⟩
      exact .inr trivial
    · rintro _ ⟨⟩
      refine .inl ?_
      rw [Call.InRange, moved.offset]
      decide
  have offset : offsetOf after.mem node = 5 := UInt32.toNat_inj.mp (read.offset.trans rfl)
  have size : canonicalSizeOf after.mem node = 5 :=
    UInt32.toNat_inj.mp (read.canonicalSize.trans (by exact length))
  have decided : ∀ call : Call, call.Checked Layout.sample node after ↔
      call.WrapRefused after.mem node := (checked_iff_wrapRefused held whole refused).2
  refine ⟨node, start, sought, after, whole, (decided _).mpr (.inl ?_), fun checked => ?_⟩
  · rw [Call.InRange, read.offset]
    exact (by decide : 5 + (1 : UInt32).toNat < 2 ^ 32)
  · have passes := (decided _).mp checked
    change (offsetOf after.mem node).toNat + _ < 2 ^ 32 ∨
      canonicalSizeOf after.mem node < offsetOf after.mem node + 0xFFFFFFFB at passes
    rw [offset, size] at passes
    revert passes
    decide

end TorchOS.Filesystem
