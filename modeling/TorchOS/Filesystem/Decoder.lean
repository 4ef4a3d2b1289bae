import TorchOS.Filesystem.BootHeap
import TorchOS.Filesystem.Copying

/-!
# What the ramdisk decoder reads of its image

`read_ramdisk` once more, with a trace of every address it reads from the image:
the strings it prints, the size and the name of each block, and the contents that
`fs_write` copies. Forgetting the trace gives `read_ramdisk` back.
-/

namespace TorchOS.Filesystem

open Base Base.Program Lib

/-- Code that keeps a trace of the image addresses it reads. -/
abbrev Decoder := Program Halt (Watched Machine UInt32)

/-- The addresses read from a string: up to its zero byte. -/
def stringReads (mem : Bytes) : Nat → UInt32 → List UInt32
  | 0, _ => []
  | fuel + 1, address =>
      address :: if mem address = 0 then [] else stringReads mem fuel (address + 1)

/-- The addresses of a span, in order. -/
def spanReads (start : UInt32) (count : Nat) : List UInt32 :=
  (List.range count).map fun index => start + UInt32.ofNat index

section Watched

variable (layout : Layout) (kalloc : UInt32 → Kernel UInt32)

/-- `logf` with one string of the image. -/
def watchedLogf (format : String) (address : UInt32) : Decoder Unit := do
  watch fun s => stringReads s.mem loopBound address
  unwatched (logf format [.str address])

/-- The size of the block at `current`. -/
def watchedSize (current : UInt32) : Decoder UInt32 := do
  watch fun _ => spanReads (RamdiskBlock.size current) 4
  unwatched (getWord (RamdiskBlock.size current))

/-- `memcpy`, from the image. -/
def watchedMemcpy (destination source num : UInt32) : Decoder Unit := do
  watch fun _ => spanReads source num.toNat
  unwatched (memcpy destination source num)

/-- `ramdisk_write`, from a buffer in the image. -/
def watchedRamdiskWrite (node offset size buffer : UInt32) : Decoder UInt32 := do
  unwatched (panicIf ((← unwatched (getWord (Node.type node))) ≠ NodeType.file.value)
    "Trying to RAMDISK write to a node that is not a file!")
  unwatched (panicIf (offset > (← unwatched (getWord (Node.canonicalSize node))))
    "Trying to RAMDISK write to a node an an invalid offset")
  unwatched (panicIf (offset + size > (← unwatched (getWord (Node.allocatedSize node)))) "Uh-oh")
  watchedMemcpy ((← unwatched (getWord (Node.buffer node))) + offset) buffer size
  unwatched (putWord (Node.canonicalSize node)
    (maxWord (← unwatched (getWord (Node.canonicalSize node))) (offset + size)))
  unwatched (putWord (Node.offset node) (offset + size))
  pure size

/-- A call through `node->write`. -/
def watchedCallTransfer (pointer node offset size buffer : UInt32) : Decoder UInt32 :=
  if pointer = layout.ramdiskRead then unwatched (ramdiskRead node offset size buffer)
  else if pointer = layout.ramdiskWrite then watchedRamdiskWrite node offset size buffer
  else halt (.wildCall pointer)

/-- `fs_write`, from a buffer in the image. -/
def watchedFsWrite (node size buffer : UInt32) : Decoder UInt32 := do
  unwatched (panicIf ((← unwatched (getWord (Node.write node))) = 0)
    "fs_write function pointer not set!")
  watchedCallTransfer layout (← unwatched (getWord (Node.write node))) node
    (← unwatched (getWord (Node.offset node))) size buffer

/-- One round of `read_ramdisk`. -/
def watchedReadBlock (current : UInt32) : Decoder UInt32 := do
  let contents := current + blockSize
  watchedLogf "Name: %s\n" (RamdiskBlock.name current)
  unwatched (logf "\tSize: %u\n" [.number (← watchedSize current)])
  watchedLogf "\tContents: %s\n" contents
  let temp ← watchedConstruct ByteCopy.source layout kalloc (RamdiskBlock.name current) .file
  unwatched (logf "%u\n" [.number (← unwatched (getWord (Node.allocatedSize temp)))])
  unwatched (logf "%u\n" [.number (← watchedSize current)])
  let _ ← watchedFsWrite layout temp (← watchedSize current) contents
  unwatched (fsAddDirent kalloc (← unwatched (read Machine.root)) temp)
  pure (current + (blockSize + (← watchedSize current)))

/-- The loop of `read_ramdisk`, for at most `rounds` rounds. -/
def watchedReadBlocks (initrdEnd : UInt32) (rounds : Nat) (current : UInt32) : Decoder UInt32 :=
  loop (onState fun current _ => current < initrdEnd) (watchedReadBlock layout kalloc) .endless
    rounds current

/-- `read_ramdisk`, for at most `rounds` rounds. -/
def watchedReadRamdisk (rounds : Nat) (initrdStart initrdEnd : UInt32) : Decoder Unit := do
  unwatched (logf "===== READING FROM RAMDISK =====\n" [])
  let _ ← watchedReadBlocks layout kalloc initrdEnd rounds initrdStart
  pure ()

/-! ## Watching changes nothing -/

theorem watchedLogf_watches (format : String) (address : UInt32) :
    Watches (watchedLogf format address) (logf format [.str address]) :=
  .after_watch _ (.unwatched _)

theorem watchedSize_watches (current : UInt32) :
    Watches (watchedSize current) (getWord (RamdiskBlock.size current)) :=
  .after_watch _ (.unwatched _)

theorem watchedMemcpy_watches (destination source num : UInt32) :
    Watches (watchedMemcpy destination source num) (memcpy destination source num) :=
  .after_watch _ (.unwatched _)

theorem watchedRamdiskWrite_watches (node offset size buffer : UInt32) :
    Watches (watchedRamdiskWrite node offset size buffer)
      (ramdiskWrite node offset size buffer) := by
  refine .bind (.unwatched _) fun _ => .bind (.unwatched _) fun _ => .bind (.unwatched _) fun _ =>
    .bind (.unwatched _) fun _ => .bind (.unwatched _) fun _ => .bind (.unwatched _) fun _ =>
    .bind (.unwatched _) fun _ => ?_
  apply Watches.bind (watchedMemcpy_watches _ _ _)
  intro _
  exact .bind (.unwatched _) fun _ => .bind (.unwatched _) fun _ =>
    .bind (.unwatched _) fun _ _ => rfl

theorem watchedFsWrite_watches (node size buffer : UInt32) :
    Watches (watchedFsWrite layout node size buffer) (fsWrite layout node size buffer) := by
  refine .bind (.unwatched _) fun _ => .bind (.unwatched _) fun _ =>
    .bind (.unwatched _) fun pointer => .bind (.unwatched _) fun offset => ?_
  unfold watchedCallTransfer callTransfer
  by_cases reads : pointer = layout.ramdiskRead
  · rw [if_pos reads, if_pos reads]
    exact .unwatched _
  · rw [if_neg reads, if_neg reads]
    by_cases writes : pointer = layout.ramdiskWrite
    · rw [if_pos writes, if_pos writes]
      exact watchedRamdiskWrite_watches _ _ _ _
    · rw [if_neg writes, if_neg writes]
      exact fun _ => rfl

theorem watchedReadBlock_watches (current : UInt32) :
    Watches (watchedReadBlock layout kalloc current) (readBlock layout kalloc current) := by
  apply Watches.bind (watchedLogf_watches _ _)
  intro _
  apply Watches.bind (watchedSize_watches _)
  intro _
  apply Watches.bind (.unwatched _)
  intro _
  apply Watches.bind (watchedLogf_watches _ _)
  intro _
  apply Watches.bind (watchedConstruct_watches _ _ _ _ _)
  intro temp
  refine .bind (.unwatched _) fun _ => .bind (.unwatched _) fun _ => ?_
  refine .bind (watchedSize_watches _) fun _ => .bind (.unwatched _) fun _ => ?_
  refine .bind (watchedSize_watches _) fun _ => .bind (watchedFsWrite_watches _ _ _ _) fun _ => ?_
  refine .bind (.unwatched _) fun _ => .bind (.unwatched _) fun _ => ?_
  exact .bind (watchedSize_watches _) fun _ _ => rfl

/-- Forgetting what was read gives `read_ramdisk`. -/
theorem watchedReadRamdisk_watches (initrdStart initrdEnd : UInt32) :
    Watches (watchedReadRamdisk layout kalloc loopBound initrdStart initrdEnd)
      (readRamdisk layout kalloc initrdStart initrdEnd) := by
  apply Watches.bind (.unwatched _)
  intro _
  exact .bind (.loop (watchedReadBlock_watches layout kalloc) _ _) fun _ _ => rfl

end Watched

/-! ## Reads inside an interval -/

/-- Everything read so far lies between the bounds of the image. -/
def Inside (initrdStart initrdEnd : UInt32) (w : Watched Machine UInt32) : Prop :=
  ∀ address ∈ w.trace, initrdStart ≤ address ∧ address < initrdEnd

/-- A zero-terminated text at the address ends, its zero byte included, before the limit. -/
def EndsBefore (mem : Bytes) (address limit : UInt32) : Prop :=
  ∃ text, CString mem address text ∧ address.toNat + text.length < limit.toNat

section Reads

variable {mem : Bytes} {initrdStart initrdEnd address : UInt32} {count fuel : Nat}

theorem toNat_succ_of_lt (below : address < initrdEnd) :
    (address + 1).toNat = address.toNat + 1 := by
  have one : (1 : UInt32).toNat = 1 := rfl
  have limit := initrdEnd.toNat_lt
  rw [UInt32.lt_iff_toNat_lt] at below
  rw [UInt32.toNat_add, one]
  omega

/-- A string is read inside the image exactly when it starts there and ends there. -/
theorem stringReads_inside_iff (enough : initrdEnd.toNat - address.toNat < fuel) :
    (∀ read ∈ stringReads mem fuel address, initrdStart ≤ read ∧ read < initrdEnd) ↔
      initrdStart ≤ address ∧ EndsBefore mem address initrdEnd := by
  induction fuel generalizing address with
  | zero => omega
  | succ fuel ih =>
      rw [stringReads, List.forall_mem_cons]
      by_cases zero : mem address = 0
      · rw [if_pos zero]
        constructor
        · rintro ⟨⟨starts, below⟩, -⟩
          exact ⟨starts, [], CString.nil_iff.mpr zero, UInt32.lt_iff_toNat_lt.mp below⟩
        · rintro ⟨starts, text, _, ends⟩
          refine ⟨⟨starts, UInt32.lt_iff_toNat_lt.mpr (by omega)⟩, ?_⟩
          exact fun _ none => absurd none List.not_mem_nil
      · rw [if_neg zero]
        constructor
        · rintro ⟨⟨starts, below⟩, others⟩
          have next := toNat_succ_of_lt below
          have more := UInt32.lt_iff_toNat_lt.mp below
          obtain ⟨_, text, string, ends⟩ := (ih (by omega)).mp others
          refine ⟨starts, mem address :: text, CString.cons_iff.mpr ⟨rfl, zero, string⟩, ?_⟩
          rw [List.length_cons]
          omega
        · rintro ⟨starts, text, string, ends⟩
          cases text with
          | nil => exact absurd (CString.nil_iff.mp string) zero
          | cons c rest =>
              obtain ⟨_, _, tail⟩ := CString.cons_iff.mp string
              rw [List.length_cons] at ends
              have below : address < initrdEnd := UInt32.lt_iff_toNat_lt.mpr (by omega)
              have next := toNat_succ_of_lt below
              refine ⟨⟨starts, below⟩, (ih (by omega)).mpr ⟨?_, rest, tail, by omega⟩⟩
              rw [UInt32.le_iff_toNat_le] at starts ⊢
              omega

/-- A span is read inside the image exactly when it is empty or lies there. -/
theorem spanReads_inside_iff :
    (∀ read ∈ spanReads address count, initrdStart ≤ read ∧ read < initrdEnd) ↔
      count = 0 ∨ initrdStart ≤ address ∧ address.toNat + count ≤ initrdEnd.toNat := by
  have limit := initrdEnd.toNat_lt
  have place : ∀ index, address.toNat + index < 2 ^ 32 →
      (address + UInt32.ofNat index).toNat = address.toNat + index := by
    intro index small
    rw [UInt32.toNat_add, UInt32.toNat_ofNat', Nat.mod_eq_of_lt (by omega : index < 2 ^ 32)]
    omega
  simp only [spanReads, List.forall_mem_map, List.mem_range]
  constructor
  · intro inside
    have reaches : ∀ index, index < count → address.toNat + index < initrdEnd.toNat := by
      intro index below
      induction index with
      | zero =>
          have first := (inside 0 below).2
          rw [UInt32.lt_iff_toNat_lt, place 0 address.toNat_lt] at first
          exact first
      | succ index ih =>
          have before := ih (by omega)
          have here := (inside (index + 1) below).2
          rw [UInt32.lt_iff_toNat_lt, place (index + 1) (by omega)] at here
          exact here
    by_cases empty : count = 0
    · exact .inl empty
    · have starts := (inside 0 (by omega)).1
      rw [UInt32.le_iff_toNat_le, place 0 address.toNat_lt] at starts
      have ends := reaches (count - 1) (by omega)
      exact .inr ⟨UInt32.le_iff_toNat_le.mpr starts, by omega⟩
  · rintro (rfl | ⟨starts, ends⟩) index below
    · omega
    · rw [UInt32.le_iff_toNat_le, UInt32.lt_iff_toNat_lt, place index (by omega)]
      rw [UInt32.le_iff_toNat_le] at starts
      omega

end Reads

/-! ## Traces only grow -/

section Growing

variable (layout : Layout) (kalloc : UInt32 → Kernel UInt32)

/-- One part after another. -/
theorem grows_bind {α β : Type} {first : Decoder α} {rest : α → Decoder β}
    (left : Respects Grows first) (right : ∀ value, Respects Grows (rest value)) :
    Respects Grows (first >>= rest) :=
  .bind Grows.trans left right

theorem watchedLogf_grows (format : String) (address : UInt32) :
    Respects Grows (watchedLogf format address) :=
  grows_bind (watch_grows _) fun _ => unwatched_grows _

theorem watchedSize_grows (current : UInt32) : Respects Grows (watchedSize current) :=
  grows_bind (watch_grows _) fun _ => unwatched_grows _

theorem pure_grows {α : Type} (value : α) : Respects Grows (pure value : Decoder α) :=
  fun w => Grows.refl w

theorem watchedRamdiskWrite_grows (node offset size buffer : UInt32) :
    Respects Grows (watchedRamdiskWrite node offset size buffer) := by
  refine grows_bind (unwatched_grows _) fun _ => grows_bind (unwatched_grows _) fun _ =>
    grows_bind (unwatched_grows _) fun _ => grows_bind (unwatched_grows _) fun _ =>
    grows_bind (unwatched_grows _) fun _ => grows_bind (unwatched_grows _) fun _ =>
    grows_bind (unwatched_grows _) fun _ => grows_bind ?_ fun _ => ?_
  · exact grows_bind (watch_grows _) fun _ => unwatched_grows _
  · exact grows_bind (unwatched_grows _) fun _ => grows_bind (unwatched_grows _) fun _ =>
      grows_bind (unwatched_grows _) fun _ => pure_grows size

theorem watchedFsWrite_grows (node size buffer : UInt32) :
    Respects Grows (watchedFsWrite layout node size buffer) := by
  refine grows_bind (unwatched_grows _) fun _ => grows_bind (unwatched_grows _) fun _ =>
    grows_bind (unwatched_grows _) fun pointer => grows_bind (unwatched_grows _) fun offset => ?_
  unfold watchedCallTransfer
  split
  · exact unwatched_grows _
  · split
    · exact watchedRamdiskWrite_grows _ _ _ _
    · exact fun w => Grows.refl w

end Growing

/-! ## One round -/

/-- What a block must be for its round to read inside the image: it starts there, its
name and its contents end there as strings, and so do the bytes that are written, if
they fit a buffer and the heap has room for a file. -/
structure BlockInside (room : Nat) (mem : Bytes) (initrdStart initrdEnd current : UInt32) :
    Prop where
  starts : initrdStart ≤ current
  name : EndsBefore mem (RamdiskBlock.name current) initrdEnd
  contents : EndsBefore mem (current + blockSize) initrdEnd
  written : 424 ≤ room → (mem.load32 (RamdiskBlock.size current)).toNat ≤ 256 →
    (current + blockSize).toNat + (mem.load32 (RamdiskBlock.size current)).toNat ≤
      initrdEnd.toNat

/-- The part of a round that prints the block. -/
def watchedPrint (current : UInt32) : Decoder Unit := do
  watchedLogf "Name: %s\n" (RamdiskBlock.name current)
  unwatched (logf "\tSize: %u\n" [.number (← watchedSize current)])
  watchedLogf "\tContents: %s\n" (current + blockSize)

/-- The part that prints the sizes of the new file and of the block. -/
def watchedPrintSizes (current temp : UInt32) : Decoder Unit := do
  unwatched (logf "%u\n" [.number (← unwatched (getWord (Node.allocatedSize temp)))])
  unwatched (logf "%u\n" [.number (← watchedSize current)])

/-- The part of a round after the node is made. -/
def watchedStore (layout : Layout) (kalloc : UInt32 → Kernel UInt32) (current temp : UInt32) :
    Decoder UInt32 := do
  watchedPrintSizes current temp
  let _ ← watchedFsWrite layout temp (← watchedSize current) (current + blockSize)
  unwatched (fsAddDirent kalloc (← unwatched (read Machine.root)) temp)
  pure (current + (blockSize + (← watchedSize current)))

theorem watchedReadBlock_eq (layout : Layout) (kalloc : UInt32 → Kernel UInt32)
    (current : UInt32) :
    watchedReadBlock layout kalloc current = (do
      watchedPrint current
      let temp ← watchedConstruct ByteCopy.source layout kalloc (RamdiskBlock.name current) .file
      watchedStore layout kalloc current temp) := by
  simp only [watchedReadBlock, watchedPrint, watchedPrintSizes, watchedStore, bind_assoc]

section Round

variable {layout : Layout} {initrdStart initrdEnd current : UInt32} {w : Watched Machine UInt32}

/-- What is read once stays read. -/
theorem Inside.of_grows {before after : Watched Machine UInt32} (grows : Grows before after)
    (inside : Inside initrdStart initrdEnd after) : Inside initrdStart initrdEnd before :=
  fun address member => inside address (grows.subset member)

theorem inside_append_iff {reads : List UInt32} {s : Machine}
    (inside : Inside initrdStart initrdEnd w) :
    Inside initrdStart initrdEnd ⟨s, w.trace ++ reads⟩ ↔
      ∀ read ∈ reads, initrdStart ≤ read ∧ read < initrdEnd := by
  rw [Inside, List.forall_mem_append]
  exact and_iff_right inside

/-- What a part of the round that reads only inside the image keeps. -/
def KeepsInside (initrdStart initrdEnd : UInt32) (before after : Watched Machine UInt32) : Prop :=
  Inside initrdStart initrdEnd before → Inside initrdStart initrdEnd after

theorem KeepsInside.trans (first middle last : Watched Machine UInt32)
    (left : KeepsInside initrdStart initrdEnd first middle)
    (right : KeepsInside initrdStart initrdEnd middle last) :
    KeepsInside initrdStart initrdEnd first last :=
  fun inside => right (left inside)

theorem unwatched_keeps {α : Type} (program : Kernel α) :
    Respects (KeepsInside initrdStart initrdEnd) (unwatched program) := by
  intro w inside
  rw [Inside, unwatched_trace]
  exact inside

/-- A rest that grows the trace inside the image makes no difference. -/
theorem inside_bind_iff {α β : Type} {first : Decoder α} {rest : α → Decoder β}
    (grows : ∀ value, Respects Grows (rest value))
    (keeps : ∀ value, Respects (KeepsInside initrdStart initrdEnd) (rest value)) :
    Inside initrdStart initrdEnd (final ((first >>= rest) w)) ↔
      Inside initrdStart initrdEnd (final (first w)) := by
  cases run : first w with
  | ok value middle =>
      rw [bind_of_ok run]
      exact ⟨fun inside => inside.of_grows (grows value middle), keeps value middle⟩
  | error reason middle =>
      rw [bind_of_error run]
      exact Iff.rfl

/-- Reads outside the image are not undone. -/
theorem not_inside_bind {α β : Type} {first : Decoder α} {rest : α → Decoder β}
    (outside : ¬ Inside initrdStart initrdEnd (final (first w)))
    (grows : ∀ value, Respects Grows (rest value)) :
    ¬ Inside initrdStart initrdEnd (final ((first >>= rest) w)) := by
  intro inside
  cases run : first w with
  | ok value middle =>
      rw [bind_of_ok run] at inside
      rw [run] at outside
      exact outside (inside.of_grows (grows value middle))
  | error reason middle =>
      rw [bind_of_error run] at inside
      rw [run] at outside
      exact outside inside

theorem watchedSize_run (current : UInt32) (w : Watched Machine UInt32) :
    watchedSize current w = .ok (w.state.mem.load32 (RamdiskBlock.size current))
      ⟨w.state, w.trace ++ spanReads (RamdiskBlock.size current) 4⟩ := rfl

theorem watchedSize_keeps (starts : initrdStart ≤ current)
    (ends : current.toNat + 4 ≤ initrdEnd.toNat) :
    Respects (KeepsInside initrdStart initrdEnd) (watchedSize current) := by
  intro w inside
  rw [watchedSize_run, final_ok, inside_append_iff inside]
  exact spanReads_inside_iff.mpr (.inr ⟨starts, ends⟩)

theorem final_watchedLogf_trace (format : String) (address : UInt32)
    (w : Watched Machine UInt32) :
    (final (watchedLogf format address w)).trace =
      w.trace ++ stringReads w.state.mem loopBound address := by
  rw [watchedLogf, bind_of_ok (watch_run _ w), unwatched_trace]

/-- A string is printed inside the image exactly when it starts and ends there. -/
theorem watchedLogf_inside_iff (inside : Inside initrdStart initrdEnd w) (format : String)
    (address : UInt32) :
    Inside initrdStart initrdEnd (final (watchedLogf format address w)) ↔
      initrdStart ≤ address ∧ EndsBefore w.state.mem address initrdEnd := by
  have enough : initrdEnd.toNat - address.toNat < loopBound := by
    have limit := initrdEnd.toNat_lt
    unfold loopBound
    omega
  rw [← stringReads_inside_iff enough, Inside, final_watchedLogf_trace]
  exact inside_append_iff (s := w.state) inside

/-- A string that ends is printed. -/
theorem watchedLogf_run {address limit : UInt32} (ends : EndsBefore w.state.mem address limit)
    (format : String) :
    ∃ serial, watchedLogf format address w = .ok () ⟨w.state.withSerial serial,
      w.trace ++ stringReads w.state.mem loopBound address⟩ := by
  obtain ⟨text, string, _⟩ := ends
  obtain ⟨zero, isZero⟩ := string.zero
  obtain ⟨serial, printed⟩ := logf_run isZero format [.str address]
  exact ⟨serial, (bind_of_ok (watch_run _ w)).trans (unwatched_ok printed)⟩

/-- The bounds of a block whose contents end in the image. -/
theorem header_fits (bounded : initrdEnd ≤ kernelEnd) (more : current < initrdEnd)
    (contents : EndsBefore w.state.mem (current + blockSize) initrdEnd) :
    (current + blockSize).toNat = current.toNat + 132 ∧
      current.toNat + 132 < initrdEnd.toNat := by
  have size : blockSize.toNat = 132 := rfl
  obtain ⟨text, _, ends⟩ := contents
  rw [UInt32.le_iff_toNat_le, toNat_kernelEnd] at bounded
  rw [UInt32.lt_iff_toNat_lt] at more
  rw [UInt32.toNat_add, size, Nat.mod_eq_of_lt (by omega)] at ends ⊢
  exact ⟨rfl, by omega⟩

/-- A block is printed inside the image exactly when it starts there and its strings
end there. -/
theorem watchedPrint_inside_iff (inside : Inside initrdStart initrdEnd w)
    (bounded : initrdEnd ≤ kernelEnd) (more : current < initrdEnd) :
    Inside initrdStart initrdEnd (final (watchedPrint current w)) ↔
      initrdStart ≤ current ∧ EndsBefore w.state.mem (RamdiskBlock.name current) initrdEnd ∧
        EndsBefore w.state.mem (current + blockSize) initrdEnd := by
  have grows : ∀ current, Respects Grows (do
      unwatched (logf "\tSize: %u\n" [.number (← watchedSize current)])
      watchedLogf "\tContents: %s\n" (current + blockSize)) := fun current =>
    grows_bind (watchedSize_grows _) fun _ => grows_bind (unwatched_grows _) fun _ =>
      watchedLogf_grows _ _
  have small := UInt32.lt_iff_toNat_lt.mp more
  have limit := UInt32.le_iff_toNat_le.mp bounded
  rw [toNat_kernelEnd] at limit
  have named := watchedLogf_inside_iff inside "Name: %s\n" (RamdiskBlock.name current)
  rw [watchedPrint]
  by_cases name : initrdStart ≤ RamdiskBlock.name current ∧
      EndsBefore w.state.mem (RamdiskBlock.name current) initrdEnd
  · obtain ⟨serial, printed⟩ := watchedLogf_run name.2 "Name: %s\n"
    have insideNow := named.mpr name
    rw [printed, final_ok] at insideNow
    rw [bind_of_ok printed, bind_of_ok (watchedSize_run _ _)]
    have numbers := logf_numbers (s := w.state.withSerial serial) "\tSize: %u\n"
      [w.state.mem.load32 (RamdiskBlock.size current)]
    by_cases starts : initrdStart ≤ current
    · have ends : current.toNat + 4 ≤ initrdEnd.toNat := by
        obtain ⟨_, text, _, ends⟩ := name
        have four : (4 : UInt32).toNat = 4 := rfl
        rw [RamdiskBlock.name, UInt32.toNat_add, four] at ends
        omega
      have sized := (inside_append_iff (s := w.state.withSerial serial) insideNow).mpr
        (spanReads_inside_iff.mpr (.inr ⟨starts, ends⟩))
      rw [bind_of_ok (unwatched_ok numbers)]
      refine (watchedLogf_inside_iff ?_ _ _).trans ?_
      · exact sized
      constructor
      · rintro ⟨_, contents⟩
        exact ⟨starts, name.2, contents⟩
      · rintro ⟨_, _, contents⟩
        have fits := header_fits (w := w) bounded more contents
        refine ⟨?_, contents⟩
        rw [UInt32.le_iff_toNat_le] at starts ⊢
        omega
    · constructor
      · intro all
        have sized : Inside initrdStart initrdEnd _ :=
          all.of_grows ((grows_bind (unwatched_grows _) fun _ => watchedLogf_grows _ _) _)
        have reads := spanReads_inside_iff.mp
          ((inside_append_iff (s := w.state.withSerial serial) insideNow).mp sized)
        exact absurd (reads.resolve_left (by decide)).1 starts
      · exact fun all => absurd all.1 starts
  · constructor
    · exact fun all => absurd all (not_inside_bind (mt named.mp name) fun _ => grows current)
    · rintro ⟨starts, ends, _⟩
      refine absurd ⟨?_, ends⟩ name
      have four : (4 : UInt32).toNat = 4 := rfl
      rw [UInt32.le_iff_toNat_le] at starts ⊢
      rw [RamdiskBlock.name, UInt32.toNat_add, four]
      omega

/-- What a round prints of its block it reads inside the image, if it reads nothing
outside. -/
theorem watchedPrint_inside {kalloc : UInt32 → Kernel UInt32}
    (all : Inside initrdStart initrdEnd (final (watchedReadBlock layout kalloc current w))) :
    Inside initrdStart initrdEnd (final (watchedPrint current w)) := by
  rw [watchedReadBlock_eq] at all
  by_contra outside
  refine not_inside_bind outside (fun _ => grows_bind (watchedConstruct_grows _ _ _ _ _) fun temp =>
    ?_) all
  refine grows_bind ?_ fun _ => grows_bind (watchedSize_grows _) fun _ =>
    grows_bind (watchedFsWrite_grows _ _ _ _) fun _ => grows_bind (unwatched_grows _) fun _ =>
    grows_bind (unwatched_grows _) fun _ => grows_bind (watchedSize_grows _) fun _ =>
    pure_grows _
  exact grows_bind (unwatched_grows _) fun _ => grows_bind (unwatched_grows _) fun _ =>
    grows_bind (watchedSize_grows _) fun _ => unwatched_grows _

/-- A block whose strings end is printed. -/
theorem watchedPrint_run {limit : UInt32}
    (name : EndsBefore w.state.mem (RamdiskBlock.name current) limit)
    (contents : EndsBefore w.state.mem (current + blockSize) limit) :
    ∃ serial trace, watchedPrint current w = .ok () ⟨w.state.withSerial serial, trace⟩ := by
  obtain ⟨first, named⟩ := watchedLogf_run name "Name: %s\n"
  have numbers := logf_numbers (s := w.state.withSerial first) "\tSize: %u\n"
    [w.state.mem.load32 (RamdiskBlock.size current)]
  rw [watchedPrint, bind_of_ok named, bind_of_ok (watchedSize_run _ _),
    bind_of_ok (unwatched_ok numbers)]
  exact Exists.imp (fun last printed => ⟨_, printed⟩)
    (watchedLogf_run (by exact contents : EndsBefore _ _ limit) _)

/-! Writing the contents -/

/-- The contents are read, all that `fs_write` is asked to write, when they fit the
buffer of the new file. -/
theorem watchedFsWrite_inside_iff {node size buffer : UInt32}
    (held : FileAt layout w.state.mem node ByteFile.empty)
    (inside : Inside initrdStart initrdEnd w) :
    Inside initrdStart initrdEnd (final (watchedFsWrite layout node size buffer w)) ↔
      (size.toNat ≤ 256 →
        ∀ read ∈ spanReads buffer size.toNat, initrdStart ≤ read ∧ read < initrdEnd) := by
  have set : decide (w.state.mem.load32 (Node.write node) = 0) = false := by
    rw [held.write, decide_eq_false_iff_not]
    exact layout.ramdiskWrite_ne_null
  have offset : w.state.mem.load32 (Node.offset node) = 0 :=
    UInt32.toNat_inj.mp held.offset
  have canonicalSize : w.state.mem.load32 (Node.canonicalSize node) = 0 :=
    UInt32.toNat_inj.mp held.canonicalSize
  have valid : decide (w.state.mem.load32 (Node.offset node) >
      w.state.mem.load32 (Node.canonicalSize node)) = false := by
    rw [offset, canonicalSize]
    decide
  have load : ∀ address, unwatched (getWord address) w = .ok (w.state.mem.load32 address) w :=
    fun _ => rfl
  have check : ∀ {failed : Bool} (message : String), failed = false →
      unwatched (panicIf failed message) w = .ok () w := fun _ passed =>
    unwatched_ok (panicIf_run passed)
  rw [watchedFsWrite, bind_of_ok (load _), bind_of_ok (check _ set), bind_of_ok (load _),
    bind_of_ok (load _), held.write, watchedCallTransfer, if_neg (Ne.symm layout.read_ne_write),
    if_pos rfl, watchedRamdiskWrite, bind_of_ok (load _), bind_of_ok (check _ (isFile held)),
    bind_of_ok (load _), bind_of_ok (check _ valid), bind_of_ok (load _), offset, UInt32.zero_add,
    held.allocatedSize]
  by_cases fits : size.toNat ≤ 256
  · have passed : decide (size > 256) = false := by
      rw [decide_eq_false_iff_not, gt_iff_lt, UInt32.lt_iff_toNat_lt]
      exact Nat.not_lt.mpr fits
    rw [bind_of_ok (check _ passed), bind_of_ok (load _), inside_bind_iff, Inside, watchedMemcpy,
      bind_of_ok (watch_run _ _), unwatched_trace]
    · rw [forall_prop_of_true fits]
      exact inside_append_iff (s := w.state) inside
    · exact fun _ => grows_bind (unwatched_grows _) fun _ => grows_bind (unwatched_grows _) fun _ =>
        grows_bind (unwatched_grows _) fun _ => pure_grows size
    · exact fun _ => .bind KeepsInside.trans (unwatched_keeps _) fun _ =>
        .bind KeepsInside.trans (unwatched_keeps _) fun _ =>
          .bind KeepsInside.trans (unwatched_keeps _) fun _ _ inside => inside
  · have fails : decide (size > 256) = true := by
      rw [decide_eq_true_eq, gt_iff_lt, UInt32.lt_iff_toNat_lt]
      exact Nat.not_le.mp fits
    rw [bind_of_error (unwatched_error (panicIf_panics fails)), final_error]
    exact ⟨fun _ small => absurd small fits, fun _ => inside⟩

theorem watchedPrintSizes_run (current temp : UInt32) (w : Watched Machine UInt32) :
    ∃ serial, watchedPrintSizes current temp w =
      .ok () ⟨w.state.withSerial serial, w.trace ++ spanReads (RamdiskBlock.size current) 4⟩ := by
  have load : ∀ address, unwatched (getWord address) w = .ok (w.state.mem.load32 address) w :=
    fun _ => rfl
  have prints : ∀ (v : Watched Machine UInt32) value, unwatched (logf "%u\n" [.number value]) v =
      .ok () ⟨v.state.withSerial (v.state.serial ++ [⟨"%u\n", [.number value]⟩]), v.trace⟩ :=
    fun _ value => unwatched_ok (logf_numbers "%u\n" [value])
  rw [watchedPrintSizes, bind_of_ok (load _), bind_of_ok (prints _ _),
    bind_of_ok (watchedSize_run _ _), prints]
  exact ⟨_, rfl⟩

/-- After the node is made, a round reads inside the image exactly when the bytes that
are written end there. -/
theorem watchedStore_inside_iff {kalloc : UInt32 → Kernel UInt32} {temp : UInt32}
    (held : FileAt layout w.state.mem temp ByteFile.empty)
    (inside : Inside initrdStart initrdEnd w) (starts : initrdStart ≤ current)
    (header : (current + blockSize).toNat = current.toNat + 132 ∧
      current.toNat + 132 < initrdEnd.toNat) :
    Inside initrdStart initrdEnd (final (watchedStore layout kalloc current temp w)) ↔
      ((w.state.mem.load32 (RamdiskBlock.size current)).toNat ≤ 256 →
        (current + blockSize).toNat + (w.state.mem.load32 (RamdiskBlock.size current)).toNat ≤
          initrdEnd.toNat) := by
  have sizeKeeps := watchedSize_keeps starts (by omega : current.toNat + 4 ≤ initrdEnd.toNat)
  have once : ∀ {v : Watched Machine UInt32}, Inside initrdStart initrdEnd v →
      Inside initrdStart initrdEnd
        ⟨v.state, v.trace ++ spanReads (RamdiskBlock.size current) 4⟩ :=
    fun {v} holds => sizeKeeps v holds
  obtain ⟨serial, printed⟩ := watchedPrintSizes_run current temp w
  have twice := once (v := ⟨w.state.withSerial serial, _⟩) (once inside)
  rw [watchedStore, bind_of_ok printed, bind_of_ok (watchedSize_run _ _), inside_bind_iff]
  · refine (watchedFsWrite_inside_iff ?_ twice).trans ?_
    · exact held
    apply imp_congr_right
    intro _
    refine spanReads_inside_iff.trans ?_
    have after : initrdStart ≤ current + blockSize := by
      rw [UInt32.le_iff_toNat_le] at starts ⊢
      omega
    constructor
    · rintro (none | ⟨_, ends⟩)
      · rw [Machine.withSerial_mem] at none
        omega
      · exact ends
    · exact fun ends => .inr ⟨after, ends⟩
  · exact fun _ => grows_bind (unwatched_grows _) fun _ => grows_bind (unwatched_grows _) fun _ =>
      grows_bind (watchedSize_grows _) fun _ => pure_grows _
  · exact fun _ => .bind KeepsInside.trans (unwatched_keeps _) fun _ =>
      .bind KeepsInside.trans (unwatched_keeps _) fun _ =>
        .bind KeepsInside.trans sizeKeeps fun _ _ inside => inside

/-! Making the node -/

/-- A string that starts and ends in the image lies in it. -/
theorem string_inside {address : UInt32} {length : Nat} (starts : initrdStart ≤ address)
    (ends : address.toNat + length < initrdEnd.toNat) :
    Span address (length + 1) ⊆ imageSpan initrdStart initrdEnd := by
  intro other inString
  have limit := initrdEnd.toNat_lt
  rw [Span.mem_iff (by omega)] at inString
  rw [UInt32.le_iff_toNat_le] at starts
  exact ⟨UInt32.le_iff_toNat_le.mpr (by omega), UInt32.lt_iff_toNat_lt.mpr (by omega)⟩

theorem header_inside (starts : initrdStart ≤ current)
    (ends : current.toNat + 132 < initrdEnd.toNat) :
    Span current 132 ⊆ imageSpan initrdStart initrdEnd :=
  string_inside starts (by omega : current.toNat + 131 < initrdEnd.toNat)

theorem name_starts (bounded : initrdEnd ≤ kernelEnd) (more : current < initrdEnd)
    (starts : initrdStart ≤ current) : initrdStart ≤ RamdiskBlock.name current := by
  have four : (4 : UInt32).toNat = 4 := rfl
  have low := UInt32.lt_iff_toNat_lt.mp (lt_kernelEnd bounded more)
  rw [toNat_kernelEnd] at low
  rw [UInt32.le_iff_toNat_le] at starts ⊢
  rw [RamdiskBlock.name, UInt32.toNat_add, four]
  omega

theorem contents_starts (starts : initrdStart ≤ current)
    (place : (current + blockSize).toNat = current.toNat + 132) :
    initrdStart ≤ current + blockSize := by
  rw [UInt32.le_iff_toNat_le] at starts ⊢
  omega

section Construct

variable {heap : Heap} {entries : List UInt32} {files : List (List UInt8)}

/-- The reads of the construction lie inside the image when the name ends there. -/
theorem watchedConstruct_inside {name : UInt32} {text : List UInt8}
    (reading : Reading heap layout (imageSpan initrdStart initrdEnd) entries files w.state)
    (growing : Growing heap) (inside : Inside initrdStart initrdEnd w)
    (starts : initrdStart ≤ name) (string : CString w.state.mem name text)
    (ends : name.toNat + text.length < initrdEnd.toNat)
    (fits : 168 ≤ heap.room w.state → text.length < heap.room w.state) :
    Inside initrdStart initrdEnd
      (final (watchedConstruct ByteCopy.source layout heap.kalloc name .file w)) := by
  cases run : heap.kalloc nodeSize w.state with
  | error reason after =>
      rw [Inside, trace_of_kalloc_error run]
      exact inside
  | ok node after =>
      rw [Inside, trace_watchedConstruct run]
      have granted := (heap.yields reading.ready (by decide : nodeSize.toNat ≤ 256)).of_ok run
      rw [nodeSize_toNat] at granted
      have allocation := granted.1
      have roomAfter := granted.2.2
      have low : Span name (text.length + 1) ⊆ imageSpan initrdStart initrdEnd :=
        string_inside starts ends
      have copied : Span node (text.length + 1) ⊆ heap.reserve w.state :=
        (growing.span_free reading.ready (growing.starts reading.ready (by decide) run)
          (fits (by omega))).trans (unused_mono Set.subset_union_left _)
      have fresh : Span node 168 ⊆ heap.reserve w.state := allocation.fresh
      refine watchedStrcpyLoop_traces (fun _ inImage _ => inImage) ?_ low copied
        reading.fixedReserve inside
      refine string.congr fun other inName => ?_
      have outside := Set.disjoint_left.mp reading.fixedReserve (low inName)
      rw [Machine.withMem_mem, Bytes.write_of_notMem, allocation.kept other outside]
      rw [List.length_replicate]
      exact fun inNode => outside (fresh (Span.mono (by decide) inNode))

/-- A copy of the name of a block fits the room for a node, if the name ends in the image. -/
def NameFits (room : Nat) (mem : Bytes) (initrdEnd current : UInt32) : Prop :=
  ∀ text, CString mem (RamdiskBlock.name current) text →
    (RamdiskBlock.name current).toNat + text.length < initrdEnd.toNat →
      168 ≤ room → text.length < room

/-- A round reads inside the image exactly when its block lies inside. -/
theorem watchedReadBlock_inside_iff
    (reading : Reading heap layout (imageSpan initrdStart initrdEnd) entries files w.state)
    (growing : Growing heap) (bounded : initrdEnd ≤ kernelEnd) (more : current < initrdEnd)
    (fits : NameFits (heap.room w.state) w.state.mem initrdEnd current)
    (inside : Inside initrdStart initrdEnd w) :
    Inside initrdStart initrdEnd (final (watchedReadBlock layout heap.kalloc current w)) ↔
      BlockInside (heap.room w.state) w.state.mem initrdStart initrdEnd current := by
  have printsInside := watchedPrint_inside_iff inside bounded more
  rw [watchedReadBlock_eq]
  by_cases block : initrdStart ≤ current ∧
      EndsBefore w.state.mem (RamdiskBlock.name current) initrdEnd ∧
      EndsBefore w.state.mem (current + blockSize) initrdEnd
  · obtain ⟨starts, name, contents⟩ := block
    have header := header_fits (w := w) bounded more contents
    obtain ⟨serial, trace, printed⟩ := watchedPrint_run name contents
    have insideNow := printsInside.mpr ⟨starts, name, contents⟩
    rw [printed, final_ok] at insideNow
    rw [bind_of_ok printed]
    have readingNow : Reading heap layout (imageSpan initrdStart initrdEnd) entries files
        (w.state.withSerial serial) := reading.printed growing serial
    have room : heap.room (w.state.withSerial serial) = heap.room w.state :=
      Heap.room_withSerial w.state serial
    have nameStarts := name_starts bounded more starts
    obtain ⟨text, string, ends⟩ := name
    have stillString : CString (w.state.withSerial serial).mem (RamdiskBlock.name current) text :=
      string
    have copyFits : 168 ≤ heap.room (w.state.withSerial serial) →
        text.length < heap.room (w.state.withSerial serial) := by
      rw [room]
      exact fits text string ends
    have constructs : Inside initrdStart initrdEnd
        (final (watchedConstruct ByteCopy.source layout heap.kalloc
          (RamdiskBlock.name current) .file ⟨w.state.withSerial serial, trace⟩)) :=
      watchedConstruct_inside readingNow growing insideNow nameStarts stillString ends copyFits
    have plain := watchedConstruct_watches ByteCopy.source layout heap.kalloc
      (RamdiskBlock.name current) .file ⟨w.state.withSerial serial, trace⟩
    have makes : Yields (fsConstructNode layout heap.kalloc (RamdiskBlock.name current) .file
        (w.state.withSerial serial))
        (fun node after => FileMade heap layout (imageSpan initrdStart initrdEnd) []
          (w.state.withSerial serial) node after)
        (fun reason => heap.room (w.state.withSerial serial) < 424 ∧ heap.HaltsFor reason) :=
      readingNow.constructs_or_halts growing fun enough =>
        ⟨text, stillString, string_inside nameStarts ends, copyFits enough⟩
    rw [room, ← plain] at makes
    cases run : watchedConstruct ByteCopy.source layout heap.kalloc
        (RamdiskBlock.name current) .file ⟨w.state.withSerial serial, trace⟩ with
    | error reason after =>
        rw [run] at constructs makes
        rw [bind_of_error run]
        have full : heap.room w.state < 424 := makes.1
        refine ⟨fun _ => ⟨starts, ⟨text, string, ends⟩, contents, fun enough => ?_⟩,
          fun _ => constructs⟩
        exact absurd enough (Nat.not_le.mpr full)
    | ok node after =>
        rw [run] at constructs makes
        have made : FileMade heap layout (imageSpan initrdStart initrdEnd) []
          (w.state.withSerial serial) node after.state := makes
        have roomMade := made.room
        rw [room] at roomMade
        have enough : 424 ≤ heap.room w.state := by omega
        have sameSize : after.state.mem.load32 (RamdiskBlock.size current) =
            w.state.mem.load32 (RamdiskBlock.size current) := by
          apply Bytes.load32_congr
          intro address inSize
          exact made.fixed address (header_inside starts header.2 (size_subset_header inSize))
        have held : FileAt layout after.state.mem node ByteFile.empty := made.held
        rw [bind_of_ok run, watchedStore_inside_iff held constructs starts header, sameSize]
        constructor
        · exact fun written => ⟨starts, ⟨text, string, ends⟩, contents, fun _ => written⟩
        · exact fun all => all.written enough
  · constructor
    · rw [← watchedReadBlock_eq]
      exact fun all => absurd (printsInside.mp (watchedPrint_inside all)) block
    · exact fun all => absurd ⟨all.starts, all.name, all.contents⟩ block

end Construct

end Round

/-! ## The whole walk -/

section Walk

variable {heap : Heap} {layout : Layout} {initrdStart initrdEnd current : UInt32}
  {origin s : Machine} {mem mem' : Bytes} {room count : Nat} {entries : List UInt32}
  {files : List (List UInt8)} {w : Watched Machine UInt32}

/-- Strings that end in the image are the same in both. -/
theorem EndsBefore.congr {address : UInt32} (starts : initrdStart ≤ address)
    (same : ∀ address ∈ imageSpan initrdStart initrdEnd, mem' address = mem address)
    (ends : EndsBefore mem address initrdEnd) : EndsBefore mem' address initrdEnd := by
  obtain ⟨text, string, before⟩ := ends
  exact ⟨text, string.congr fun other inText => same other (string_inside starts before inText),
    before⟩

/-- A block inside the image is inside as long as the image is the same. -/
theorem BlockInside.congr (bounded : initrdEnd ≤ kernelEnd) (more : current < initrdEnd)
    (same : ∀ address ∈ imageSpan initrdStart initrdEnd, mem' address = mem address)
    (block : BlockInside room mem initrdStart initrdEnd current) :
    BlockInside room mem' initrdStart initrdEnd current := by
  have header := header_fits (w := ⟨Machine.boot mem, []⟩) bounded more block.contents
  have size : mem'.load32 (RamdiskBlock.size current) =
      mem.load32 (RamdiskBlock.size current) :=
    Bytes.load32_congr fun address inSize =>
      same address (header_inside block.starts header.2 (size_subset_header inSize))
  refine ⟨block.starts, block.name.congr (name_starts bounded more block.starts) same,
    block.contents.congr (contents_starts block.starts header.1) same, ?_⟩
  rw [size]
  exact block.written

/-- A block inside the image, with a name that fits, can be read. -/
theorem BlockInside.fixed (bounded : initrdEnd ≤ kernelEnd) (more : current < initrdEnd)
    (fits : NameFits room mem initrdEnd current)
    (block : BlockInside room mem initrdStart initrdEnd current) :
    BlockFixed (imageSpan initrdStart initrdEnd) room mem current := by
  have header := header_fits (w := ⟨Machine.boot mem, []⟩) bounded more block.contents
  refine ⟨header_inside block.starts header.2, fun enough small address inContents => ?_,
    fun enough => ?_⟩
  · have limit := initrdEnd.toNat_lt
    have ends := block.written enough small
    have starts := contents_starts block.starts header.1
    rw [Span.mem_iff (by omega)] at inContents
    rw [UInt32.le_iff_toNat_le] at starts
    exact ⟨UInt32.le_iff_toNat_le.mpr (by omega), UInt32.lt_iff_toNat_lt.mpr (by omega)⟩
  · obtain ⟨text, string, ends⟩ := block.name
    exact ⟨text, string, string_inside (name_starts bounded more block.starts) ends,
      fits text string ends enough⟩

/-- A round that returns does so when watched. -/
theorem watched_of_readBlock {w : Watched Machine UInt32} {next : UInt32} {s : Machine}
    (returned : readBlock layout heap.kalloc current w.state = .ok next s) :
    ∃ trace, watchedReadBlock layout heap.kalloc current w = .ok next ⟨s, trace⟩ := by
  rw [← watchedReadBlock_watches layout heap.kalloc current w] at returned
  cases run : watchedReadBlock layout heap.kalloc current w with
  | ok value after =>
      rw [run] at returned
      cases returned
      exact ⟨after.trace, rfl⟩
  | error reason after =>
      rw [run] at returned
      cases returned

theorem watchedReadBlocks_again (kalloc : UInt32 → Kernel UInt32) (rounds : Nat)
    (more : current < initrdEnd) (w : Watched Machine UInt32) :
    watchedReadBlocks layout kalloc initrdEnd (rounds + 1) current w =
      (watchedReadBlock layout kalloc current >>=
        watchedReadBlocks layout kalloc initrdEnd rounds) w :=
  loop_again (decide_eq_true more)

/-- A name that fits in one memory fits in another with the same image. -/
theorem NameFits.congr (starts : initrdStart ≤ RamdiskBlock.name current)
    (same : ∀ address ∈ imageSpan initrdStart initrdEnd, mem' address = mem address)
    (fits : NameFits room mem initrdEnd current) : NameFits room mem' initrdEnd current :=
  fun text string ends enough =>
    fits text (string.congr fun address inName =>
      (same address (string_inside starts ends inName)).symm) ends enough

/-- A copy of the name of each block fits the room the heap has when the walk comes to it. -/
def NamesFit (room : Nat) (initrdStart initrdEnd : UInt32) (mem : Bytes) : Prop :=
  ∀ count current, NthBlock mem initrdStart initrdEnd count current → 432 * count ≤ room →
    NameFits (room - 432 * count) mem initrdEnd current

theorem Walking.starts
    (walking : Walking heap layout (imageSpan initrdStart initrdEnd) initrdStart initrdEnd origin
      count current entries files s) : initrdStart ≤ current := by
  have passed := walking.passed
  rw [UInt32.le_iff_toNat_le]
  omega

/-- On the walk a round reads inside the image exactly when its block was inside at the
start. -/
theorem Walking.inside_iff
    (walking : Walking heap layout (imageSpan initrdStart initrdEnd) initrdStart initrdEnd origin
      count current entries files w.state)
    (growing : Growing heap) (bounded : initrdEnd ≤ kernelEnd) (more : current < initrdEnd)
    (fits : NameFits (heap.room origin - 432 * count) origin.mem initrdEnd current)
    (inside : Inside initrdStart initrdEnd w) :
    Inside initrdStart initrdEnd (final (watchedReadBlock layout heap.kalloc current w)) ↔
      BlockInside (heap.room origin - 432 * count) origin.mem initrdStart initrdEnd current := by
  have room : heap.room origin - 432 * count = heap.room w.state := by
    have all := walking.room
    omega
  have back : ∀ address ∈ imageSpan initrdStart initrdEnd,
      origin.mem address = w.state.mem address := fun address inImage =>
    (walking.same address inImage).symm
  rw [room] at fits ⊢
  rw [watchedReadBlock_inside_iff walking.reading growing bounded more
    (fits.congr (name_starts bounded more walking.starts) walking.same) inside]
  exact ⟨fun block => block.congr bounded more back,
    fun block => block.congr bounded more walking.same⟩

/-- While reads stay inside the image, the walk comes to every block that the heap has
room to come to. -/
theorem reaches (growing : Growing heap) (root : RootReady heap s)
    (bounded : initrdEnd ≤ kernelEnd)
    (reserve : Disjoint (imageSpan initrdStart initrdEnd) (heap.reserve s))
    (apart : Disjoint (imageSpan initrdStart initrdEnd) (Span s.root 168))
    (copies : NamesFit (heap.room s) initrdStart initrdEnd s.mem)
    (always : ∀ rounds, Inside initrdStart initrdEnd (final
      (watchedReadBlocks layout heap.kalloc initrdEnd rounds initrdStart ⟨begun s, []⟩)))
    (block : NthBlock s.mem initrdStart initrdEnd count current)
    (enough : 432 * count ≤ heap.room s) :
    ∃ (entries : List UInt32) (files : List (List UInt8)) (w : Watched Machine UInt32),
      Walking heap layout (imageSpan initrdStart initrdEnd) initrdStart initrdEnd s count current
        entries files w.state ∧
      BlockInside (heap.room s - 432 * count) s.mem initrdStart initrdEnd current ∧
      ∀ rounds, Inside initrdStart initrdEnd (final
        (watchedReadBlocks layout heap.kalloc initrdEnd rounds current w)) := by
  have once : ∀ {count current entries files} {w : Watched Machine UInt32},
      NthBlock s.mem initrdStart initrdEnd count current → 432 * count ≤ heap.room s →
      current < initrdEnd →
      Walking heap layout (imageSpan initrdStart initrdEnd) initrdStart initrdEnd s count current
        entries files w.state →
      (∀ rounds, Inside initrdStart initrdEnd (final
        (watchedReadBlocks layout heap.kalloc initrdEnd rounds current w))) →
      BlockInside (heap.room s - 432 * count) s.mem initrdStart initrdEnd current := by
    intro count current entries files w block enough more walking always
    refine (walking.inside_iff growing bounded more (copies count current block enough)
      (always 0)).mp ?_
    have first := always (0 + 1)
    rw [watchedReadBlocks_again heap.kalloc 0 more] at first
    by_contra outside
    refine not_inside_bind outside ?_ first
    exact fun _ w => Grows.refl w
  induction block with
  | first more =>
      have walking : Walking heap layout (imageSpan initrdStart initrdEnd) initrdStart initrdEnd s
          0 initrdStart [] [] (begun s) := root.walking growing reserve apart
      exact ⟨[], [], ⟨begun s, []⟩, walking, once (.first more) enough more walking always, always⟩
  | @next count current next before fits place more ih =>
      obtain ⟨entries, files, w, walking, block, always⟩ := ih (by omega)
      have here : current < initrdEnd := by
        rw [UInt32.lt_iff_toNat_lt] at more ⊢
        omega
      have fixed : BlockFixed (imageSpan initrdStart initrdEnd) (heap.room s - 432 * count) s.mem
          current := block.fixed bounded here (copies count current before (by omega))
      have room := walking.room
      have size := (fixed.congr walking.same).1
      obtain ⟨value, after, returned, advanced⟩ :=
        ((walking.proceeds growing fixed).mono (fun _ _ advanced => advanced) fun _ panics => by
          rcases panics.2 with long | full
          · rw [size] at long
            exact absurd fits (Nat.not_le.mpr long)
          · omega : Yields _ _ fun _ => False).returns
      obtain ⟨-, moved, entry, passed⟩ := walking.passes bounded here fixed advanced
      have same : value = next := UInt32.toNat_inj.mp (moved.trans place.symm)
      subst same
      obtain ⟨trace, run⟩ := watched_of_readBlock returned
      have later : ∀ rounds, Inside initrdStart initrdEnd (final (watchedReadBlocks layout
          heap.kalloc initrdEnd rounds value ⟨after, trace⟩)) := by
        intro rounds
        have whole := always (rounds + 1)
        rwa [watchedReadBlocks_again heap.kalloc rounds here, bind_of_ok run] at whole
      exact ⟨_, _, ⟨after, trace⟩, passed,
        once (w := ⟨after, trace⟩) (.next before fits place more) enough more passed later, later⟩

section Packed

variable {packed : List PackedFile}

end Packed

end Walk

/-! ## Two images at boot -/

end TorchOS.Filesystem
