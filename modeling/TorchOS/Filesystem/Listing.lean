import TorchOS.Filesystem.Decoder
import TorchOS.Filesystem.Termination

/-!
# The listing of the root directory

`init_filesystem` reads each file of the root directory into `test`, an array of 100
bytes, and logs `test` as a string. Nothing checks that a file fits, and nothing ends
the string: it goes on with what lay in `test` before. A trace of the bytes stored and
of the strings shown says what becomes of each file.
-/

namespace TorchOS.Filesystem

open Base Base.Program Lib

/-- What the listing does with `test`: a byte stored, or a string shown. -/
inductive ListEvent where
  | stored (address : UInt32)
  | shown (text : List UInt8)

/-- Code that keeps a trace of what it does with `test`. -/
abbrev Lister := Program Halt (Watched Machine ListEvent)

section Traced

variable (layout : Layout)

/-- `memcpy` -/
def tracedMemcpy (destination source num : UInt32) : Lister Unit := do
  watch fun _ => (spanReads destination num.toNat).map .stored
  unwatched (memcpy destination source num)

/-- `ramdisk_read` -/
def tracedRamdiskRead (node offset size buffer : UInt32) : Lister UInt32 := do
  unwatched (panicIf ((← unwatched (getWord (Node.type node))) ≠ NodeType.file.value)
    "Trying to RAMDISK read from a node that is not a file!")
  unwatched (checkReadEnd node offset size)
  tracedMemcpy buffer ((← unwatched (getWord (Node.buffer node))) + offset) size
  unwatched (putWord (Node.offset node) (offset + size))
  pure size

/-- A call through `node->read`. -/
def tracedCallTransfer (pointer node offset size buffer : UInt32) : Lister UInt32 :=
  if pointer = layout.ramdiskRead then tracedRamdiskRead node offset size buffer
  else if pointer = layout.ramdiskWrite then unwatched (ramdiskWrite node offset size buffer)
  else halt (.wildCall pointer)

/-- `fs_read` -/
def tracedFsRead (node size buffer : UInt32) : Lister UInt32 := do
  unwatched (panicIf ((← unwatched (getWord (Node.read node))) = 0)
    "fs_read function pointer not set!")
  tracedCallTransfer layout (← unwatched (getWord (Node.read node))) node
    (← unwatched (getWord (Node.offset node))) size buffer

/-- `logf` with `test` as a string. -/
def tracedShow : Lister Unit := do
  watch fun s => (cString s.mem loopBound layout.test).toList.map .shown
  unwatched (logf "%s\n" [.str layout.test])

/-- One round of the listing. -/
def tracedListEntry (current : UInt32) : Lister UInt32 := do
  let node ← unwatched (getWord (Dirent.node current))
  let _ ← unwatched (fsSeek layout node 0)
  let node ← unwatched (getWord (Dirent.node current))
  let _ ← tracedFsRead layout node (← unwatched (getWord (Node.canonicalSize node))) layout.test
  let node ← unwatched (getWord (Dirent.node current))
  unwatched (logf "Filename: %s\n" [.str (Node.name node)])
  unwatched (logf "Size: %u\n" [.number (← unwatched (getWord (Node.canonicalSize node)))])
  tracedShow layout
  unwatched (getWord (Dirent.next current))

/-- The loop of the listing. -/
def tracedEntries (fuel : Nat) (current : UInt32) : Lister UInt32 :=
  loop (onState fun current _ => current ≠ 0) (tracedListEntry layout) .endless fuel current

/-- The listing of the root directory. -/
def tracedListRoot : Lister Unit := do
  unwatched (logf "==== Reading Root Directory ====\n" [])
  let head ← unwatched (getWord (Node.head (← unwatched (read Machine.root))))
  let _ ← tracedEntries layout loopBound head
  pure ()

theorem tracedRamdiskRead_watches (node offset size buffer : UInt32) :
    Watches (tracedRamdiskRead node offset size buffer) (ramdiskRead node offset size buffer) := by
  refine .bind (.unwatched _) fun _ => .bind (.unwatched _) fun _ => .bind (.unwatched _) fun _ =>
    .bind (.unwatched _) fun _ => ?_
  exact .bind (.after_watch _ (.unwatched _)) fun _ => .bind (.unwatched _) fun _ _ => rfl

theorem tracedFsRead_watches (node size buffer : UInt32) :
    Watches (tracedFsRead layout node size buffer) (fsRead layout node size buffer) := by
  refine .bind (.unwatched _) fun _ => .bind (.unwatched _) fun _ =>
    .bind (.unwatched _) fun pointer => .bind (.unwatched _) fun offset => ?_
  unfold tracedCallTransfer callTransfer
  by_cases reads : pointer = layout.ramdiskRead
  · rw [if_pos reads, if_pos reads]
    exact tracedRamdiskRead_watches _ _ _ _
  · rw [if_neg reads, if_neg reads]
    by_cases writes : pointer = layout.ramdiskWrite
    · rw [if_pos writes, if_pos writes]
      exact .unwatched _
    · rw [if_neg writes, if_neg writes]
      exact fun _ => rfl

theorem tracedListEntry_watches (current : UInt32) :
    Watches (tracedListEntry layout current) (listEntry layout current) := by
  refine .bind (.unwatched _) fun _ => .bind (.unwatched _) fun _ => .bind (.unwatched _) fun _ =>
    .bind (.unwatched _) fun _ => .bind (tracedFsRead_watches layout _ _ _) fun _ => ?_
  refine .bind (.unwatched _) fun _ => .bind (.unwatched _) fun _ => .bind (.unwatched _) fun _ =>
    .bind (.unwatched _) fun _ => ?_
  exact .bind (.after_watch _ (.unwatched _)) fun _ => .unwatched _

/-- Forgetting the trace gives the listing. -/
theorem tracedListRoot_watches : Watches (tracedListRoot layout) (listRoot layout) := by
  refine .bind (.unwatched _) fun _ => .bind (.unwatched _) fun _ =>
    .bind (.unwatched _) fun _ => ?_
  exact .bind (.loop (tracedListEntry_watches layout) _ _) fun _ _ => rfl

/-! ## Traces only grow -/

end Traced

/-! ## One file -/

section Round

variable {layout : Layout} {heap : Heap} {fixed : Set UInt32} {s : Machine}
  {entries : List UInt32} {files : List (List UInt8)} {text : List UInt8} {mem : Bytes}
  {entry node size buffer : UInt32} {file : ByteFile} {w : Watched Machine ListEvent}

/-- What the listing leaves of the memory it found: only `test` and the offsets of the
files changed, and each file still holds its text. -/
structure Browsed (layout : Layout) (entries : List UInt32) (origin mem : Bytes) : Prop where
  kept : ∀ address, address ∉ Span layout.test 100 →
    (∀ entry ∈ entries, address ∉ Span (Node.offset (nodeOf origin entry)) 4) →
    mem address = origin address
  held : ∀ entry ∈ entries, ∀ text, HoldsText layout origin entry text →
    ∃ cursor, FileAt layout mem (nodeOf origin entry) ⟨text, cursor⟩

theorem offset_subset {entry : UInt32} :
    Span (Node.offset (nodeOf mem entry)) 4 ⊆ fileSpan mem entry :=
  fun _ inOffset => .inl (field_subset (by decide) inOffset)

/-- The directory is as it was. -/
theorem Browsed.directory_kept (browsed : Browsed layout entries s.mem mem)
    (reading : Reading heap layout fixed entries files s)
    (inFixed : Span layout.test 101 ⊆ fixed) {address : UInt32}
    (inside : address ∈ directorySpan s.root entries) : mem address = s.mem address := by
  refine browsed.kept address (fun inTest => ?_) fun entry member inOffset => ?_
  · exact Set.disjoint_left.mp reading.fixedDirectory (inFixed (Span.mono (by omega) inTest)) inside
  · exact Set.disjoint_left.mp (reading.fileOutside entry member) (offset_subset inOffset) inside

theorem Browsed.nodeOf_kept (browsed : Browsed layout entries s.mem mem)
    (reading : Reading heap layout fixed entries files s)
    (inFixed : Span layout.test 101 ⊆ fixed) (member : entry ∈ entries) :
    nodeOf mem entry = nodeOf s.mem entry :=
  Bytes.load32_congr fun _ inNode =>
    browsed.directory_kept reading inFixed (.inr ⟨entry, member, node_subset inNode⟩)

theorem Browsed.zero (browsed : Browsed layout entries s.mem mem)
    (reading : Reading heap layout fixed entries files s)
    (inFixed : Span layout.test 101 ⊆ fixed) :
    mem (s.root + 129) = 0 := by
  refine (browsed.directory_kept reading inFixed (.inl ?_)).trans reading.zero
  have place : s.root + 129 = s.root + UInt32.ofNat 129 := rfl
  rw [place]
  exact Span.add_ofNat_mem (by omega)

/-- The memory of a file is where it was. -/
theorem Browsed.footprint_kept (browsed : Browsed layout entries s.mem mem)
    (reading : Reading heap layout fixed entries files s)
    (inFixed : Span layout.test 101 ⊆ fixed) (member : entry ∈ entries) :
    footprint mem (nodeOf s.mem entry) = fileSpan s.mem entry := by
  have same : bufferOf mem (nodeOf s.mem entry) = bufferOf s.mem (nodeOf s.mem entry) := by
    apply Bytes.load32_congr
    intro address inBuffer
    have inFile : address ∈ fileSpan s.mem entry := .inl (field_subset (by decide) inBuffer)
    refine browsed.kept address (fun inTest => ?_) fun other listed inOffset => ?_
    · exact Set.disjoint_left.mp (reading.fixedFiles entry member)
        (inFixed (Span.mono (by omega) inTest)) inFile
    · by_cases this : other = entry
      · rw [this] at inOffset
        have apart : Disjoint (Span (Node.offset (nodeOf s.mem entry)) 4)
            (Span (Node.buffer (nodeOf s.mem entry)) 4) :=
          Span.shift_disjoint (by decide) (by decide)
        exact Set.disjoint_left.mp apart inOffset inBuffer
      · exact Set.disjoint_left.mp (reading.filesApart other listed entry member this)
          (offset_subset inOffset) inFile
  rw [footprint, same]
  rfl

/-- A read of one file into `test` keeps all of this. -/
theorem Browsed.step {mem' : Bytes} {start cursor : Nat}
    (browsed : Browsed layout entries s.mem mem)
    (reading : Reading heap layout fixed entries files s)
    (inFixed : Span layout.test 101 ⊆ fixed) (member : entry ∈ entries)
    (before : FileAt layout mem (nodeOf s.mem entry) ⟨text, start⟩)
    (held : FileAt layout mem' (nodeOf s.mem entry) ⟨text, cursor⟩)
    (same : ∀ address, address ∉ Span layout.test 100 →
      address ∉ Span (Node.offset (nodeOf s.mem entry)) 4 → mem' address = mem address) :
    Browsed layout entries s.mem mem' := by
  refine ⟨fun address outsideTest outsideOffsets => ?_, ?_⟩
  · exact (same address outsideTest (outsideOffsets entry member)).trans
      (browsed.kept address outsideTest outsideOffsets)
  · intro other listed contents holds
    obtain ⟨cursor', old⟩ := browsed.held other listed contents holds
    by_cases this : other = entry
    · subst this
      have bytes : contents = text := old.bytes_eq before
      rw [bytes]
      exact ⟨cursor, held⟩
    · refine ⟨cursor', old.congr fun address inFile => ?_⟩
      rw [browsed.footprint_kept reading inFixed listed] at inFile
      refine same address (fun inTest => ?_) fun inOffset => ?_
      · exact Set.disjoint_left.mp (reading.fixedFiles other listed)
          (inFixed (Span.mono (by omega) inTest)) inFile
      · exact Set.disjoint_left.mp (reading.filesApart other listed entry member this) inFile
          (offset_subset inOffset)

end Round

/-! ## The whole listing -/

/-- What the listing should do: store each file, whole, and show it. -/
def listing (layout : Layout) (texts : List (List UInt8)) : List ListEvent :=
  texts.flatMap fun text => (spanReads layout.test text.length).map .stored ++ [.shown text]

section Whole

variable {layout : Layout} {heap : Heap} {fixed : Set UInt32} {s : Machine}
  {entries rest : List UInt32} {files texts : List (List UInt8)} {text : List UInt8}
  {test current : UInt32} {mem mem' : Bytes} {w : Watched Machine ListEvent}

end Whole

/-! ## Ramdisks -/

/-- A file as a ramdisk holds it: a name field of any bytes, and contents without zero
bytes that fit a file buffer. -/
structure BlockFile where
  field : List UInt8
  contents : List UInt8
  length_field : field.length = 128
  contents_short : contents.length ≤ 256
  contents_noNul : 0 ∉ contents

section Ramdisk

variable {layout : Layout} {heap : Heap} {fixed : Set UInt32} {origin s after : Machine}
  {count : Nat} {entries : List UInt32} {listed : List (List UInt8)} {files rest : List BlockFile}
  {file : BlockFile} {mem : Bytes} {current initrdStart initrdEnd value : UInt32}

end Ramdisk

/-! ## Two listings at boot -/

/-- A packed file as a block of a ramdisk. -/
def PackedFile.block (file : PackedFile) (noNul : 0 ∉ file.contents) : BlockFile where
  field := pack128s file.name
  contents := file.contents
  length_field := length_pack128s file.name
  contents_short := file.contents_short
  contents_noNul := noNul

section BootListing

variable {packed : List PackedFile} {limit : UInt32}

end BootListing

end TorchOS.Filesystem
