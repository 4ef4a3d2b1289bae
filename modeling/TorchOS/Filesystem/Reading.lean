import TorchOS.Filesystem.Growing
import TorchOS.Filesystem.Loading

/-!
# The root directory while a ramdisk is read

Whatever its blocks hold, a round of `read_ramdisk` panics, or adds one file to the root
directory and moves on to the next block. The files and the directory lie below all that
the heap has yet to hand out, so that nothing written later reaches them, and neither
the blocks of the heap nor the copies of the names touch the memory that is to stay as
it is: the image itself above all.
-/

namespace TorchOS.Filesystem

open Base Base.Program Lib

/-- The memory of a directory and its entries. -/
def directorySpan (directory : UInt32) (entries : List UInt32) : Set UInt32 :=
  Span directory 168 ∪ {address | ∃ entry ∈ entries, address ∈ Span entry 8}

/-- The memory of the file of an entry. -/
def fileSpan (mem : Bytes) (entry : UInt32) : Set UInt32 := footprint mem (nodeOf mem entry)

/-- The file of an entry holds a text, and is as long. -/
def HoldsText (layout : Layout) (mem : Bytes) (entry : UInt32) (text : List UInt8) : Prop :=
  FileAt layout mem (nodeOf mem entry) ⟨text, text.length⟩

/-- The root directory lists the files read so far, in order, each apart from the others,
and all in memory that is handed out no more. The fixed memory is no part of this. -/
structure Reading (heap : Heap) (layout : Layout) (fixed : Set UInt32) (entries : List UInt32)
    (files : List (List UInt8)) (s : Machine) : Prop where
  ready : heap.Ready s
  listed : Entries s.mem s.root entries
  placed : Placed heap s s.root entries
  rootGranted : ⟨s.root, nodeSize⟩ ∈ s.kallocs
  entryGranted : ∀ entry ∈ entries, ⟨entry, direntSize⟩ ∈ s.kallocs
  held : List.Forall₂ (HoldsText layout s.mem) entries files
  fileSettled : ∀ entry ∈ entries, fileSpan s.mem entry ⊆ settled heap s
  fileOutside : ∀ entry ∈ entries,
    Disjoint (fileSpan s.mem entry) (directorySpan s.root entries)
  filesApart : ∀ left ∈ entries, ∀ right ∈ entries, left ≠ right →
    Disjoint (fileSpan s.mem left) (fileSpan s.mem right)
  fixedReserve : Disjoint fixed (heap.reserve s)
  fixedDirectory : Disjoint fixed (directorySpan s.root entries)
  fixedFiles : ∀ entry ∈ entries, Disjoint fixed (fileSpan s.mem entry)

section Walk

variable {heap : Heap} {layout : Layout} {fixed : Set UInt32} {s after : Machine}
  {entries : List UInt32} {files : List (List UInt8)} {text : List UInt8}
  {name node current : UInt32}

/-- The type of the root directory has a zero byte. -/
theorem Reading.zero (reading : Reading heap layout fixed entries files s) :
    s.mem (s.root + 129) = 0 := by
  have bytes : s.mem.read (Node.type s.root) 4 = _ := Bytes.read_eq_ofWord
  rw [reading.listed.type] at bytes
  have second := congrArg (fun bytes => bytes[1]?) bytes
  have byte : s.mem (Node.type s.root + 1) = ((1 : UInt32) >>> 8).toUInt8 := by
    simpa [Bytes.read, Bytes.ofWord, NodeType.value] using second
  have place : Node.type s.root + 1 = s.root + 129 := by
    rw [Node.type, UInt32.add_assoc]
    rfl
  rwa [place] at byte

theorem Reading.directory_settled (reading : Reading heap layout fixed entries files s)
    (growing : Growing heap) : directorySpan s.root entries ⊆ settled heap s := by
  rintro address (inRoot | ⟨entry, member, inEntry⟩)
  · exact growing.block_settled reading.ready reading.rootGranted inRoot
  · exact growing.block_settled reading.ready (reading.entryGranted entry member) inEntry

theorem Reading.nodeOf_kept {mem : Bytes} {entry : UInt32}
    (reading : Reading heap layout fixed entries files s)
    (growing : Growing heap)
    (same : ∀ address ∈ settled heap s, mem address = s.mem address) (member : entry ∈ entries) :
    nodeOf mem entry = nodeOf s.mem entry :=
  Bytes.load32_congr fun address inNode =>
    same address (reading.directory_settled growing (.inr ⟨entry, member, node_subset inNode⟩))

theorem Reading.fileSpan_kept {mem : Bytes} {entry : UInt32}
    (reading : Reading heap layout fixed entries files s)
    (growing : Growing heap)
    (same : ∀ address ∈ settled heap s, mem address = s.mem address) (member : entry ∈ entries) :
    fileSpan mem entry = fileSpan s.mem entry := by
  rw [fileSpan, fileSpan, reading.nodeOf_kept growing same member]
  exact footprint_congr fun address inFile =>
    same address (reading.fileSettled entry member inFile)

/-- What leaves settled memory and the heap's books alone keeps all of this. -/
theorem Reading.kept (reading : Reading heap layout fixed entries files s)
    (growing : Growing heap) (ready : heap.Ready after) (grown : s.kallocs ⊆ after.kallocs)
    (root : after.root = s.root)
    (same : ∀ address ∈ settled heap s, after.mem address = s.mem address) :
    Reading heap layout fixed entries files after := by
  have directory := reading.directory_settled growing
  have sameEntry : ∀ entry ∈ entries, ∀ address ∈ Span entry 8,
      after.mem address = s.mem address := fun entry member address inEntry =>
    same address (directory (.inr ⟨entry, member, inEntry⟩))
  have sameFile : ∀ entry ∈ entries, fileSpan after.mem entry = fileSpan s.mem entry :=
    fun entry member => reading.fileSpan_kept growing same member
  refine ⟨ready, ?_, ?_, ?_, fun entry member => grown (reading.entryGranted entry member), ?_,
    fun entry member => ?_, fun entry member => ?_,
    fun left leftMember right rightMember different => ?_,
    Set.disjoint_of_subset_right (Heap.reserve_anti grown) reading.fixedReserve, ?_,
    fun entry member => ?_⟩
  · rw [root]
    exact reading.listed.congr (fun address inRoot => same address (directory (.inl inRoot)))
      sameEntry
  · rw [root]
    exact reading.placed.mono grown
  · rw [root]
    exact grown reading.rootGranted
  · refine ((List.forall₂_and_left _ _).mpr ⟨fun _ member => member, reading.held⟩).imp ?_
    rintro entry text ⟨member, held⟩
    rw [HoldsText, reading.nodeOf_kept growing same member]
    exact FileAt.congr held fun address inFile =>
      same address (reading.fileSettled entry member inFile)
  · rw [sameFile entry member]
    exact (reading.fileSettled entry member).trans (settled_mono grown)
  · rw [sameFile entry member, root]
    exact reading.fileOutside entry member
  · rw [sameFile left leftMember, sameFile right rightMember]
    exact reading.filesApart left leftMember right rightMember different
  · rw [root]
    exact reading.fixedDirectory
  · rw [sameFile entry member]
    exact reading.fixedFiles entry member

theorem Reading.printed (reading : Reading heap layout fixed entries files s)
    (growing : Growing heap) (serial : List LogLine) :
    Reading heap layout fixed entries files (s.withSerial serial) :=
  reading.kept growing (Heap.ready_withSerial reading.ready serial)
    (fun _ member => member) rfl fun _ _ => rfl

/-! ## One round -/

/-- A file that holds a text was made out of the heap; settled and fixed memory were left
alone. -/
structure FileMade (heap : Heap) (layout : Layout) (fixed : Set UInt32) (text : List UInt8)
    (before : Machine) (node : UInt32) (after : Machine) : Prop where
  ready : heap.Ready after
  room : heap.room after + 424 = heap.room before
  held : FileAt layout after.mem node ⟨text, text.length⟩
  fresh : footprint after.mem node ⊆ heap.reserve before
  settles : footprint after.mem node ⊆ settled heap after
  root : after.root = before.root
  grown : before.kallocs ⊆ after.kallocs
  kept : ∀ address ∈ settled heap before, after.mem address = before.mem address
  fixed : ∀ address ∈ fixed, after.mem address = before.mem address

theorem FileMade.reading (made : FileMade heap layout fixed text s node after)
    (reading : Reading heap layout fixed entries files s) (growing : Growing heap) :
    Reading heap layout fixed entries files after :=
  reading.kept growing made.ready made.grown made.root made.kept

/-- Lines printed before and after do not matter. -/
theorem FileMade.printed {serial : List LogLine}
    (made : FileMade heap layout fixed text (s.withSerial serial) node after)
    (serial' : List LogLine) :
    FileMade heap layout fixed text s node (after.withSerial serial') := by
  have room := made.room
  rw [Heap.room_withSerial] at room
  exact ⟨Heap.ready_withSerial made.ready serial',
    (congrArg (· + 424) (Heap.room_withSerial after serial')).trans room, made.held, made.fresh,
    made.settles, made.root, made.grown, made.kept, made.fixed⟩

/-- A node is made for a name whose copy fits the room left, or the heap is full. -/
theorem Reading.constructs (reading : Reading heap layout fixed entries files s)
    (growing : Growing heap) (string : CString s.mem name text)
    (inFixed : Span name (text.length + 1) ⊆ fixed) (fits : text.length < heap.room s) :
    Yields (fsConstructNode layout heap.kalloc name .file s)
      (fun node after => FileMade heap layout fixed [] s node after)
      (fun reason => heap.room s < 424 ∧ heap.HaltsFor reason) := by
  have limit := growing.finish_le
  have most := growing.room_le reading.ready
  have owned : Disjoint (Span name (text.length + 1)) (heap.reserve s) :=
    Set.disjoint_of_subset_left inFixed reading.fixedReserve
  have starts : ∀ {node after}, heap.kalloc nodeSize s = .ok node after →
      node.toNat + heap.room s = growing.finish := fun run =>
    growing.starts reading.ready (by decide) run
  have copied : ∀ {node after}, heap.kalloc nodeSize s = .ok node after →
      Span node (text.length + 1) ⊆ unused heap.arena s.kallocs := fun run =>
    growing.span_free reading.ready (starts run) fits
  have inReserve : ∀ {region : Set UInt32}, region ⊆ unused heap.arena s.kallocs →
      region ⊆ heap.reserve s := fun inArena =>
    inArena.trans (unused_mono Set.subset_union_left _)
  have past : ∀ node after, heap.kalloc nodeSize s = .ok node after →
      Disjoint (Span name (text.length + 1) ∪ heap.books) (Span node (text.length + 1)) := by
    intro node after run
    rw [Set.disjoint_union_left]
    refine ⟨Set.disjoint_of_subset_right (inReserve (copied run)) owned, ?_⟩
    exact Set.disjoint_of_subset_right (fun _ inCopy => (copied run inCopy).1)
      heap.books_apart.symm
  have makes : Yields (fsConstructNode layout heap.kalloc name .file s) _ _ :=
    fsConstructNode_makes_or_halts reading.ready string (by omega) owned past
  refine makes.mono ?_ fun _ halts => halts
  intro node after made
  obtain ⟨middle, run⟩ := made.granted
  -- The copy of the name starts at the new node, above all that is settled.
  have kept : ∀ address ∈ settled heap s, after.mem address = s.mem address := by
    intro address below
    refine made.kept address (Set.disjoint_left.mp settled_disjoint below) fun inCopy => ?_
    exact Set.disjoint_left.mp settled_disjoint below (inReserve (copied run) inCopy)
  have grown : s.kallocs ⊆ after.kallocs := by
    rw [made.kallocs]
    exact List.subset_append_left _ _
  have granted : ∀ block ∈ [⟨node, nodeSize⟩, (⟨bufferOf after.mem node, 256⟩ : Block)],
      block.span ⊆ settled heap after := by
    intro block listed
    apply growing.block_settled made.ready
    rw [made.kallocs]
    exact List.mem_append_right _ listed
  refine ⟨made.ready, made.room, made.held, made.fresh, ?_, made.root, grown, kept,
    fun address inside => ?_⟩
  · rintro address (inNode | inBuffer)
    · exact granted _ List.mem_cons_self inNode
    · exact granted ⟨bufferOf after.mem node, 256⟩ (by simp) inBuffer
  · have outside := Set.disjoint_left.mp reading.fixedReserve inside
    exact made.kept address outside fun inCopy => outside (inReserve (copied run) inCopy)

/-- With no room for a node, the name does not matter. -/
theorem Reading.constructs_or_halts (reading : Reading heap layout fixed entries files s)
    (growing : Growing heap) (named : 168 ≤ heap.room s → ∃ text, CString s.mem name text ∧
      Span name (text.length + 1) ⊆ fixed ∧ text.length < heap.room s) :
    Yields (fsConstructNode layout heap.kalloc name .file s)
      (fun node after => FileMade heap layout fixed [] s node after)
      (fun reason => heap.room s < 424 ∧ heap.HaltsFor reason) := by
  by_cases enough : 168 ≤ heap.room s
  · obtain ⟨text, string, inFixed, fits⟩ := named enough
    exact reading.constructs growing string inFixed fits
  · have grants := heap.grants reading.ready (by decide : nodeSize.toNat ≤ 256)
    rw [nodeSize_toNat] at grants
    rw [fsConstructNode]
    cases run : heap.kalloc nodeSize s with
    | ok node after =>
        have room := (grants.of_ok run).2.2
        omega
    | error reason after =>
        rw [bind_of_error run]
        exact ⟨by omega, (grants.of_error run).2⟩

/-- The contents of a block, if they fit, are written to the new file. -/
theorem FileMade.written {size : UInt32} (made : FileMade heap layout fixed [] s node after)
    (reserve : Disjoint fixed (heap.reserve s)) (fits : size.toNat ≤ 256)
    (inFixed : Span (current + blockSize) size.toNat ⊆ fixed) :
    ∃ mem, fsWrite layout node size (current + blockSize) after =
        .ok size (after.withMem mem) ∧
      FileMade heap layout fixed (s.mem.read (current + blockSize) size.toNat) s node
        (after.withMem mem) := by
  have apart : Disjoint (Span (current + blockSize) size.toNat)
      (Span (bufferOf after.mem node) 256) :=
    Set.disjoint_of_subset inFixed (fun _ inBuffer => made.fresh (.inr inBuffer)) reserve
  have fitsEmpty : ([] : List UInt8).length + size.toNat ≤ 256 := by
    rw [List.length_nil]
    omega
  obtain ⟨mem, run, held, rewrites⟩ := fsWrite_ok made.held (Nat.zero_le _) fitsEmpty apart
  have contents : after.mem.read (current + blockSize) size.toNat =
      s.mem.read (current + blockSize) size.toNat :=
    Bytes.read_congr fun address inside => made.fixed address (inFixed inside)
  have length : (s.mem.read (current + blockSize) size.toNat).length = size.toNat :=
    Bytes.length_read
  have sameFile : footprint mem node = footprint after.mem node := rewrites.footprint
  have outside : ∀ {address}, address ∉ heap.reserve s → mem address = after.mem address :=
    fun beyond => rewrites.outside fun inFile => beyond (made.fresh inFile)
  have ready : heap.Ready (after.withMem mem) := by
    refine Heap.ready_of_granted made.ready ?_ fun address outside => rewrites.outside outside
    exact Set.disjoint_of_subset_left made.settles settled_disjoint
  refine ⟨mem, run, ready, ?_, ?_, ?_, ?_, made.root, made.grown, fun address below => ?_,
    fun address inside => ?_⟩
  · rw [Heap.room_withMem]
    exact made.room
  · rw [contents, List.length_nil, Nat.zero_add, splice_nil] at held
    rw [length]
    exact held
  · rw [Machine.withMem_mem, sameFile]
    exact made.fresh
  · rw [Machine.withMem_mem, sameFile]
    exact made.settles
  · exact (outside (Set.disjoint_left.mp settled_disjoint below)).trans (made.kept address below)
  · exact (outside (Set.disjoint_left.mp reserve inside)).trans (made.fixed address inside)

/-- What `fs_add_dirent` leaves of settled memory outside the directory. -/
theorem EntryAdded.settled_kept {file entry : UInt32}
    (added : EntryAdded heap s.root entries file s entry after) {address : UInt32}
    (below : address ∈ settled heap s) (outside : address ∉ directorySpan s.root entries) :
    after.mem address = s.mem address := by
  refine added.kept address (Set.disjoint_left.mp settled_disjoint below)
    (fun inRoot => outside (.inl inRoot)) fun other member inNext => ?_
  exact outside (.inr ⟨other, member, next_subset inNext⟩)

/-- A file read so far keeps its bytes. -/
theorem EntryAdded.file_kept {file entry other : UInt32}
    (added : EntryAdded heap s.root entries file s entry after)
    (reading : Reading heap layout fixed entries files s) (member : other ∈ entries)
    {address : UInt32} (inFile : address ∈ fileSpan s.mem other) :
    after.mem address = s.mem address :=
  added.settled_kept (reading.fileSettled other member inFile)
    (Set.disjoint_left.mp (reading.fileOutside other member) inFile)

theorem EntryAdded.fileSpan_kept {file entry other : UInt32}
    (added : EntryAdded heap s.root entries file s entry after)
    (reading : Reading heap layout fixed entries files s) (member : other ∈ entries) :
    fileSpan after.mem other = fileSpan s.mem other := by
  rw [fileSpan, fileSpan, added.nodeOf_kept reading.placed member]
  exact footprint_congr fun address inFile => added.file_kept reading member inFile

theorem EntryAdded.holdsText_kept {file entry other : UInt32}
    (added : EntryAdded heap s.root entries file s entry after)
    (reading : Reading heap layout fixed entries files s) (member : other ∈ entries)
    (held : HoldsText layout s.mem other text) : HoldsText layout after.mem other text := by
  rw [HoldsText, added.nodeOf_kept reading.placed member]
  exact FileAt.congr held fun address inFile => added.file_kept reading member inFile

/-- A new file is apart from the directory, -/
theorem FileMade.apart_directory (made : FileMade heap layout fixed text s node after)
    (reading : Reading heap layout fixed entries files s) (growing : Growing heap) :
    Disjoint (footprint after.mem node) (directorySpan after.root entries) := by
  rw [made.root]
  exact (Set.disjoint_of_subset (reading.directory_settled growing) made.fresh
    settled_disjoint).symm

/-- and from the files read so far. -/
theorem FileMade.apart_file {other : UInt32}
    (made : FileMade heap layout fixed text s node after)
    (reading : Reading heap layout fixed entries files s) (growing : Growing heap)
    (member : other ∈ entries) :
    Disjoint (fileSpan after.mem other) (footprint after.mem node) := by
  rw [reading.fileSpan_kept growing made.kept member]
  exact Set.disjoint_of_subset (reading.fileSettled other member) made.fresh settled_disjoint

theorem directorySpan_snoc (directory entry : UInt32) (entries : List UInt32) :
    directorySpan directory (entries ++ [entry]) =
      directorySpan directory entries ∪ Span entry 8 := by
  ext address
  simp [directorySpan, or_and_right, exists_or, or_assoc]

/-- A new file and an entry for it: the directory lists one file more. -/
theorem Reading.added {middle : Machine} {entry : UInt32}
    (reading : Reading heap layout fixed entries files s)
    (growing : Growing heap)
    (made : FileMade heap layout fixed text s node middle)
    (added : EntryAdded heap middle.root entries node middle entry after) :
    Reading heap layout fixed (entries ++ [entry]) (files ++ [text]) after := by
  have now := made.reading reading growing
  have grown : middle.kallocs ⊆ after.kallocs := by
    rw [added.kallocs]
    exact List.subset_append_left _ _
  have newBytes : ∀ address ∈ footprint middle.mem node, after.mem address = middle.mem address :=
    fun address inFile => added.settled_kept (made.settles inFile)
      (Set.disjoint_left.mp (made.apart_directory reading growing) inFile)
  have newNode : nodeOf after.mem entry = node := added.node
  have newFile : fileSpan after.mem entry = footprint middle.mem node := by
    rw [fileSpan, newNode, footprint_congr newBytes]
  have sameFile : ∀ other ∈ entries, fileSpan after.mem other = fileSpan middle.mem other :=
    fun other member => added.fileSpan_kept now member
  have directory : directorySpan after.root (entries ++ [entry]) =
      directorySpan middle.root entries ∪ Span entry 8 := by
    rw [added.root, directorySpan_snoc]
  have outside : ∀ {file : Set UInt32}, file ⊆ settled heap middle →
      Disjoint file (directorySpan middle.root entries) →
      Disjoint file (directorySpan after.root (entries ++ [entry])) := by
    intro file below apart
    rw [directory]
    exact Set.disjoint_union_right.mpr
      ⟨apart, Set.disjoint_of_subset below added.fresh settled_disjoint⟩
  have listed := added.listed
  have placed := now.placed.added added
  rw [← added.root] at listed placed
  refine ⟨added.ready, listed, placed, ?_, ?_, ?_, ?_, ?_, ?_,
    Set.disjoint_of_subset_right (Heap.reserve_anti grown) now.fixedReserve, ?_, ?_⟩
  · rw [added.root]
    exact grown now.rootGranted
  · refine forall_mem_snoc (fun other member => grown (now.entryGranted other member)) ?_
    rw [added.kallocs]
    exact List.mem_append_right _ (List.mem_singleton.mpr rfl)
  · refine List.rel_append ?_ (.cons ?_ .nil)
    · refine ((List.forall₂_and_left _ _).mpr ⟨fun _ member => member, now.held⟩).imp ?_
      rintro other contents ⟨member, held⟩
      exact added.holdsText_kept now member held
    · rw [HoldsText, newNode]
      exact made.held.congr newBytes
  · refine forall_mem_snoc (fun other member => ?_) ?_
    · rw [sameFile other member]
      exact (now.fileSettled other member).trans (settled_mono grown)
    · rw [newFile]
      exact made.settles.trans (settled_mono grown)
  · refine forall_mem_snoc (fun other member => ?_) ?_
    · rw [sameFile other member]
      exact outside (now.fileSettled other member) (now.fileOutside other member)
    · rw [newFile]
      exact outside made.settles (made.apart_directory reading growing)
  · refine apart_snoc (fun left leftMember right rightMember different => ?_) fun other member => ?_
    · rw [sameFile left leftMember, sameFile right rightMember]
      exact now.filesApart left leftMember right rightMember different
    · rw [sameFile other member, newFile]
      exact made.apart_file reading growing member
  · rw [directory]
    exact Set.disjoint_union_right.mpr ⟨now.fixedDirectory,
      Set.disjoint_of_subset_right added.fresh now.fixedReserve⟩
  · refine forall_mem_snoc (fun other member => ?_) ?_
    · rw [sameFile other member]
      exact now.fixedFiles other member
    · rw [newFile]
      exact Set.disjoint_of_subset_right made.fresh reading.fixedReserve

/-- A round leaves fixed memory alone. -/
theorem EntryAdded.fixed_kept {middle : Machine} {entry : UInt32}
    (now : Reading heap layout fixed entries files middle)
    (added : EntryAdded heap middle.root entries node middle entry after) {address : UInt32}
    (inside : address ∈ fixed) : after.mem address = middle.mem address := by
  refine added.kept address (Set.disjoint_left.mp now.fixedReserve inside)
    (fun inRoot => Set.disjoint_left.mp now.fixedDirectory inside (.inl inRoot))
    fun other member inNext => ?_
  exact Set.disjoint_left.mp now.fixedDirectory inside (.inr ⟨other, member, next_subset inNext⟩)

/-- What a round that returns did with the block at `current`. -/
structure Advanced (heap : Heap) (layout : Layout) (fixed : Set UInt32) (entries : List UInt32)
    (files : List (List UInt8)) (current : UInt32) (before : Machine) (next : UInt32)
    (after : Machine) : Prop where
  fits : (before.mem.load32 (RamdiskBlock.size current)).toNat ≤ 256
  room : heap.room after + 432 = heap.room before
  listed : ∃ entry, Reading heap layout fixed (entries ++ [entry]) (files ++ [before.mem.read
    (current + blockSize) (before.mem.load32 (RamdiskBlock.size current)).toNat]) after
  moved : next = current + (blockSize + before.mem.load32 (RamdiskBlock.size current))
  fixed : ∀ address ∈ fixed, after.mem address = before.mem address

/-- What a round needs of the block at `current`: its header, the string at its name and
its contents, as far as the heap has room to come to them, lie in fixed memory, and a copy
of the string fits that room. -/
structure BlockFixed (fixed : Set UInt32) (room : Nat) (mem : Bytes) (current : UInt32) :
    Prop where
  header : Span current 132 ⊆ fixed
  contents : 424 ≤ room → (mem.load32 (RamdiskBlock.size current)).toNat ≤ 256 →
    Span (current + blockSize) (mem.load32 (RamdiskBlock.size current)).toNat ⊆ fixed
  name : 168 ≤ room → ∃ text, CString mem (RamdiskBlock.name current) text ∧
    Span (RamdiskBlock.name current) (text.length + 1) ⊆ fixed ∧ text.length < room

theorem size_subset_header : Span (RamdiskBlock.size current) 4 ⊆ Span current 132 :=
  Span.mono (by omega)

/-- A round panics, or lists the contents of its block and moves on to the next. It panics
where the size exceeds 256 bytes or the heap has no room for a file, and only there. -/
theorem Reading.proceeds (reading : Reading heap layout fixed entries files s)
    (growing : Growing heap) (block : BlockFixed fixed (heap.room s) s.mem current)
    (few : entries.length + 1 < 2 ^ 32) :
    Yields (readBlock layout heap.kalloc current s)
      (fun next after => Advanced heap layout fixed entries files current s next after)
      (fun reason => (∃ message, reason = .panic message) ∧
        (256 < (s.mem.load32 (RamdiskBlock.size current)).toNat ∨ heap.room s < 432)) := by
  have sizeFixed : ∀ {mem : Bytes}, (∀ address ∈ fixed, mem address = s.mem address) →
      mem.load32 (RamdiskBlock.size current) = s.mem.load32 (RamdiskBlock.size current) :=
    fun same => Bytes.load32_congr fun address inSize =>
      same address (block.header (size_subset_header inSize))
  obtain ⟨first, logsName⟩ := logf_run reading.zero "Name: %s\n"
    [.str (RamdiskBlock.name current)]
  obtain ⟨second, logsSize⟩ := logf_again reading.zero first "\tSize: %u\n"
    [.number ((s.withSerial first).mem.load32 (RamdiskBlock.size current))]
  obtain ⟨third, logsContents⟩ := logf_again reading.zero second "\tContents: %s\n"
    [.str (current + blockSize)]
  have constructs : Yields (fsConstructNode layout heap.kalloc (RamdiskBlock.name current) .file
      (s.withSerial third))
      (fun node after => FileMade heap layout fixed [] (s.withSerial third) node after)
      (fun reason => heap.room s < 424 ∧ heap.HaltsFor reason) := by
    rw [← Heap.room_withSerial s third]
    refine (reading.printed growing third).constructs_or_halts growing ?_
    rw [Heap.room_withSerial]
    exact block.name
  rw [readBlock, bind_of_ok logsName, bind_of_ok (getWord_run _ _), bind_of_ok logsSize,
    bind_of_ok logsContents]
  refine (constructs.mono (fun _ _ made => made) fun _ halts =>
    ⟨growing.panics halts.2, .inr (by omega)⟩).bind ?_
  intro node made empty
  have sizeMade := sizeFixed empty.fixed
  have zeroMade := (empty.reading (reading.printed growing third) growing).zero
  obtain ⟨fourth, logsAllocated⟩ := logf_run zeroMade "%u\n"
    [.number (made.mem.load32 (Node.allocatedSize node))]
  obtain ⟨fifth, logsLength⟩ := logf_again zeroMade fourth "%u\n"
    [.number ((made.withSerial fourth).mem.load32 (RamdiskBlock.size current))]
  have printed := empty.printed fifth
  rw [bind_of_ok (getWord_run _ _), bind_of_ok logsAllocated, bind_of_ok (getWord_run _ _),
    bind_of_ok logsLength, bind_of_ok (getWord_run _ _), Machine.withSerial_mem, sizeMade]
  by_cases fits : (s.mem.load32 (RamdiskBlock.size current)).toNat ≤ 256
  · have roomMade := printed.room
    obtain ⟨mem, writes, written⟩ :=
      printed.written reading.fixedReserve fits (block.contents (by omega) fits)
    have now := written.reading reading growing
    have roomWritten := written.room
    have adds : Yields (fsAddDirent heap.kalloc _ node _) _ _ :=
      fsAddDirent_yields now.ready now.listed (by omega) now.placed written.held.type now.zero
    rw [bind_of_ok writes, bind_of_ok (read_run _ _)]
    refine (adds.mono (fun _ _ added => added) fun _ halts =>
      ⟨growing.panics halts.2, .inr (by omega)⟩).bind ?_
    rintro _ last ⟨entry, added⟩
    have fixedLast : ∀ address ∈ fixed, last.mem address = s.mem address := fun address inside =>
      (added.fixed_kept now inside).trans (written.fixed address inside)
    have roomAdded := added.room
    rw [bind_of_ok (getWord_run _ _), pure_run, sizeFixed fixedLast]
    exact ⟨fits, by omega, ⟨entry, reading.added growing written added⟩, rfl, fixedLast⟩
  · -- `ramdisk_write` refuses the size before it moves `current`.
    have wide : ([] : List UInt8).length + (s.mem.load32 (RamdiskBlock.size current)).toNat <
        2 ^ 32 := by
      have bound := (s.mem.load32 (RamdiskBlock.size current)).toNat_lt
      rw [List.length_nil]
      omega
    have refused : ¬ (([] : List UInt8).length ≤ ([] : List UInt8).length ∧
        ([] : List UInt8).length + (s.mem.load32 (RamdiskBlock.size current)).toNat ≤ 256) := by
      rw [List.length_nil]
      omega
    obtain ⟨message, panics⟩ := fsWrite_panics printed.held wide refused (current + blockSize)
    rw [bind_of_error panics]
    exact ⟨⟨message, rfl⟩, .inl (Nat.not_le.mp fits)⟩

end Walk

end TorchOS.Filesystem
