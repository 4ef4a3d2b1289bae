import TorchOS.Filesystem.Directory

/-!
# Loading the ramdisk undoes packing it

`make_initrd.py` writes for each file its size, its name padded to 128 bytes and
its contents. `read_ramdisk` turns such an image back into the files, one entry
of the root directory for each, in order.
-/

namespace TorchOS.Filesystem

open Base Base.Program Lib

/-! ## Packing -/

/-- A file that fits a ramdisk block and a file buffer. -/
structure PackedFile where
  name : List UInt8
  contents : List UInt8
  name_ne_nil : name ≠ []
  name_noNul : 0 ∉ name
  name_short : name.length ≤ 127
  contents_short : contents.length ≤ 256

/-- `struct.pack('128s', name)`: cut, or padded with zeros, to 128 bytes. -/
def pack128s (name : List UInt8) : List UInt8 := (name ++ List.replicate 128 0).take 128

/-- What `make_initrd.py` writes for one file: `struct.pack('I', size)`, the name
and the contents. -/
def packFile (file : PackedFile) : List UInt8 :=
  Bytes.ofWord (UInt32.ofNat file.contents.length) ++ pack128s file.name ++ file.contents

/-- The image `make_initrd.py` writes. -/
def makeInitrd (files : List PackedFile) : List UInt8 := files.flatMap packFile

theorem pack128s_short {name : List UInt8} (short : name.length ≤ 127) :
    pack128s name = name ++ List.replicate (128 - name.length) 0 := by
  rw [pack128s, List.take_append, List.take_of_length_le (by omega), List.take_replicate]
  congr 2
  omega

theorem pack128s_eq (file : PackedFile) :
    pack128s file.name = file.name ++ List.replicate (128 - file.name.length) 0 :=
  pack128s_short file.name_short

@[simp] theorem length_pack128s (name : List UInt8) : (pack128s name).length = 128 := by
  rw [pack128s, List.length_take, List.length_append, List.length_replicate]
  omega

/-- A name that fits its field is a string there. -/
theorem string_of_pack128s {mem : Bytes} {address : UInt32} {name : List UInt8}
    (stored : mem.read address 128 = pack128s name) (short : name.length ≤ 127)
    (noNul : 0 ∉ name) : CString mem address name := by
  refine ⟨?_, noNul⟩
  have start : address + UInt32.ofNat 0 = address := by grind
  have part : mem.read (address + UInt32.ofNat 0) (name.length + 1) =
      ((mem.read address 128).drop 0).take (name.length + 1) :=
    Bytes.read_part (by omega)
  have padding : 128 - name.length = (127 - name.length) + 1 := by omega
  rw [start, stored, pack128s_short short, List.drop_zero, List.take_append,
    List.take_of_length_le (by omega), Nat.add_sub_cancel_left, padding, List.replicate_succ,
    List.take_succ_cons, List.take_zero] at part
  exact part

theorem length_packFile (file : PackedFile) :
    (packFile file).length = 132 + file.contents.length := by
  simp only [packFile, List.length_append, Bytes.length_ofWord, length_pack128s]

/-- The bytes of a block, read as `struct block` and what follows it. -/
theorem block_parts {mem : Bytes} {block size : UInt32} {field contents : List UInt8}
    (width : field.length = 128)
    (stored : mem.read block (132 + contents.length) = Bytes.ofWord size ++ field ++ contents) :
    mem.load32 (RamdiskBlock.size block) = size ∧
      mem.read (RamdiskBlock.name block) 128 = field ∧
      mem.read (block + blockSize) contents.length = contents := by
  have header : block + UInt32.ofNat 132 = block + blockSize := rfl
  have name : block + UInt32.ofNat 4 = RamdiskBlock.name block := rfl
  have four : (132 : Nat) = 4 + 128 := rfl
  rw [Bytes.read_add, header, four, Bytes.read_add, name] at stored
  obtain ⟨parts, stored⟩ := List.append_inj stored (by
    simp only [List.length_append, Bytes.length_read, Bytes.length_ofWord, width])
  obtain ⟨word, named⟩ := List.append_inj parts (by rw [Bytes.length_read, Bytes.length_ofWord])
  refine ⟨?_, named, stored⟩
  rw [RamdiskBlock.size, Bytes.load32, word, Bytes.toWord_ofWord]

/-- A packed file lies at an address, field by field. -/
structure BlockAt (mem : Bytes) (block : UInt32) (file : PackedFile) : Prop where
  size : mem.load32 (RamdiskBlock.size block) = UInt32.ofNat file.contents.length
  name : CString mem (RamdiskBlock.name block) file.name
  contents : mem.read (block + blockSize) file.contents.length = file.contents
  ends : ∃ zero ∈ Span block 132, mem zero = 0

/-- The bytes of a packed file, read as a ramdisk block. -/
theorem BlockAt.of_read {mem : Bytes} {block : UInt32} {file : PackedFile}
    (stored : mem.read block (packFile file).length = packFile file) : BlockAt mem block file := by
  have short := file.name_short
  rw [length_packFile, packFile] at stored
  obtain ⟨size, name, contents⟩ := block_parts (length_pack128s _) stored
  have string : CString mem (RamdiskBlock.name block) file.name :=
    string_of_pack128s name file.name_short file.name_noNul
  refine ⟨size, string, contents,
    RamdiskBlock.name block + UInt32.ofNat file.name.length, ?_, string.terminator⟩
  have place : RamdiskBlock.name block + UInt32.ofNat file.name.length =
      block + UInt32.ofNat (4 + file.name.length) := by
    rw [RamdiskBlock.name, UInt32.ofNat_add, UInt32.add_assoc]
    rfl
  rw [place]
  exact Span.add_ofNat_mem (by omega)

/-! ## One file -/

/-- The node of an entry. -/
def nodeOf (mem : Bytes) (entry : UInt32) : UInt32 := mem.load32 (Dirent.node entry)

/-- The memory that loading still writes: the reserve, the directory and the entries. -/
def writable (heap : Heap) (s : Machine) (directory : UInt32) (entries : List UInt32) :
    Set UInt32 :=
  heap.reserve s ∪ Span directory 168 ∪ {address | ∃ entry ∈ entries, address ∈ Span entry 8}

/-- An entry of the directory holds a packed file: an `FS_FILE` node with its name,
its contents, and their length as the canonical size. -/
structure EntryAt (layout : Layout) (mem : Bytes) (entry : UInt32) (file : PackedFile) : Prop where
  held : FileAt layout mem (nodeOf mem entry) ⟨file.contents, file.contents.length⟩
  name : mem.read (Node.name (nodeOf mem entry)) 128 = pack128s file.name

/-- The directory holds the files loaded so far, out of the way of what is still
to be written. -/
structure Loaded (layout : Layout) (heap : Heap) (image : Set UInt32) (directory : UInt32)
    (entries : List UInt32) (files : List PackedFile) (s : Machine) : Prop where
  ready : heap.Ready s
  root : s.root = directory
  listed : Entries s.mem directory entries
  loaded : List.Forall₂ (EntryAt layout s.mem) entries files
  placed : Placed heap s directory entries
  filesApart : ∀ entry ∈ entries,
    Disjoint (footprint s.mem (nodeOf s.mem entry)) (writable heap s directory entries)
  imageApart : Disjoint image (writable heap s directory entries)

section Round

variable {layout : Layout} {heap : Heap} {image : Set UInt32} {s middle after : Machine}
  {mem mem' : Bytes} {directory entry node current : UInt32} {entries : List UInt32}
  {file : PackedFile} {files : List PackedFile}

theorem EntryAt.congr (held : EntryAt layout mem entry file)
    (sameNode : nodeOf mem' entry = nodeOf mem entry)
    (same : ∀ address ∈ footprint mem (nodeOf mem entry), mem' address = mem address) :
    EntryAt layout mem' entry file := by
  refine ⟨?_, ?_⟩
  · rw [sameNode]
    exact held.held.congr same
  · rw [sameNode]
    refine (Bytes.read_congr fun address inName => ?_).trans held.name
    exact same address (.inl (Span.mono (by omega) inName))

/-- Entries read only the directory and themselves. -/
theorem Entries.congr (listed : Entries mem directory entries)
    (sameDirectory : ∀ address ∈ Span directory 168, mem' address = mem address)
    (sameEntries : ∀ entry ∈ entries, ∀ address ∈ Span entry 8, mem' address = mem address) :
    Entries mem' directory entries := by
  refine ⟨(load32_field_congr (by decide) sameDirectory).trans listed.type, ?_,
    (congrArg UInt32.toNat (load32_field_congr (by decide) sameDirectory)).trans listed.size⟩
  have sameHead : headOf mem' directory = headOf mem directory :=
    congrArg pointerOf (load32_field_congr (by decide) sameDirectory)
  rw [sameHead]
  exact listed.chain.congr fun entry member =>
    congrArg pointerOf (load32_field_congr (by decide) (sameEntries entry member))

theorem Placed.mono (placed : Placed heap s directory entries) (grown : s.kallocs ⊆ after.kallocs) :
    Placed heap after directory entries :=
  ⟨Set.disjoint_of_subset_right (Heap.reserve_anti grown) placed.handedOut,
    fun entry member => Set.disjoint_of_subset_right (Heap.reserve_anti grown)
      (placed.granted entry member),
    placed.outside, placed.apart⟩

/-- What the reserve held, the directory and its entries do not. -/
theorem Placed.disjoint_of_reserve (placed : Placed heap s directory entries)
    {region : Set UInt32} (inside : region ⊆ heap.reserve s) :
    Disjoint region
      (Span directory 168 ∪ {address | ∃ entry ∈ entries, address ∈ Span entry 8}) := by
  rw [Set.disjoint_left]
  rintro address member (inDirectory | ⟨entry, listed, inEntry⟩)
  · exact Set.disjoint_left.mp placed.handedOut inDirectory (inside member)
  · exact Set.disjoint_left.mp (placed.granted entry listed) inEntry (inside member)

/-- What holds of the entries and of one more holds of all. -/
theorem forall_mem_snoc {P : UInt32 → Prop} (old : ∀ other ∈ entries, P other) (new : P entry) :
    ∀ other ∈ entries ++ [entry], P other :=
  List.forall_mem_append.mpr ⟨old, List.forall_mem_singleton.mpr new⟩

/-- One more that is apart from the others leaves all apart. -/
theorem apart_snoc {span : UInt32 → Set UInt32}
    (old : ∀ left ∈ entries, ∀ right ∈ entries, left ≠ right →
      Disjoint (span left) (span right))
    (new : ∀ other ∈ entries, Disjoint (span other) (span entry)) :
    ∀ left ∈ entries ++ [entry], ∀ right ∈ entries ++ [entry], left ≠ right →
      Disjoint (span left) (span right) :=
  forall_mem_snoc
    (fun left leftMember => forall_mem_snoc (old left leftMember) fun _ => new left leftMember)
    (forall_mem_snoc (fun right rightMember _ => (new right rightMember).symm)
      fun different => absurd rfl different)

/-- A directory with one more entry, out of what was reserve. -/
theorem Placed.added {file : UInt32} (placed : Placed heap s directory entries)
    (added : EntryAdded heap directory entries file s entry after) :
    Placed heap after directory (entries ++ [entry]) := by
  have grown : s.kallocs ⊆ after.kallocs := by
    rw [added.kallocs]
    exact List.subset_append_left _ _
  have granted : Disjoint (Span entry 8) (heap.reserve after) := by
    have member : ⟨entry, direntSize⟩ ∈ after.kallocs := by
      rw [added.kallocs]
      exact List.mem_append_right _ (List.mem_singleton.mpr rfl)
    have apart : Disjoint (Block.span ⟨entry, direntSize⟩) (heap.reserve after) :=
      Heap.disjoint_reserve member
    exact apart
  have kept := placed.mono grown
  refine ⟨kept.handedOut, forall_mem_snoc kept.granted granted,
    forall_mem_snoc placed.outside ?_, apart_snoc placed.apart fun old member => ?_⟩
  · exact Set.disjoint_of_subset_left added.fresh placed.handedOut.symm
  · exact Set.disjoint_of_subset_right added.fresh (placed.granted old member)

/-- Loading a file leaves less to be written. -/
theorem writable_anti (grown : s.kallocs ⊆ after.kallocs)
    (fresh : Span entry 8 ⊆ heap.reserve s) :
    writable heap after directory (entries ++ [entry]) ⊆ writable heap s directory entries := by
  rintro address ((inReserve | inDirectory) | ⟨other, member, inEntry⟩)
  · exact .inl (.inl (Heap.reserve_anti grown inReserve))
  · exact .inl (.inr inDirectory)
  · rcases List.mem_append.mp member with old | new
    · exact .inr ⟨other, old, inEntry⟩
    · rw [List.mem_singleton.mp new] at inEntry
      exact .inl (.inl (fresh inEntry))

/-- What a call of `fs_add_dirent` leaves of the memory it found. -/
theorem EntryAdded.kept_outside {file : UInt32}
    (added : EntryAdded heap directory entries file middle entry after)
    (grown : s.kallocs ⊆ middle.kallocs) {address : UInt32}
    (outside : address ∉ writable heap s directory entries) :
    after.mem address = middle.mem address := by
  refine added.kept address (fun inReserve => ?_) (fun inDirectory => ?_) ?_
  · exact outside (.inl (.inl (Heap.reserve_anti grown inReserve)))
  · exact outside (.inl (.inr inDirectory))
  · exact fun other member inNext => outside (.inr ⟨other, member, next_subset inNext⟩)

/-- The node of an earlier entry stays. -/
theorem EntryAdded.nodeOf_kept {file other : UInt32}
    (added : EntryAdded heap directory entries file s entry after)
    (placed : Placed heap s directory entries) (member : other ∈ entries) :
    nodeOf after.mem other = nodeOf s.mem other := by
  apply Bytes.load32_congr
  intro address inNode
  have inOther : address ∈ Span other 8 := node_subset inNode
  refine added.kept address (Set.disjoint_left.mp (placed.granted other member) inOther)
    (Set.disjoint_left.mp (placed.outside other member) inOther) fun last lastMember inNext => ?_
  by_cases same : other = last
  · rw [same] at inNode
    exact Set.disjoint_left.mp node_apart_next inNode inNext
  · exact Set.disjoint_left.mp (placed.apart other member last lastMember same) inOther
      (next_subset inNext)

/-- An empty node constructed and filled, and an entry added for it, load one file. -/
theorem Loaded.added (loaded : Loaded layout heap image directory entries files s)
    (grown : s.kallocs ⊆ middle.kallocs)
    (keptMiddle : ∀ address ∉ heap.reserve s, middle.mem address = s.mem address)
    (held : FileAt layout middle.mem node ⟨file.contents, file.contents.length⟩)
    (name : middle.mem.read (Node.name node) 128 = pack128s file.name)
    (fresh : footprint middle.mem node ⊆ heap.reserve s)
    (granted : Disjoint (footprint middle.mem node) (heap.reserve middle))
    (sameRoot : middle.root = s.root)
    (added : EntryAdded heap directory entries node middle entry after) :
    Loaded layout heap image directory (entries ++ [entry]) (files ++ [file]) after ∧
      ∀ address ∉ writable heap s directory entries, after.mem address = s.mem address := by
  have placed := loaded.placed.mono grown
  have placedAfter := placed.added added
  have grownAfter : s.kallocs ⊆ after.kallocs := by
    rw [added.kallocs]
    exact fun _ member => List.mem_append_left _ (grown member)
  have freshEntry : Span entry 8 ⊆ heap.reserve s :=
    added.fresh.trans (Heap.reserve_anti grown)
  have shrinks : writable heap after directory (entries ++ [entry]) ⊆
      writable heap s directory entries := writable_anti grownAfter freshEntry
  have kept : ∀ address ∉ writable heap s directory entries,
      after.mem address = s.mem address := fun address outside =>
    (added.kept_outside grown outside).trans
      (keptMiddle address fun inReserve => outside (.inl (.inl inReserve)))
  have nodeKept : ∀ other ∈ entries, nodeOf after.mem other = nodeOf s.mem other := by
    intro other member
    refine (added.nodeOf_kept placed member).trans (Bytes.load32_congr fun address inNode => ?_)
    exact keptMiddle address
      (Set.disjoint_left.mp (loaded.placed.granted other member) (node_subset inNode))
  have fileKept : ∀ other ∈ entries, ∀ address ∈ footprint s.mem (nodeOf s.mem other),
      after.mem address = s.mem address := fun other member address inside =>
    kept address (Set.disjoint_left.mp (loaded.filesApart other member) inside)
  -- The new file came out of the reserve, so neither the directory nor an entry is in it.
  have newOutside : Disjoint (footprint middle.mem node)
      (Span directory 168 ∪ {address | ∃ entry ∈ entries, address ∈ Span entry 8}) :=
    loaded.placed.disjoint_of_reserve fresh
  have newKept : ∀ address ∈ footprint middle.mem node, after.mem address = middle.mem address := by
    intro address inside
    refine added.kept address (Set.disjoint_left.mp granted inside)
      (fun inDirectory => Set.disjoint_left.mp newOutside inside (.inl inDirectory)) ?_
    exact fun other member inNext =>
      Set.disjoint_left.mp newOutside inside (.inr ⟨other, member, next_subset inNext⟩)
  have newNode : nodeOf after.mem entry = node := added.node
  refine ⟨⟨added.ready, (added.root.trans sameRoot).trans loaded.root, added.listed, ?_,
    placedAfter, ?_, Set.disjoint_of_subset_right shrinks loaded.imageApart⟩, kept⟩
  · have old : List.Forall₂ (EntryAt layout after.mem) entries files :=
      ((List.forall₂_and_left _ _).mpr ⟨fun _ member => member, loaded.loaded⟩).imp
        fun other packed ⟨member, held⟩ =>
          held.congr (nodeKept other member) (fileKept other member)
    have new : EntryAt layout after.mem entry file := by
      refine ⟨?_, ?_⟩
      · rw [newNode]
        exact held.congr newKept
      · rw [newNode]
        refine (Bytes.read_congr fun address inName => ?_).trans name
        exact newKept address (.inl (Span.mono (by omega) inName))
    exact List.rel_append old (.cons new .nil)
  · refine forall_mem_snoc (fun other member => ?_) ?_
    · rw [nodeKept other member, footprint_congr (fileKept other member)]
      exact Set.disjoint_of_subset_right shrinks (loaded.filesApart other member)
    · rw [newNode, footprint_congr newKept, Set.disjoint_left]
      have grownLast : middle.kallocs ⊆ after.kallocs := by
        rw [added.kallocs]
        exact List.subset_append_left _ _
      rintro address inside ((inReserve | inDirectory) | ⟨listed, listedMember, inEntry⟩)
      · exact Set.disjoint_left.mp granted inside (Heap.reserve_anti grownLast inReserve)
      · exact Set.disjoint_left.mp newOutside inside (.inl inDirectory)
      · rcases List.mem_append.mp listedMember with oldListed | newListed
        · exact Set.disjoint_left.mp newOutside inside (.inr ⟨listed, oldListed, inEntry⟩)
        · rw [List.mem_singleton.mp newListed] at inEntry
          exact Set.disjoint_left.mp granted inside (added.fresh inEntry)

/-- A file node filled with a file, out of the reserve of an earlier state. -/
structure Filled (layout : Layout) (heap : Heap) (file : PackedFile) (before : Machine)
    (node : UInt32) (after : Machine) : Prop where
  ready : heap.Ready after
  room : heap.room after + 424 = heap.room before
  held : FileAt layout after.mem node ⟨file.contents, file.contents.length⟩
  name : after.mem.read (Node.name node) 128 = pack128s file.name
  fresh : footprint after.mem node ⊆ heap.reserve before
  granted : Disjoint (footprint after.mem node) (heap.reserve after)
  kept : ∀ address ∉ heap.reserve before, after.mem address = before.mem address
  grown : before.kallocs ⊆ after.kallocs
  root : after.root = before.root

/-- Lines printed before and after a construction do not matter. -/
theorem Constructed.printed {text : List UInt8} {serial : List LogLine}
    (constructed : Constructed heap layout text (s.withSerial serial) node middle)
    (serial' : List LogLine) :
    Constructed heap layout text s node (middle.withSerial serial') := by
  have room := constructed.room
  rw [Heap.room_withSerial] at room
  exact ⟨Heap.ready_withSerial constructed.ready serial',
    (congrArg (· + 424) (Heap.room_withSerial middle serial')).trans room,
    constructed.held, constructed.ne_null, constructed.name, constructed.fresh, constructed.kept,
    constructed.kallocs, constructed.root⟩

/-- Writing the contents of a block to a node just constructed for it fills it. -/
theorem Constructed.filled {size : UInt32}
    (constructed : Constructed heap layout file.name s node middle)
    (length : size.toNat = file.contents.length)
    (contents : middle.mem.read (current + blockSize) file.contents.length = file.contents)
    (apart : Disjoint (Span (current + blockSize) file.contents.length) (heap.reserve s)) :
    ∃ mem, fsWrite layout node size (current + blockSize) middle = .ok size (middle.withMem mem) ∧
      Filled layout heap file s node (middle.withMem mem) := by
  have short := file.contents_short
  have buffer : Span (bufferOf middle.mem node) 256 ⊆ heap.reserve s :=
    fun _ inside => constructed.fresh (.inr inside)
  rw [← length] at contents apart short
  have fits : ByteFile.empty.cursor + size.toNat ≤ 256 := by
    change 0 + size.toNat ≤ 256
    omega
  obtain ⟨mem, run, held, rewrites⟩ := fsWrite_ok constructed.held (Nat.zero_le _) fits
    (Set.disjoint_of_subset_right buffer apart)
  rw [contents, ByteFile.empty, splice_nil, Nat.zero_add, length] at held
  have ready : heap.Ready (middle.withMem mem) :=
    Heap.ready_of_granted constructed.ready constructed.granted fun _ outside =>
      rewrites.outside outside
  refine ⟨mem, run, ready, ?_, held, ?_, ?_, ?_, ?_, ?_, constructed.root⟩
  · rw [Heap.room_withMem]
    exact constructed.room
  · rw [pack128s_eq, ← constructed.name]
    exact Bytes.read_congr fun address inName =>
      rewrites.kept_start constructed.held.apart address (Span.mono (by omega) inName)
  · rw [Machine.withMem_mem, rewrites.footprint]
    exact constructed.fresh
  · rw [Machine.withMem_mem, rewrites.footprint]
    exact constructed.granted
  · intro address outside
    exact (rewrites.outside fun inside => outside (constructed.fresh inside)).trans
      (constructed.kept address outside)
  · rw [Machine.withMem_kallocs, constructed.kallocs]
    exact List.subset_append_left _ _

/-- One round of `read_ramdisk` loads the file of its block. -/
theorem readBlock_loads (loaded : Loaded layout heap image directory entries files s)
    (block : BlockAt s.mem current file)
    (inImage : Span current (132 + file.contents.length) ⊆ image)
    (enough : 432 ≤ heap.room s) (few : entries.length + 1 < 2 ^ 32) :
    ∃ entry after, readBlock layout heap.kalloc current s =
        .ok (current + (blockSize + UInt32.ofNat file.contents.length)) after ∧
      Loaded layout heap image directory (entries ++ [entry]) (files ++ [file]) after ∧
      heap.room after + 432 = heap.room s ∧
      ∀ address ∉ writable heap s directory entries, after.mem address = s.mem address := by
  have short := file.contents_short
  have nameShort := file.name_short
  obtain ⟨zero, inBlock, ends⟩ := block.ends
  have zeroInImage : zero ∈ image := inImage (Span.mono (by omega) inBlock)
  have imageReserve : Disjoint image (heap.reserve s) :=
    Set.disjoint_of_subset_right (fun _ inside => .inl (.inl inside)) loaded.imageApart
  have four : (4 : UInt32).toNat = 4 := rfl
  have width : blockSize.toNat = 132 := rfl
  have nameInImage : Span (RamdiskBlock.name current) (file.name.length + 1) ⊆ image :=
    (Span.shift_subset (by omega)).trans inImage
  have contentsInImage : Span (current + blockSize) file.contents.length ⊆ image :=
    (Span.shift_subset (by omega)).trans inImage
  have sizeLength : (UInt32.ofNat file.contents.length).toNat = file.contents.length :=
    UInt32.toNat_ofNat_of_lt' (Nat.lt_of_le_of_lt short (by decide))
  -- The lines printed before the file is constructed.
  obtain ⟨first, logsName⟩ := logf_run ends "Name: %s\n" [.str (RamdiskBlock.name current)]
  obtain ⟨second, logsSize⟩ := logf_again ends first "\tSize: %u\n"
    [.number ((s.withSerial first).mem.load32 (RamdiskBlock.size current))]
  obtain ⟨third, logsContents⟩ := logf_again ends second "\tContents: %s\n"
    [.str (current + blockSize)]
  -- The file is constructed, and two more lines are printed.
  have roomPrinted : heap.room (s.withSerial third) = heap.room s :=
    Heap.room_withSerial s third
  obtain ⟨node, made, constructs, constructed⟩ :
      ∃ node made, fsConstructNode layout heap.kalloc (RamdiskBlock.name current) .file
        (s.withSerial third) = .ok node made ∧
        Constructed heap layout file.name (s.withSerial third) node made :=
    fsConstructNode_returns (Heap.ready_withSerial loaded.ready third) block.name file.name_short
      (Set.disjoint_of_subset_left nameInImage imageReserve) (by omega)
  have keptImage : ∀ address ∈ image, made.mem address = s.mem address := fun address inside =>
    constructed.kept address (Set.disjoint_left.mp imageReserve inside)
  have sizeInImage : Span (RamdiskBlock.size current) 4 ⊆ image :=
    (Span.mono (by omega)).trans inImage
  have sizeMade : made.mem.load32 (RamdiskBlock.size current) =
      UInt32.ofNat file.contents.length :=
    (Bytes.load32_congr fun address inside => keptImage address (sizeInImage inside)).trans
      block.size
  have rootMade : made.root = directory := constructed.root.trans loaded.root
  have endsMade : made.mem zero = 0 := (keptImage zero zeroInImage).trans ends
  obtain ⟨fourth, logsAllocated⟩ := logf_run endsMade "%u\n"
    [.number (made.mem.load32 (Node.allocatedSize node))]
  obtain ⟨fifth, logsLength⟩ := logf_again endsMade fourth "%u\n"
    [.number ((made.withSerial fourth).mem.load32 (RamdiskBlock.size current))]
  -- Its contents are written, and the entry is added.
  have contentsMade : (made.withSerial fifth).mem.read (current + blockSize)
      file.contents.length = file.contents :=
    (Bytes.read_congr fun address inside => keptImage address (contentsInImage inside)).trans
      block.contents
  obtain ⟨mem, writes, filled⟩ := (constructed.printed fifth).filled sizeLength
    contentsMade (Set.disjoint_of_subset_left contentsInImage imageReserve)
  have roomFilled := filled.room
  have keptDirectory := Set.disjoint_left.mp loaded.placed.handedOut
  obtain ⟨entry, after, adds, added⟩ := fsAddDirent_added filled.ready (by omega)
    (loaded.listed.congr (fun address inside => filled.kept address (keptDirectory inside))
      fun other member address inside => filled.kept address
        (Set.disjoint_left.mp (loaded.placed.granted other member) inside))
    few (loaded.placed.mono filled.grown) filled.held.type
    ((filled.kept zero (Set.disjoint_left.mp imageReserve zeroInImage)).trans ends)
  obtain ⟨loadedAfter, kept⟩ := loaded.added filled.grown filled.kept filled.held filled.name
    filled.fresh filled.granted filled.root added
  have roomAdded := added.room
  have sizeAfter : after.mem.load32 (RamdiskBlock.size current) =
      UInt32.ofNat file.contents.length :=
    (Bytes.load32_congr fun address inside => kept address
      (Set.disjoint_left.mp loaded.imageApart (sizeInImage inside))).trans block.size
  refine ⟨entry, after, ?_, loadedAfter, by omega, kept⟩
  rw [readBlock, bind_of_ok logsName, bind_of_ok (getWord_run _ _), bind_of_ok logsSize,
    bind_of_ok logsContents, bind_of_ok constructs, bind_of_ok (getWord_run _ _),
    bind_of_ok logsAllocated, bind_of_ok (getWord_run _ _), bind_of_ok logsLength,
    bind_of_ok (getWord_run _ _), Machine.withSerial_mem, sizeMade, bind_of_ok writes,
    bind_of_ok (read_run _ _), Machine.withMem_root, Machine.withSerial_root, rootMade,
    bind_of_ok adds, bind_of_ok (getWord_run _ _), sizeAfter, pure_run]

end Round

/-! ## The whole image -/

section Image

variable {layout : Layout} {heap : Heap} {image : Set UInt32} {s : Machine}
  {directory current initrdStart initrdEnd : UInt32} {entries : List UInt32}
  {files rest : List PackedFile}

theorem makeInitrd_cons (file : PackedFile) (rest : List PackedFile) :
    makeInitrd (file :: rest) = packFile file ++ makeInitrd rest := by
  rw [makeInitrd, List.flatMap_cons]
  rfl

theorem length_makeInitrd (files : List PackedFile) :
    132 * files.length ≤ (makeInitrd files).length := by
  induction files with
  | nil => simp
  | cons file rest ih =>
      rw [makeInitrd_cons, List.length_append, length_packFile, List.length_cons]
      omega

/-- The loop of `read_ramdisk` loads the files of the rest of the image. -/
theorem readBlocks_loads {fuel : Nat}
    (loaded : Loaded layout heap image directory entries files s)
    (stored : s.mem.read current (makeInitrd rest).length = makeInitrd rest)
    (inImage : Span current (makeInitrd rest).length ⊆ image)
    (ends : initrdEnd.toNat = current.toNat + (makeInitrd rest).length)
    (enough : 432 * rest.length ≤ heap.room s) (few : entries.length + rest.length < 2 ^ 32)
    (fuelEnough : rest.length < fuel) :
    ∃ entries' after, loop (fun current _ => current < initrdEnd) (readBlock layout heap.kalloc)
        Halt.endless fuel current s = .ok initrdEnd after ∧
      Loaded layout heap image directory entries' (files ++ rest) after := by
  induction rest generalizing fuel current entries files s with
  | nil =>
      obtain ⟨fuel, rfl⟩ : ∃ n, fuel = n + 1 := ⟨fuel - 1, by omega⟩
      have done : current = initrdEnd := UInt32.toNat_inj.mp ends.symm
      refine ⟨entries, s, ?_, by rwa [List.append_nil]⟩
      rw [done]
      exact loop_done (by simp)
  | cons file rest ih =>
      obtain ⟨fuel, rfl⟩ : ∃ n, fuel = n + 1 := ⟨fuel - 1, by omega⟩
      have short := file.contents_short
      have blockLength := length_packFile file
      have length : (makeInitrd (file :: rest)).length =
          (132 + file.contents.length) + (makeInitrd rest).length := by
        rw [makeInitrd_cons, List.length_append, blockLength]
      rw [length] at stored inImage ends
      rw [makeInitrd_cons, Bytes.read_add] at stored
      obtain ⟨first, others⟩ := List.append_inj stored (by rw [Bytes.length_read, blockLength])
      rw [List.length_cons] at enough few fuelEnough
      have block : BlockAt s.mem current file := .of_read (by rwa [blockLength])
      obtain ⟨entry, after, round, loadedAfter, room, kept⟩ := readBlock_loads loaded block
        ((Span.mono (by omega)).trans inImage) (by omega) (by omega)
      have next : current + (blockSize + UInt32.ofNat file.contents.length) =
          current + UInt32.ofNat (132 + file.contents.length) := by
        rw [UInt32.ofNat_add]
        rfl
      rw [next] at round
      have endWide := initrdEnd.toNat_lt
      have position : (UInt32.ofNat (132 + file.contents.length)).toNat =
          132 + file.contents.length :=
        UInt32.toNat_ofNat_of_lt' (Nat.lt_of_le_of_lt (by omega : _ ≤ 388) (by decide))
      have restInImage : Span (current + UInt32.ofNat (132 + file.contents.length))
          (makeInitrd rest).length ⊆ image :=
        (Span.shift_subset (by omega)).trans inImage
      have restStored : after.mem.read (current + UInt32.ofNat (132 + file.contents.length))
          (makeInitrd rest).length = makeInitrd rest :=
        (Bytes.read_congr fun address inside => kept address
          (Set.disjoint_left.mp loaded.imageApart (restInImage inside))).trans others
      have nextEnds : initrdEnd.toNat =
          (current + UInt32.ofNat (132 + file.contents.length)).toNat +
            (makeInitrd rest).length := by
        rw [UInt32.toNat_add, position]
        omega
      obtain ⟨entries', last, run, loadedLast⟩ := ih loadedAfter restStored restInImage nextEnds
        (by omega) (by rw [List.length_append, List.length_singleton]; omega)
        (by omega : rest.length < fuel)
      have again : decide (current < initrdEnd) = true := by
        rw [decide_eq_true_eq, UInt32.lt_iff_toNat_lt]
        omega
      refine ⟨entries', last, ?_, by rwa [List.append_assoc, List.singleton_append] at loadedLast⟩
      refine Eq.trans (loop_again again) ?_
      rw [bind_of_ok round]
      exact run

/-- The root directory is empty. -/
def EmptyDirectory (mem : Bytes) (directory : UInt32) : Prop := Entries mem directory []

/-- Read from memory, the image of a list of files is loaded. -/
theorem readRamdisk_loads (layout : Layout) (heap : Heap) (files : List PackedFile)
    (ready : heap.Ready s)
    (stored : s.mem.read initrdStart (makeInitrd files).length = makeInitrd files)
    (ends : initrdEnd.toNat = initrdStart.toNat + (makeInitrd files).length)
    (room : 432 * files.length ≤ heap.room s)
    (apart : Disjoint (Span initrdStart (makeInitrd files).length) (heap.reserve s))
    (empty : EmptyDirectory s.mem s.root)
    (rootGranted : Disjoint (Span s.root 168) (heap.reserve s))
    (rootApart : Disjoint (Span initrdStart (makeInitrd files).length) (Span s.root 168)) :
    ∃ entries after, readRamdisk layout heap.kalloc initrdStart initrdEnd s = .ok () after ∧
      Loaded layout heap (Span initrdStart (makeInitrd files).length) s.root entries files
        after := by
  have few := length_makeInitrd files
  have wide := initrdEnd.toNat_lt
  obtain ⟨serial, logs⟩ : ∃ serial, logf "===== READING FROM RAMDISK =====\n" [] s =
      .ok () (s.withSerial serial) := ⟨_, logf_numbers _ []⟩
  have imageApart : Disjoint (Span initrdStart (makeInitrd files).length)
      (writable heap (s.withSerial serial) s.root []) := by
    rw [Set.disjoint_left]
    rintro address inside ((inReserve | inRoot) | ⟨entry, member, -⟩)
    · exact Set.disjoint_left.mp apart inside inReserve
    · exact Set.disjoint_left.mp rootApart inside inRoot
    · cases member
  have placed : Placed heap (s.withSerial serial) s.root [] :=
    ⟨rootGranted, by simp, by simp, by simp⟩
  have loaded : Loaded layout heap (Span initrdStart (makeInitrd files).length) s.root [] []
      (s.withSerial serial) :=
    ⟨Heap.ready_withSerial ready serial, rfl, empty, .nil, placed, by simp, imageApart⟩
  have fuelEnough : files.length < loopBound := by
    unfold loopBound
    omega
  obtain ⟨entries, after, run, loadedAfter⟩ := readBlocks_loads loaded stored
    (fun _ inside => inside) ends (by rw [Heap.room_withSerial]; exact room)
    (by rw [List.length_nil]; omega) fuelEnough
  refine ⟨entries, after, ?_, loadedAfter⟩
  have blocks : readBlocks layout heap.kalloc initrdEnd initrdStart (s.withSerial serial) =
      .ok initrdEnd after := run
  rw [readRamdisk, bind_of_ok logs, bind_of_ok blocks, pure_run]

/-- Read from memory, the image that `make_initrd.py` writes for a list of files
becomes one entry of the root directory for each file, in order, with its name,
its contents and their length, and the directory's size counts the entries. -/
theorem readRamdisk_unpacks (layout : Layout) (heap : Heap) (files : List PackedFile)
    (ready : heap.Ready s)
    (stored : s.mem.read initrdStart (makeInitrd files).length = makeInitrd files)
    (ends : initrdEnd.toNat = initrdStart.toNat + (makeInitrd files).length)
    (room : 432 * files.length ≤ heap.room s)
    (apart : Disjoint (Span initrdStart (makeInitrd files).length) (heap.reserve s))
    (empty : EmptyDirectory s.mem s.root)
    (rootGranted : Disjoint (Span s.root 168) (heap.reserve s))
    (rootApart : Disjoint (Span initrdStart (makeInitrd files).length) (Span s.root 168)) :
    ∃ entries after, readRamdisk layout heap.kalloc initrdStart initrdEnd s = .ok () after ∧
      after.root = s.root ∧ Entries after.mem s.root entries ∧
      List.Forall₂ (EntryAt layout after.mem) entries files := by
  obtain ⟨entries, after, run, loaded⟩ := readRamdisk_loads layout heap files ready stored ends room
    apart empty rootGranted rootApart
  exact ⟨entries, after, run, loaded.root, loaded.listed, loaded.loaded⟩

end Image

/-! ## A first image -/

/-- A machine with files packed at 0x00280000, and an empty root directory in the first
block of a mapped heap. -/
def imageMachine (files : List PackedFile) : Machine :=
  { Machine.boot ((Bytes.write (fun _ => 0) 0x00280000 (makeInitrd files)).store32
      (Node.type heapAllocatorAreaStart) NodeType.directory.value) with
    heapCurrent := heapAllocatorAreaStart + nodeSize
    heapMapped := heapAllocatorAreaEnd
    root := heapAllocatorAreaStart
    kallocs := [⟨heapAllocatorAreaStart, nodeSize⟩] }

section ImageMachine

variable {files : List PackedFile} {address : UInt32} {count : Nat}

/-- An image that ends below the end of the kernel area lies below the heap. -/
theorem image_below (fits : count ≤ 0x00080000) (inside : address ∈ Span 0x00280000 count) :
    address.toNat < heapAllocatorAreaStart.toNat := by
  have place : (0x00280000 : UInt32).toNat = 2621440 := rfl
  rw [Span.mem_iff (by omega)] at inside
  rw [toNat_heapAllocatorAreaStart]
  omega

theorem root_above (inside : address ∈ Span heapAllocatorAreaStart 168) :
    heapAllocatorAreaStart.toNat ≤ address.toNat := by
  rw [Span.mem_iff (by decide)] at inside
  exact inside.1

theorem image_apart (fits : count ≤ 0x00080000) :
    Disjoint (Span 0x00280000 count) (Span heapAllocatorAreaStart 168) := by
  rw [Set.disjoint_left]
  intro address inImage inRoot
  exact Nat.not_lt.mpr (root_above inRoot) (image_below fits inImage)

theorem imageMachine_ready : MappedHeap (imageMachine files) :=
  ⟨rfl, (by decide : heapAllocatorAreaStart.toNat ≤ (heapAllocatorAreaStart + nodeSize).toNat),
    (by decide : (heapAllocatorAreaStart + nodeSize).toNat ≤ heapAllocatorAreaEnd.toNat), rfl, by
    intro block member
    rw [List.mem_singleton.mp member]
    change heapAllocatorAreaStart.toNat + nodeSize.toNat ≤
      (heapAllocatorAreaStart + nodeSize).toNat
    decide⟩

theorem imageMachine_stored (fits : (makeInitrd files).length ≤ 0x00080000) :
    (imageMachine files).mem.read 0x00280000 (makeInitrd files).length = makeInitrd files := by
  have same : (Bytes.write (fun _ => 0) 0x00280000 (makeInitrd files)).read 0x00280000
      (makeInitrd files).length = makeInitrd files := Bytes.read_write_same (by omega)
  refine (Bytes.read_congr fun address inside => ?_).trans same
  exact Bytes.store32_of_notMem fun inType =>
    Set.disjoint_left.mp (image_apart fits) inside (field_subset (by decide) inType)

theorem imageMachine_empty (fits : (makeInitrd files).length ≤ 0x00080000) :
    EmptyDirectory (imageMachine files).mem (imageMachine files).root := by
  have untouched : ∀ field : UInt32, 132 ≤ field.toNat → field.toNat + 4 ≤ 168 →
      (imageMachine files).mem.load32 (heapAllocatorAreaStart + field) = 0 := by
    intro field behind inside
    have zeros : (imageMachine files).mem.read (heapAllocatorAreaStart + field) 4 =
        Bytes.read (fun _ => 0) (heapAllocatorAreaStart + field) 4 := by
      apply Bytes.read_congr
      intro address inField
      have inRoot := field_subset inside inField
      have type : (128 : UInt32).toNat = 128 := rfl
      have apart : Disjoint (Span (Node.type heapAllocatorAreaStart) 4)
          (Span (heapAllocatorAreaStart + field) 4) :=
        Span.shift_disjoint (by omega) (by omega)
      have outsideType : address ∉ Span (Node.type heapAllocatorAreaStart) 4 := fun inType =>
        Set.disjoint_left.mp apart inType inField
      refine (Bytes.store32_of_notMem outsideType).trans (Bytes.write_of_notMem fun inImage => ?_)
      exact Set.disjoint_left.mp (image_apart fits) inImage inRoot
    rw [Bytes.load32, zeros]
    rfl
  refine ⟨Bytes.load32_store32 _, pointerOf_eq_none.mpr (untouched 152 (by decide) (by decide)), ?_⟩
  exact congrArg UInt32.toNat (untouched 156 (by decide) (by decide))

end ImageMachine

/-- The file `a`, which is empty. -/
def emptyFile : PackedFile where
  name := [97]
  contents := []
  name_ne_nil := by decide
  name_noNul := by decide
  name_short := by decide
  contents_short := by decide

/-- The file `b` with the text `hello`. -/
def helloFile : PackedFile where
  name := [98]
  contents := [104, 101, 108, 108, 111]
  name_ne_nil := by decide
  name_noNul := by decide
  name_short := by decide
  contents_short := by decide

theorem length_makeInitrd_pair (first second : PackedFile) :
    (makeInitrd [first, second]).length = 264 + first.contents.length + second.contents.length := by
  rw [makeInitrd_cons, makeInitrd_cons, List.length_append, List.length_append, length_packFile,
    length_packFile]
  have none : (makeInitrd []).length = 0 := rfl
  omega

theorem readRamdisk_unpacks_two_files : ∃ entries after,
    readRamdisk Layout.sample (Paging.heapAllocate Layout.sample) 0x00280000 0x0028010d
      (imageMachine [emptyFile, helloFile]) = .ok () after ∧
    after.root = (imageMachine [emptyFile, helloFile]).root ∧
    Entries after.mem (imageMachine [emptyFile, helloFile]).root entries ∧
    List.Forall₂ (EntryAt Layout.sample after.mem) entries [emptyFile, helloFile] := by
  have length : (makeInitrd [emptyFile, helloFile]).length = 269 :=
    length_makeInitrd_pair emptyFile helloFile
  have fits : (makeInitrd [emptyFile, helloFile]).length ≤ 0x00080000 := by
    rw [length]
    decide
  refine readRamdisk_unpacks Layout.sample (mappedHeap Layout.sample) [emptyFile, helloFile]
    imageMachine_ready (imageMachine_stored fits) (by rw [length]; rfl) (by decide) ?_
    (imageMachine_empty fits) (node_disjoint_reserve (List.mem_singleton.mpr rfl))
    (image_apart fits)
  rw [Set.disjoint_left]
  intro address inImage inReserve
  have above := (mem_heapArena.mp (mappedHeap_reserve_subset inReserve)).1
  exact Nat.not_lt.mpr above (image_below fits inImage)

end TorchOS.Filesystem
