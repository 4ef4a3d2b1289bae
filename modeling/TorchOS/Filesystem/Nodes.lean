import TorchOS.Filesystem.Files

/-!
# What `fs_construct_node` makes

A node constructed for a file holds the empty file under its name, in memory
that was in the allocator's reserve before. The construction stops only when the
reserve has no room for a node and a buffer.
-/

namespace TorchOS.Filesystem

open Base Base.Program Lib

/-- The memory after the first part of `fs_construct_node`: the name, the type and
the operations. -/
def headerMem (layout : Layout) (mem : Bytes) (node : UInt32) (text : List UInt8)
    (type : NodeType) : Bytes :=
  let named := (mem.write node (List.replicate 128 0)).write node (text ++ [0])
  (((named.store32 (Node.type node) type.value).store32
    (Node.read node) layout.ramdiskRead).store32
    (Node.write node) layout.ramdiskWrite).store32
    (Node.seek node) layout.ramdiskSeek

section Header

variable {layout : Layout} {mem : Bytes} {node address value : UInt32} {text : List UInt8}
  {type : NodeType}

/-- A store to a field of a node changes nothing outside the node. -/
theorem store32_outside {field : UInt32} (inside : field.toNat + 4 ≤ 168)
    (outside : address ∉ Span node 168) :
    mem.store32 (node + field) value address = mem address :=
  Bytes.store32_of_notMem fun inField => outside (field_subset inside inField)

theorem headerMem_outside (outside : address ∉ Span node 168)
    (past : address ∉ Span node (text.length + 1)) :
    headerMem layout mem node text type address = mem address := by
  have outsideText : address ∉ Span node (text ++ [0]).length := by
    rwa [List.length_append, List.length_singleton]
  have outsideZeros : address ∉ Span node (List.replicate 128 (0 : UInt8)).length := by
    rw [List.length_replicate]
    exact fun inside => outside (Span.mono (by omega) inside)
  simp only [headerMem, Node.type, Node.read, Node.write, Node.seek]
  rw [store32_outside (by decide) outside, store32_outside (by decide) outside,
    store32_outside (by decide) outside, store32_outside (by decide) outside,
    Bytes.write_of_notMem outsideText, Bytes.write_of_notMem outsideZeros]

theorem headerMem_type :
    (headerMem layout mem node text type).load32 (Node.type node) = type.value := by
  simp (disch := decide) only [headerMem, Node.type, Node.read, Node.write, Node.seek,
    load32_other_field, Bytes.load32_store32]

theorem headerMem_read :
    (headerMem layout mem node text type).load32 (Node.read node) = layout.ramdiskRead := by
  simp (disch := decide) only [headerMem, Node.read, Node.write, Node.seek,
    load32_other_field, Bytes.load32_store32]

theorem headerMem_write :
    (headerMem layout mem node text type).load32 (Node.write node) = layout.ramdiskWrite := by
  simp (disch := decide) only [headerMem, Node.write, Node.seek, load32_other_field,
    Bytes.load32_store32]

theorem headerMem_seek :
    (headerMem layout mem node text type).load32 (Node.seek node) = layout.ramdiskSeek := by
  simp only [headerMem, Bytes.load32_store32]

/-- The name field holds the name and zeros behind it. -/
theorem headerMem_name (short : text.length ≤ 127) :
    (headerMem layout mem node text type).read node 128 =
      text ++ List.replicate (128 - text.length) 0 := by
  have stores : (headerMem layout mem node text type).read node 128 =
      ((mem.write node (List.replicate 128 0)).write node (text ++ [0])).read node 128 := by
    apply Bytes.read_congr
    intro address inName
    have outside : ∀ field : UInt32, 128 ≤ field.toNat → field.toNat + 4 ≤ 168 →
        address ∉ Span (node + field) 4 := fun field after fits =>
      Set.disjoint_left.mp (disjoint_field after (by omega)) inName
    have outsideType : address ∉ Span (Node.type node) 4 := outside 128 (by decide) (by decide)
    have outsideRead : address ∉ Span (Node.read node) 4 := outside 132 (by decide) (by decide)
    have outsideWrite : address ∉ Span (Node.write node) 4 := outside 136 (by decide) (by decide)
    have outsideSeek : address ∉ Span (Node.seek node) 4 := outside 140 (by decide) (by decide)
    rw [headerMem, Bytes.store32_of_notMem outsideSeek, Bytes.store32_of_notMem outsideWrite,
      Bytes.store32_of_notMem outsideRead, Bytes.store32_of_notMem outsideType]
  have length : (text ++ [(0 : UInt8)]).length = text.length + 1 := by simp
  have zero : node + UInt32.ofNat 0 = node := by grind
  have spliced : ((mem.write node (List.replicate 128 0)).write (node + UInt32.ofNat 0)
      (text ++ [0])).read node (max 128 (0 + (text ++ [(0 : UInt8)]).length)) = _ :=
    Bytes.read_write_splice (by omega) (by omega) (by omega)
  have widest : max 128 (0 + (text ++ [(0 : UInt8)]).length) = 128 := by omega
  have zeros : (mem.write node (List.replicate 128 0)).read node
      (List.replicate 128 (0 : UInt8)).length = _ :=
    Bytes.read_write_same (by rw [List.length_replicate]; omega)
  rw [List.length_replicate] at zeros
  rw [zero, widest, zeros, splice, List.take_zero, List.nil_append, Nat.zero_add, length,
    List.drop_replicate, List.append_assoc, List.singleton_append, ← List.replicate_succ] at spliced
  rw [stores, spliced]
  congr 2
  omega

/-- From a name outside the node and what the copy overwrites, the first part of the
construction runs through. -/
theorem initHeader_run {s : Machine} {name : UInt32} (string : CString s.mem name text)
    (short : text.length < 2 ^ 32) (apart : Disjoint (Span name (text.length + 1)) (Span node 168))
    (past : Disjoint (Span name (text.length + 1)) (Span node (text.length + 1))) :
    initHeader layout node name type s =
      .ok () (s.withMem (headerMem layout s.mem node text type)) := by
  have cleared : CString (s.withMem
      (s.mem.write (Node.name node) (List.replicate maxFilenameLength.toNat 0))).mem name text := by
    refine string.congr fun address inName => Bytes.write_of_notMem ?_
    rw [List.length_replicate]
    intro inNode
    exact Set.disjoint_left.mp apart inName (Span.mono (by decide) inNode)
  have elsewhere : Disjoint (Span name (text.length + 1))
      (Span (Node.name node) (text.length + 1)) := past
  have copies := strcpy_run cleared short elsewhere
  rw [initHeader, bind_of_ok (memset_run _ _ _), bind_of_ok copies, bind_of_ok (putWord_run _ _ _),
    bind_of_ok (putWord_run _ _ _), bind_of_ok (putWord_run _ _ _), putWord_run]
  rfl

end Header

/-! ## File nodes -/

/-- The union of a node was initialised for a file. -/
structure FileInit (heap : Heap) (node : UInt32) (before after : Machine) : Prop where
  ready : heap.Ready after
  room : heap.room after + 256 = heap.room before
  offset : after.mem.load32 (Node.offset node) = 0
  canonicalSize : after.mem.load32 (Node.canonicalSize node) = 0
  allocatedSize : after.mem.load32 (Node.allocatedSize node) = 256
  fresh : Span (bufferOf after.mem node) 256 ⊆ heap.reserve before
  keptStart : ∀ address ∈ Span node 152, after.mem address = before.mem address
  kept : ∀ address, address ∉ Span node 168 → address ∉ heap.reserve before →
    after.mem address = before.mem address
  kallocs : after.kallocs = before.kallocs ++ [⟨bufferOf after.mem node, 256⟩]
  root : after.root = before.root

/-- A node was constructed from a name of any length; what does not fit its field is
copied past it. -/
structure Made (heap : Heap) (layout : Layout) (text : List UInt8) (before : Machine)
    (node : UInt32) (after : Machine) : Prop where
  ready : heap.Ready after
  room : heap.room after + 424 = heap.room before
  held : FileAt layout after.mem node ByteFile.empty
  ne_null : node ≠ 0
  granted : ∃ middle, heap.kalloc nodeSize before = .ok node middle
  name : ∃ mem, ∀ address ∈ Span node 152, after.mem address =
    headerMem layout mem node text .file address
  nodeFresh : Span node 168 ⊆ heap.reserve before
  fresh : footprint after.mem node ⊆ heap.reserve before
  kept : ∀ address, address ∉ heap.reserve before → address ∉ Span node (text.length + 1) →
    after.mem address = before.mem address
  kallocs : after.kallocs =
    before.kallocs ++ [⟨node, nodeSize⟩, ⟨bufferOf after.mem node, 256⟩]
  root : after.root = before.root

/-- A node was constructed for a file with the name `text`. -/
structure Constructed (heap : Heap) (layout : Layout) (text : List UInt8) (before : Machine)
    (node : UInt32) (after : Machine) : Prop where
  ready : heap.Ready after
  room : heap.room after + 424 = heap.room before
  held : FileAt layout after.mem node ByteFile.empty
  ne_null : node ≠ 0
  name : after.mem.read node 128 = text ++ List.replicate (128 - text.length) 0
  fresh : footprint after.mem node ⊆ heap.reserve before
  kept : ∀ address ∉ heap.reserve before, after.mem address = before.mem address
  kallocs : after.kallocs =
    before.kallocs ++ [⟨node, nodeSize⟩, ⟨bufferOf after.mem node, 256⟩]
  root : after.root = before.root

section Construct

variable {heap : Heap} {layout : Layout} {s : Machine} {node name : UInt32}
  {text : List UInt8}

theorem nodeSize_toNat : nodeSize.toNat = 168 := rfl

/-- A node that was handed out is not in the reserve. -/
theorem node_disjoint_reserve (granted : ⟨node, nodeSize⟩ ∈ s.kallocs) :
    Disjoint (Span node 168) (heap.reserve s) := by
  have apart : Disjoint (Block.span ⟨node, nodeSize⟩) (heap.reserve s) :=
    Heap.disjoint_reserve granted
  rwa [Block.span, nodeSize_toNat] at apart

theorem initFile_yields (ready : heap.Ready s) (granted : ⟨node, nodeSize⟩ ∈ s.kallocs) :
    Yields (initContents heap.kalloc node .file s) (fun _ after => FileInit heap node s after)
      (fun reason => heap.room s < 256 ∧ heap.HaltsFor reason) := by
  have outside : ∀ {field value : UInt32} {mem : Bytes}, field.toNat + 4 ≤ 168 →
      ∀ address ∉ Span node 168, mem.store32 (node + field) value address = mem address :=
    fun inside _ outside => store32_outside inside outside
  have started : heap.Ready (s.withMem (s.mem.store32 (Node.offset node) 0)) :=
    Heap.ready_of_granted ready (node_disjoint_reserve granted) (outside (by decide))
  have grants := heap.grants started (by decide : (256 : UInt32).toNat ≤ 256)
  rw [Heap.room_withMem] at grants
  rw [initContents, bind_of_ok (putWord_run _ _ _)]
  refine grants.bind fun buffer after ⟨allocation, readyAfter, roomAfter⟩ => ?_
  rw [bind_of_ok (putWord_run _ _ _), bind_of_ok (putWord_run _ _ _), putWord_run]
  simp only [Machine.withMem_mem, Machine.withMem_withMem]
  -- The block of the node is not in the reserve, so the second allocation leaves it alone.
  have nodeKept : ∀ address ∈ Span node 168,
      after.mem address = s.mem.store32 (Node.offset node) 0 address := fun address member =>
    allocation.kept address (Set.disjoint_left.mp (node_disjoint_reserve granted) member)
  have bufferIs : bufferOf (((after.mem.store32 (Node.buffer node) buffer).store32
      (Node.canonicalSize node) 0).store32 (Node.allocatedSize node) 256) node = buffer := by
    simp (disch := decide) only [bufferOf, Node.buffer, Node.canonicalSize, Node.allocatedSize,
      load32_other_field, Bytes.load32_store32]
  have grown : ⟨node, nodeSize⟩ ∈ after.kallocs := by
    rw [allocation.kallocs]
    exact List.mem_append_left _ granted
  refine ⟨Heap.ready_of_granted readyAfter (node_disjoint_reserve grown) fun address outside =>
      ?_, (congrArg (· + 256) (Heap.room_withMem _ _)).trans roomAfter,
    ?_, ?_, ?_, ?_, ?_, ?_, ?_, allocation.root⟩
  · simp only [Node.buffer, Node.canonicalSize, Node.allocatedSize]
    rw [store32_outside (by decide) outside, store32_outside (by decide) outside,
      store32_outside (by decide) outside]
  · simp (disch := decide) only [Machine.withMem_mem, Node.offset, Node.buffer,
      Node.canonicalSize, Node.allocatedSize, load32_other_field]
    rw [load32_field_congr (by decide) nodeKept, Node.offset, Bytes.load32_store32]
  · simp (disch := decide) only [Machine.withMem_mem, Node.canonicalSize, Node.allocatedSize,
      load32_other_field, Bytes.load32_store32]
  · simp only [Machine.withMem_mem, Bytes.load32_store32]
  · rw [Machine.withMem_mem, bufferIs]
    exact allocation.fresh
  · intro address inStart
    have outside : ∀ field : UInt32, 152 ≤ field.toNat → field.toNat + 4 ≤ 168 →
        address ∉ Span (node + field) 4 := fun field after fits =>
      Set.disjoint_left.mp (disjoint_field after (by omega)) inStart
    have outsideOffset : address ∉ Span (Node.offset node) 4 := outside 152 (by decide) (by decide)
    have outsideBuffer : address ∉ Span (Node.buffer node) 4 := outside 156 (by decide) (by decide)
    have outsideSize : address ∉ Span (Node.canonicalSize node) 4 :=
      outside 160 (by decide) (by decide)
    have outsideAllocated : address ∉ Span (Node.allocatedSize node) 4 :=
      outside 164 (by decide) (by decide)
    simp only [Machine.withMem_mem]
    rw [Bytes.store32_of_notMem outsideAllocated, Bytes.store32_of_notMem outsideSize,
      Bytes.store32_of_notMem outsideBuffer, nodeKept address (Span.mono (by omega) inStart),
      Bytes.store32_of_notMem outsideOffset]
  · intro address outsideNode outsideReserve
    simp only [Machine.withMem_mem, Node.buffer, Node.canonicalSize, Node.allocatedSize]
    rw [store32_outside (by decide) outsideNode, store32_outside (by decide) outsideNode,
      store32_outside (by decide) outsideNode, allocation.kept address outsideReserve]
    exact store32_outside (by decide) outsideNode
  · rw [Machine.withMem_mem, bufferIs]
    exact allocation.kallocs

/-- A construction makes an empty file, or halts as the allocator does for want of room,
as long as the copy of the name overwrites neither the name nor the allocator's books. -/
theorem fsConstructNode_makes_or_halts (ready : heap.Ready s) (string : CString s.mem name text)
    (short : text.length < 2 ^ 32)
    (owned : Disjoint (Span name (text.length + 1)) (heap.reserve s))
    (past : ∀ node after, heap.kalloc nodeSize s = .ok node after →
      Disjoint (Span name (text.length + 1) ∪ heap.books) (Span node (text.length + 1))) :
    Yields (fsConstructNode layout heap.kalloc name .file s)
      (fun node after => Made heap layout text s node after)
      (fun reason => heap.room s < 424 ∧ heap.HaltsFor reason) := by
  have grants := heap.grants ready (by decide : nodeSize.toNat ≤ 256)
  rw [nodeSize_toNat] at grants
  have allowed : ∀ reason, heap.room s < 168 ∧ heap.HaltsFor reason →
      heap.room s < 424 ∧ heap.HaltsFor reason := fun _ full => ⟨by omega, full.2⟩
  rw [fsConstructNode]
  refine (grants.returned.mono (fun _ _ granted => granted) allowed).bind ?_
  intro node middle granted
  have kept := Set.disjoint_union_left.mp (past node middle granted.1)
  have run := granted.1
  have allocation := granted.2.1
  have readyMiddle := granted.2.2.1
  have roomMiddle := granted.2.2.2
  have nodeFresh : Span node 168 ⊆ heap.reserve s := allocation.fresh
  have nameApart : Disjoint (Span name (text.length + 1)) (Span node 168) :=
    Set.disjoint_of_subset_right nodeFresh owned
  have keptName : CString middle.mem name text :=
    string.congr fun address inName => allocation.kept address (Set.disjoint_left.mp owned inName)
  rw [bind_of_ok (initHeader_run keptName short nameApart kept.1)]
  have kallocs : middle.kallocs = s.kallocs ++ [⟨node, nodeSize⟩] := allocation.kallocs
  have granted : ⟨node, nodeSize⟩ ∈ (middle.withMem
      (headerMem layout middle.mem node text .file)).kallocs := by
    rw [Machine.withMem_kallocs, kallocs]
    exact List.mem_append_right _ (List.mem_singleton.mpr rfl)
  have inMiddle : ⟨node, nodeSize⟩ ∈ middle.kallocs := granted
  have readyHeader : heap.Ready (middle.withMem (headerMem layout middle.mem node text .file)) := by
    refine heap.ready_congr (SameHeap.withMem _ _) (fun address inBooks => ?_) readyMiddle
    refine headerMem_outside (fun inNode => ?_) (Set.disjoint_left.mp kept.2 inBooks.1)
    exact Set.disjoint_left.mp (node_disjoint_reserve inMiddle) inNode
      (unused_mono Set.subset_union_right _ inBooks)
  have inits := initFile_yields readyHeader granted
  rw [Heap.room_withMem] at inits
  have allowed : ∀ reason, heap.room middle < 256 ∧ heap.HaltsFor reason →
      heap.room s < 424 ∧ heap.HaltsFor reason := fun _ full => ⟨by omega, full.2⟩
  refine (inits.mono (fun _ _ init => init) allowed).bind ?_
  rintro _ after init
  have earlier : heap.reserve (middle.withMem (headerMem layout middle.mem node text .file)) ⊆
      heap.reserve s := by
    apply Heap.reserve_anti
    rw [Machine.withMem_kallocs, kallocs]
    exact List.subset_append_left _ _
  have keptHeader : ∀ address ∈ Span node 152, after.mem address =
      headerMem layout middle.mem node text .file address := init.keptStart
  have apart : Disjoint (Span node 168) (Span (bufferOf after.mem node) 256) :=
    Set.disjoint_of_subset_right init.fresh (node_disjoint_reserve granted)
  have roomAfter := init.room
  rw [Heap.room_withMem] at roomAfter
  refine ⟨init.ready, by omega, ⟨?_, ?_, ?_, ?_, ?_, ?_, init.allocatedSize, rfl, by decide,
    by decide, apart⟩, allocation.ne_null, ⟨middle, run⟩, ⟨_, keptHeader⟩, nodeFresh, ?_, ?_, ?_,
    init.root.trans allocation.root⟩
  · exact (load32_field_congr (by decide) keptHeader).trans headerMem_type
  · exact (load32_field_congr (by decide) keptHeader).trans headerMem_read
  · exact (load32_field_congr (by decide) keptHeader).trans headerMem_write
  · exact (load32_field_congr (by decide) keptHeader).trans headerMem_seek
  · exact congrArg UInt32.toNat init.offset
  · exact congrArg UInt32.toNat init.canonicalSize
  · rintro address (inNode | inBuffer)
    · exact nodeFresh inNode
    · exact earlier (init.fresh inBuffer)
  · intro address outside beyond
    have outsideNode : address ∉ Span node 168 := fun inNode => outside (nodeFresh inNode)
    rw [init.kept address outsideNode fun inReserve => outside (earlier inReserve),
      Machine.withMem_mem, headerMem_outside outsideNode beyond, allocation.kept address outside]
  · rw [init.kallocs, Machine.withMem_kallocs, kallocs, List.append_assoc]
    rfl

theorem fsConstructNode_makes (ready : heap.Ready s) (string : CString s.mem name text)
    (short : text.length < 2 ^ 32)
    (owned : Disjoint (Span name (text.length + 1)) (heap.reserve s))
    (past : ∀ node after, heap.kalloc nodeSize s = .ok node after →
      Disjoint (Span name (text.length + 1) ∪ heap.books) (Span node (text.length + 1))) :
    Yields (fsConstructNode layout heap.kalloc name .file s)
      (fun node after => Made heap layout text s node after)
      (fun _ => heap.room s < 424) :=
  (fsConstructNode_makes_or_halts ready string short owned past).mono
    (fun _ _ made => made) fun _ full => full.1

/-- A name that fits its field is stored there, and nothing is copied past it. -/
theorem Made.constructed {after : Machine} (made : Made heap layout text s node after)
    (short : text.length ≤ 127) : Constructed heap layout text s node after := by
  obtain ⟨mem, header⟩ := made.name
  refine ⟨made.ready, made.room, made.held, made.ne_null, ?_, made.fresh, ?_, made.kallocs,
    made.root⟩
  · have named : (headerMem layout mem node text .file).read node 128 = _ :=
      headerMem_name short
    refine (Bytes.read_congr fun address inName => ?_).trans named
    exact header address (Span.mono (by omega) inName)
  · intro address outside
    refine made.kept address outside fun inName => outside (made.nodeFresh ?_)
    exact Span.mono (by omega) inName

/-- With a name that fits its field, a construction makes an empty file under that
name, or stops for want of room. -/
theorem fsConstructNode_yields (ready : heap.Ready s) (string : CString s.mem name text)
    (short : text.length ≤ 127)
    (owned : Disjoint (Span name (text.length + 1)) (heap.reserve s)) :
    Yields (fsConstructNode layout heap.kalloc name .file s)
      (fun node after => Constructed heap layout text s node after)
      (fun _ => heap.room s < 424) := by
  refine (fsConstructNode_makes ready string (by omega) owned ?_).mono
    (fun _ _ made => made.constructed short) fun _ full => full
  intro node after run
  have allocation := ((heap.yields ready (by decide : nodeSize.toNat ≤ 256)).of_ok run).1
  have inNode : Span node (text.length + 1) ⊆ Span node 168 := Span.mono (by omega)
  rw [Set.disjoint_union_left]
  constructor
  · exact Set.disjoint_of_subset_right (inNode.trans allocation.fresh) owned
  · refine Set.disjoint_of_subset_right (fun address inName => ?_) heap.books_apart.symm
    exact (allocation.inArena (inNode inName)).1

/-- With room for a node and a buffer, a construction returns. -/
theorem fsConstructNode_returns (ready : heap.Ready s) (string : CString s.mem name text)
    (short : text.length ≤ 127)
    (owned : Disjoint (Span name (text.length + 1)) (heap.reserve s))
    (enough : 424 ≤ heap.room s) :
    ∃ node after, fsConstructNode layout heap.kalloc name .file s = .ok node after ∧
      Constructed heap layout text s node after := by
  have yields : Yields (fsConstructNode layout heap.kalloc name .file s) _ _ :=
    fsConstructNode_yields ready string short owned
  exact (yields.mono (fun _ _ constructed => constructed) fun _ full => by omega).returns

/-- The memory of a new file was handed out. -/
theorem Constructed.granted {after : Machine}
    (constructed : Constructed heap layout text s node after) :
    Disjoint (footprint after.mem node) (heap.reserve after) := by
  have member : ∀ {block}, block ∈ [⟨node, nodeSize⟩, (⟨bufferOf after.mem node, 256⟩ : Block)] →
      block ∈ after.kallocs := by
    intro block listed
    rw [constructed.kallocs]
    exact List.mem_append_right _ listed
  rw [footprint, Set.disjoint_union_left]
  constructor
  · exact node_disjoint_reserve (member (by simp))
  · have apart : Disjoint (Block.span ⟨bufferOf after.mem node, 256⟩) (heap.reserve after) :=
      Heap.disjoint_reserve (member (by simp))
    exact apart

end Construct

end TorchOS.Filesystem
