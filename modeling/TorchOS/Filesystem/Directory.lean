import TorchOS.Base.Chain
import TorchOS.Filesystem.Nodes

/-!
# Directories

A directory is a chain of entries from its `head`. `fs_add_dirent` walks to the
last entry and links a new one behind it, or makes it the head.
-/

namespace TorchOS.Filesystem

open Base Base.Program Lib

/-- A pointer, with `NULL` as none. -/
def pointerOf (address : UInt32) : Option UInt32 := if address = 0 then none else some address

/-- The entry behind an entry. -/
def nextOf (mem : Bytes) (entry : UInt32) : Option UInt32 :=
  pointerOf (mem.load32 (Dirent.next entry))

/-- The first entry of a directory. -/
def headOf (mem : Bytes) (directory : UInt32) : Option UInt32 :=
  pointerOf (mem.load32 (Node.head directory))

theorem pointerOf_eq_some {address target : UInt32} :
    pointerOf address = some target ↔ address = target ∧ target ≠ 0 := by
  unfold pointerOf
  split
  next null =>
    refine ⟨fun none => (by cases none), fun ⟨same, nonnull⟩ => ?_⟩
    exact absurd (same ▸ null) nonnull
  next nonnull =>
    rw [Option.some_inj]
    exact ⟨fun same => ⟨same, same ▸ nonnull⟩, fun both => both.1⟩

theorem pointerOf_eq_none {address : UInt32} : pointerOf address = none ↔ address = 0 := by
  unfold pointerOf
  split <;> simp_all

/-- The pointer a new last entry is stored in. -/
def linkOf (directory : UInt32) (entries : List UInt32) : UInt32 :=
  match entries.getLast? with
  | none => Node.head directory
  | some last => Dirent.next last

/-- The entries of a directory, one behind the other. -/
structure Entries (mem : Bytes) (directory : UInt32) (entries : List UInt32) : Prop where
  type : mem.load32 (Node.type directory) = NodeType.directory.value
  chain : Chain (nextOf mem) (headOf mem directory) entries
  size : (mem.load32 (Node.size directory)).toNat = entries.length

/-- The directory and its entries lie apart, in memory that was handed out. -/
structure Placed (heap : Heap) (s : Machine) (directory : UInt32) (entries : List UInt32) :
    Prop where
  handedOut : Disjoint (Span directory 168) (heap.reserve s)
  granted : ∀ entry ∈ entries, Disjoint (Span entry 8) (heap.reserve s)
  outside : ∀ entry ∈ entries, Disjoint (Span entry 8) (Span directory 168)
  apart : ∀ left ∈ entries, ∀ right ∈ entries, left ≠ right →
    Disjoint (Span left 8) (Span right 8)

section Walk

variable {s : Machine} {directory current last : UInt32} {cells entries : List UInt32}

/-- The walk ends at the last entry of the chain. -/
theorem lastDirent_loop {fuel : Nat} (chain : Chain (nextOf s.mem) (some current) (cells ++ [last]))
    (enough : cells.length < fuel) :
    loop (fun current s => s.mem.load32 (Dirent.next current) ≠ 0)
      (fun current => getWord (Dirent.next current)) Halt.endless fuel current s =
      .ok last s := by
  induction cells generalizing current fuel with
  | nil =>
      obtain ⟨fuel, rfl⟩ : ∃ n, fuel = n + 1 := ⟨fuel - 1, by simp at enough; omega⟩
      obtain ⟨same, ends⟩ := chain
      cases same
      have done := pointerOf_eq_none.mp ends
      exact loop_done (by simp [done])
  | cons cell rest ih =>
      obtain ⟨fuel, rfl⟩ : ∃ n, fuel = n + 1 := ⟨fuel - 1, by simp at enough; omega⟩
      obtain ⟨same, tail⟩ := chain
      cases same
      obtain ⟨following, first⟩ : ∃ following, (rest ++ [last]).head? = some following := by
        cases rest <;> simp
      have start : nextOf s.mem cell = (rest ++ [last]).head? := tail.head_eq
      rw [first] at start
      obtain ⟨stored, nonnull⟩ := pointerOf_eq_some.mp start
      have again : decide (s.mem.load32 (Dirent.next cell) ≠ 0) = true := by
        rw [decide_eq_true_eq, stored]
        exact nonnull
      rw [start] at tail
      refine Eq.trans (loop_again again) ?_
      rw [bind_of_ok (getWord_run _ _), stored]
      exact ih tail (by simp only [List.length_cons] at enough; omega)

theorem direntLink_run (chain : Chain (nextOf s.mem) (headOf s.mem directory) entries)
    (few : entries.length < 2 ^ 32) :
    direntLink directory s = .ok (linkOf directory entries) s := by
  rw [direntLink, bind_of_ok (getWord_run _ _)]
  rcases List.eq_nil_or_concat entries with rfl | ⟨cells, last, rfl⟩
  · rw [if_pos (pointerOf_eq_none.mp chain)]
    rfl
  · rw [List.concat_eq_append] at chain few ⊢
    obtain ⟨first, start⟩ : ∃ first, (cells ++ [last]).head? = some first := by
      cases cells <;> simp
    have starts : headOf s.mem directory = (cells ++ [last]).head? := chain.head_eq
    rw [start] at starts
    obtain ⟨stored, nonnull⟩ := pointerOf_eq_some.mp starts
    rw [starts] at chain
    have walks : lastDirent first s = .ok last s :=
      lastDirent_loop chain (by
        rw [List.length_append] at few
        unfold loopBound
        omega)
    rw [stored, if_neg nonnull, bind_of_ok walks, linkOf, List.getLast?_concat]
    rfl

end Walk

/-! ## Adding an entry -/

/-- The memory after `fs_add_dirent` filled in a new entry and counted it. -/
def addedMem (mem : Bytes) (directory link entry file : UInt32) : Bytes :=
  let linked := ((mem.store32 link entry).store32 (Dirent.node entry) file).store32
    (Dirent.next entry) 0
  linked.store32 (Node.size directory) (linked.load32 (Node.size directory) + 1)

/-- An entry was added to a directory for a file. -/
structure EntryAdded (heap : Heap) (directory : UInt32) (entries : List UInt32)
    (file : UInt32) (before : Machine) (entry : UInt32) (after : Machine) : Prop where
  ready : heap.Ready after
  room : heap.room after + 8 = heap.room before
  listed : Entries after.mem directory (entries ++ [entry])
  node : after.mem.load32 (Dirent.node entry) = file
  fresh : Span entry 8 ⊆ heap.reserve before
  kept : ∀ address ∉ heap.reserve before, address ∉ Span directory 168 →
    (∀ other ∈ entries, address ∉ Span (Dirent.next other) 4) →
    after.mem address = before.mem address
  kallocs : after.kallocs = before.kallocs ++ [⟨entry, direntSize⟩]
  root : after.root = before.root

section Added

variable {mem : Bytes} {directory link entry file address : UInt32}

/-- The fields of an entry make it up. -/
theorem node_apart_next : Disjoint (Span (Dirent.node entry) 4) (Span (Dirent.next entry) 4) :=
  disjoint_field (by decide) (by decide)

theorem node_subset : Span (Dirent.node entry) 4 ⊆ Span entry 8 := Span.mono (by omega)

theorem next_subset : Span (Dirent.next entry) 4 ⊆ Span entry 8 := field_subset (by decide)

theorem size_subset : Span (Node.size directory) 4 ⊆ Span directory 168 :=
  field_subset (by decide)

theorem addedMem_outside (outsideLink : address ∉ Span link 4)
    (outsideEntry : address ∉ Span entry 8) (outsideSize : address ∉ Span (Node.size directory) 4) :
    addedMem mem directory link entry file address = mem address := by
  have outsideNode : address ∉ Span (Dirent.node entry) 4 :=
    fun inside => outsideEntry (node_subset inside)
  have outsideNext : address ∉ Span (Dirent.next entry) 4 :=
    fun inside => outsideEntry (next_subset inside)
  rw [addedMem, Bytes.store32_of_notMem outsideSize, Bytes.store32_of_notMem outsideNext,
    Bytes.store32_of_notMem outsideNode, Bytes.store32_of_notMem outsideLink]

theorem addedMem_node (entryOutside : Disjoint (Span entry 8) (Span directory 168)) :
    (addedMem mem directory link entry file).load32 (Dirent.node entry) = file := by
  have sizeApart : Disjoint (Span (Dirent.node entry) 4) (Span (Node.size directory) 4) :=
    Set.disjoint_of_subset node_subset size_subset entryOutside
  rw [addedMem, Bytes.load32_store32_of_disjoint sizeApart,
    Bytes.load32_store32_of_disjoint node_apart_next, Bytes.load32_store32]

theorem addedMem_next (entryOutside : Disjoint (Span entry 8) (Span directory 168)) :
    (addedMem mem directory link entry file).load32 (Dirent.next entry) = 0 := by
  have sizeApart : Disjoint (Span (Dirent.next entry) 4) (Span (Node.size directory) 4) :=
    Set.disjoint_of_subset next_subset size_subset entryOutside
  rw [addedMem, Bytes.load32_store32_of_disjoint sizeApart, Bytes.load32_store32]

theorem addedMem_link (linkOutside : Disjoint (Span link 4) (Span entry 8))
    (linkApart : Disjoint (Span link 4) (Span (Node.size directory) 4)) :
    (addedMem mem directory link entry file).load32 link = entry := by
  rw [addedMem, Bytes.load32_store32_of_disjoint linkApart,
    Bytes.load32_store32_of_disjoint (Set.disjoint_of_subset_right next_subset linkOutside),
    Bytes.load32_store32_of_disjoint (Set.disjoint_of_subset_right node_subset linkOutside),
    Bytes.load32_store32]

theorem addedMem_size (entryOutside : Disjoint (Span entry 8) (Span directory 168))
    (linkApart : Disjoint (Span link 4) (Span (Node.size directory) 4)) :
    (addedMem mem directory link entry file).load32 (Node.size directory) =
      mem.load32 (Node.size directory) + 1 := by
  have sizeOutside : Disjoint (Span (Node.size directory) 4) (Span entry 8) :=
    Set.disjoint_of_subset_left size_subset entryOutside.symm
  rw [addedMem, Bytes.load32_store32,
    Bytes.load32_store32_of_disjoint (Set.disjoint_of_subset_right next_subset sizeOutside),
    Bytes.load32_store32_of_disjoint (Set.disjoint_of_subset_right node_subset sizeOutside),
    Bytes.load32_store32_of_disjoint linkApart.symm]

end Added

section AddDirent

variable {heap : Heap} {s : Machine} {directory file zero : UInt32} {entries : List UInt32}

/-- The link lies in the directory or in its last entry. -/
theorem linkOf_cases (directory : UInt32) (entries : List UInt32) :
    linkOf directory entries = Node.head directory ∨
      ∃ last ∈ entries, linkOf directory entries = Dirent.next last := by
  unfold linkOf
  cases found : entries.getLast? with
  | none => exact .inl rfl
  | some last => exact .inr ⟨last, List.mem_of_getLast? found, rfl⟩

theorem Placed.link_granted (placed : Placed heap s directory entries) :
    Disjoint (Span (linkOf directory entries) 4) (heap.reserve s) := by
  rcases linkOf_cases directory entries with isHead | ⟨last, member, isNext⟩
  · rw [isHead]
    exact Set.disjoint_of_subset_left (field_subset (by decide)) placed.handedOut
  · rw [isNext]
    exact Set.disjoint_of_subset_left next_subset (placed.granted last member)

theorem Placed.link_apart (placed : Placed heap s directory entries) :
    Disjoint (Span (linkOf directory entries) 4) (Span (Node.size directory) 4) := by
  rcases linkOf_cases directory entries with isHead | ⟨last, member, isNext⟩
  · rw [isHead]
    exact Span.shift_disjoint (by decide) (by decide)
  · rw [isNext]
    exact Set.disjoint_of_subset next_subset size_subset (placed.outside last member)

theorem newDirent_run {after : Machine} {link entry : UInt32}
    (returned : heap.kalloc direntSize s = .ok entry after) :
    newDirent heap.kalloc link file s =
      .ok () (after.withMem (((after.mem.store32 link entry).store32
        (Dirent.node entry) file).store32 (Dirent.next entry) 0)) := by
  rw [newDirent, bind_of_ok returned, bind_of_ok (putWord_run _ _ _), bind_of_ok (getWord_run _ _),
    Machine.withMem_mem, Bytes.load32_store32, bind_of_ok (putWord_run _ _ _), putWord_run]
  rfl

/-- When its checks pass, `fs_add_dirent` makes a new entry at the end and counts it. -/
theorem fsAddDirent_eq {serial : List LogLine}
    (logs : logf "Adding file %s to directory %s\n"
      [.str (Node.name file), .str (Node.name directory)] s = .ok () (s.withSerial serial))
    (listed : Entries s.mem directory entries) (few : entries.length < 2 ^ 32)
    (isFile : s.mem.load32 (Node.type file) = NodeType.file.value) :
    fsAddDirent heap.kalloc directory file s = (do
      newDirent heap.kalloc (linkOf directory entries) file
      putWord (Node.size directory) ((← getWord (Node.size directory)) + 1))
        (s.withSerial serial) := by
  have directoryType : decide ((s.withSerial serial).mem.load32 (Node.type directory) ≠
      NodeType.directory.value) = false := by
    rw [decide_eq_false_iff_not, not_not]
    exact listed.type
  have fileType : decide ((s.withSerial serial).mem.load32 (Node.type file) ≠
      NodeType.file.value) = false := by
    rw [decide_eq_false_iff_not, not_not]
    exact isFile
  have links : direntLink directory (s.withSerial serial) =
      .ok (linkOf directory entries) (s.withSerial serial) := direntLink_run listed.chain few
  rw [fsAddDirent, bind_of_ok logs, bind_of_ok (getWord_run _ _),
    bind_of_ok (panicIf_run directoryType), bind_of_ok (getWord_run _ _),
    bind_of_ok (panicIf_run fileType), bind_of_ok links]

/-- The steps of `fs_add_dirent` up to the last, when its checks pass. -/
theorem fsAddDirent_run {after : Machine} {entry : UInt32} {serial : List LogLine}
    (logs : logf "Adding file %s to directory %s\n"
      [.str (Node.name file), .str (Node.name directory)] s = .ok () (s.withSerial serial))
    (listed : Entries s.mem directory entries) (few : entries.length < 2 ^ 32)
    (isFile : s.mem.load32 (Node.type file) = NodeType.file.value)
    (returned : heap.kalloc direntSize (s.withSerial serial) = .ok entry after) :
    fsAddDirent heap.kalloc directory file s =
      .ok () (after.withMem
        (addedMem after.mem directory (linkOf directory entries) entry file)) := by
  rw [fsAddDirent_eq logs listed few isFile, bind_of_ok (newDirent_run returned),
    bind_of_ok (getWord_run _ _), putWord_run]
  rfl

/-- The chain after the new entry was linked. -/
theorem chain_added {mem mem' : Bytes} {entry : UInt32}
    (chain : Chain (nextOf mem) (headOf mem directory) entries) (nonnull : entry ≠ 0)
    (fresh : entry ∉ entries)
    (linked : mem'.load32 (linkOf directory entries) = entry)
    (ends : mem'.load32 (Dirent.next entry) = 0)
    (sameHead : entries ≠ [] → headOf mem' directory = headOf mem directory)
    (sameNext : ∀ other ∈ entries, linkOf directory entries ≠ Dirent.next other →
      nextOf mem' other = nextOf mem other) :
    Chain (nextOf mem') (headOf mem' directory) (entries ++ [entry]) := by
  have last : nextOf mem' entry = none := pointerOf_eq_none.mpr ends
  rcases List.eq_nil_or_concat entries with rfl | ⟨cells, tail, rfl⟩
  · exact ⟨pointerOf_eq_some.mpr ⟨linked, nonnull⟩, last⟩
  · rw [List.concat_eq_append] at chain fresh linked sameHead sameNext ⊢
    have isNext : linkOf directory (cells ++ [tail]) = Dirent.next tail := by
      rw [linkOf, List.getLast?_concat]
    rw [isNext] at linked sameNext
    rw [sameHead (by simp)]
    have once := chain.nodup
    refine chain.append_one fresh (fun other member => ?_)
      (pointerOf_eq_some.mpr ⟨linked, nonnull⟩) last
    refine sameNext other (List.mem_append_left _ member) fun same => ?_
    have isTail : tail = other := by
      unfold Dirent.next at same
      grind
    rw [isTail] at once
    exact (List.nodup_append.mp once).2.2 other member other (by simp) rfl

/-- Within its checks, `fs_add_dirent` fills in a new entry behind the last one. -/
theorem fsAddDirent_added (ready : heap.Ready s) (enough : 8 ≤ heap.room s)
    (listed : Entries s.mem directory entries) (few : entries.length + 1 < 2 ^ 32)
    (placed : Placed heap s directory entries)
    (isFile : s.mem.load32 (Node.type file) = NodeType.file.value) (ends : s.mem zero = 0) :
    ∃ entry after, fsAddDirent heap.kalloc directory file s = .ok () after ∧
      EntryAdded heap directory entries file s entry after := by
  obtain ⟨serial, logs⟩ := logf_run ends "Adding file %s to directory %s\n"
    [.str (Node.name file), .str (Node.name directory)]
  have roomSame : heap.room (s.withSerial serial) = heap.room s :=
    Heap.room_withSerial s serial
  obtain ⟨entry, middle, returned, allocation, readyMiddle, roomMiddle⟩ :=
    heap.returns (Heap.ready_withSerial ready serial) (by decide : direntSize.toNat ≤ 256)
      (by rw [roomSame]; exact enough)
  have run := fsAddDirent_run logs listed (by omega) isFile returned
  have fresh : Span entry 8 ⊆ heap.reserve s := allocation.fresh
  have entryOutside : Disjoint (Span entry 8) (Span directory 168) :=
    Set.disjoint_of_subset_left fresh placed.handedOut.symm
  have linkOutside : Disjoint (Span (linkOf directory entries) 4) (Span entry 8) :=
    Set.disjoint_of_subset_right fresh placed.link_granted
  -- What lies outside the reserve, the link and the counter is untouched.
  have untouched : ∀ {address}, address ∉ heap.reserve s →
      address ∉ Span (linkOf directory entries) 4 → address ∉ Span (Node.size directory) 4 →
      addedMem middle.mem directory (linkOf directory entries) entry file address =
        s.mem address := by
    intro address outsideReserve outsideLink outsideSize
    rw [addedMem_outside outsideLink (fun inside => outsideReserve (fresh inside)) outsideSize]
    exact allocation.kept address outsideReserve
  have word : ∀ {start : UInt32}, Disjoint (Span start 4) (heap.reserve s) →
      Disjoint (Span start 4) (Span (linkOf directory entries) 4) →
      Disjoint (Span start 4) (Span (Node.size directory) 4) →
      (addedMem middle.mem directory (linkOf directory entries) entry file).load32 start =
        s.mem.load32 start := fun reserveApart linkApart sizeApart =>
    Bytes.load32_congr fun _ inside => untouched (Set.disjoint_left.mp reserveApart inside)
      (Set.disjoint_left.mp linkApart inside) (Set.disjoint_left.mp sizeApart inside)
  have field : ∀ {offset : UInt32}, offset.toNat + 4 ≤ 168 →
      Disjoint (Span (directory + offset) 4) (heap.reserve s) := fun inside =>
    Set.disjoint_of_subset_left (field_subset inside) placed.handedOut
  have readyAfter : heap.Ready (middle.withMem
      (addedMem middle.mem directory (linkOf directory entries) entry file)) := by
    refine Heap.ready_of_kept readyMiddle (SameHeap.withMem _ _) fun address inReserve => ?_
    have kallocs : middle.kallocs = s.kallocs ++ [⟨entry, direntSize⟩] := allocation.kallocs
    have earlier : address ∈ heap.reserve s := by
      refine Heap.reserve_anti ?_ inReserve
      rw [kallocs]
      exact List.subset_append_left _ _
    have granted : Disjoint (Block.span ⟨entry, direntSize⟩) (heap.reserve middle) := by
      apply Heap.disjoint_reserve
      rw [kallocs]
      exact List.mem_append_right _ (List.mem_singleton.mpr rfl)
    exact addedMem_outside (Set.disjoint_right.mp placed.link_granted earlier)
      (Set.disjoint_right.mp granted inReserve)
      (Set.disjoint_right.mp (field (by decide)) earlier)
  refine ⟨entry, _, run, readyAfter, ?_, ⟨?_, ?_, ?_⟩,
    addedMem_node entryOutside, fresh, ?_, allocation.kallocs, allocation.root⟩
  · rw [Heap.room_withMem, ← roomSame]
    exact roomMiddle
  · refine (word (field (by decide)) ?_ (Span.shift_disjoint (by decide) (by decide))).trans
      listed.type
    rcases linkOf_cases directory entries with isHead | ⟨last, member, isNext⟩
    · rw [isHead]
      exact Span.shift_disjoint (by decide) (by decide)
    · rw [isNext]
      exact (Set.disjoint_of_subset next_subset (field_subset (by decide))
        (placed.outside last member)).symm
  · refine chain_added listed.chain allocation.ne_null ?_
      (addedMem_link linkOutside placed.link_apart) (addedMem_next entryOutside) ?_ ?_
    · intro member
      have first : entry ∈ Span entry 8 := Span.start_mem (by decide)
      exact Set.disjoint_left.mp (placed.granted entry member) first (fresh first)
    · intro nonempty
      refine congrArg pointerOf (word (field (by decide)) ?_
        (Span.shift_disjoint (by decide) (by decide)))
      rcases List.eq_nil_or_concat entries with empty | ⟨cells, last, rfl⟩
      · exact absurd empty nonempty
      · rw [List.concat_eq_append] at placed ⊢
        rw [linkOf, List.getLast?_concat]
        exact (Set.disjoint_of_subset next_subset (field_subset (by decide))
          (placed.outside last (by simp))).symm
    · intro other member different
      refine congrArg pointerOf (word
        (Set.disjoint_of_subset_left next_subset (placed.granted other member)) ?_
        (Set.disjoint_of_subset next_subset size_subset (placed.outside other member)))
      rcases linkOf_cases directory entries with isHead | ⟨last, lastMember, isNext⟩
      · rw [isHead]
        exact Set.disjoint_of_subset next_subset (field_subset (by decide))
          (placed.outside other member)
      · rw [isNext] at different ⊢
        have otherEntry : other ≠ last := fun same => different (by rw [same])
        exact Set.disjoint_of_subset next_subset next_subset
          (placed.apart other member last lastMember otherEntry)
  · have sizeKept : middle.mem.load32 (Node.size directory) =
        s.mem.load32 (Node.size directory) :=
      Bytes.load32_congr fun address inside =>
        allocation.kept address (Set.disjoint_left.mp (field (by decide)) inside)
    have one : (1 : UInt32).toNat = 1 := rfl
    rw [Machine.withMem_mem, addedMem_size entryOutside placed.link_apart, sizeKept,
      UInt32.toNat_add, listed.size, one, List.length_append, List.length_singleton]
    omega
  · intro address outsideReserve outsideDirectory outsideNext
    refine untouched outsideReserve ?_ fun inSize => outsideDirectory (size_subset inSize)
    rcases linkOf_cases directory entries with isHead | ⟨last, member, isNext⟩
    · rw [isHead]
      exact fun inHead => outsideDirectory (field_subset (by decide) inHead)
    · rw [isNext]
      exact outsideNext last member

/-- Within its checks, `fs_add_dirent` adds an entry, or halts as the heap does for want of
room. -/
theorem fsAddDirent_yields (ready : heap.Ready s) (listed : Entries s.mem directory entries)
    (few : entries.length + 1 < 2 ^ 32) (placed : Placed heap s directory entries)
    (isFile : s.mem.load32 (Node.type file) = NodeType.file.value) (ends : s.mem zero = 0) :
    Yields (fsAddDirent heap.kalloc directory file s)
      (fun _ after => ∃ entry, EntryAdded heap directory entries file s entry after)
      (fun reason => heap.room s < 8 ∧ heap.HaltsFor reason) := by
  by_cases enough : 8 ≤ heap.room s
  · obtain ⟨entry, after, run, added⟩ :=
      fsAddDirent_added ready enough listed few placed isFile ends
    rw [run]
    exact ⟨entry, added⟩
  · obtain ⟨serial, logs⟩ := logf_run ends "Adding file %s to directory %s\n"
      [.str (Node.name file), .str (Node.name directory)]
    have grants := heap.grants (Heap.ready_withSerial ready serial)
      (by decide : direntSize.toNat ≤ 256)
    have eight : direntSize.toNat = 8 := rfl
    rw [Heap.room_withSerial, eight] at grants
    rw [fsAddDirent_eq logs listed (by omega) isFile]
    cases run : heap.kalloc direntSize (s.withSerial serial) with
    | ok entry after =>
        have room := (grants.of_ok run).2.2
        omega
    | error reason after =>
        have halts : newDirent heap.kalloc (linkOf directory entries) file
            (s.withSerial serial) = .error reason after := bind_of_error run
        rw [bind_of_error halts]
        exact grants.of_error run

end AddDirent

end TorchOS.Filesystem
