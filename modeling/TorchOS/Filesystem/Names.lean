import TorchOS.Filesystem.Copying
import TorchOS.Filesystem.Loading

/-!
# Where the name of a file is copied

What `fs_construct_node` copies from the name field of a block. The field is as wide as
the name array of a node, but `struct.pack` leaves no zero byte in it for a name of 128
bytes or more: the copy of such a name goes on past both.
-/

namespace TorchOS.Filesystem

open Base Base.Program Lib

/-! ## The name field -/

section Field

variable {heap : Heap} {layout : Layout} {s : Machine} {name : UInt32} {text : List UInt8}

/-- The name of a block is copied from its field into the name array of the new node,
which then holds a zero-terminated beginning of the name of the file. Only a full heap
stops the construction. -/
structure NameInField (heap : Heap) (layout : Layout) (name : UInt32) (text : List UInt8)
    (s : Machine) : Prop where
  reads : ∀ copy ∈ (final (watchedConstruct id layout heap.kalloc name .file ⟨s, []⟩)).trace,
    copy.source ∈ Span name maxFilenameLength.toNat
  writes : ∀ node granted, heap.kalloc nodeSize s = .ok node granted →
    ∀ copy ∈ (final (watchedConstruct id layout heap.kalloc name .file ⟨s, []⟩)).trace,
      copy.destination ∈ Span (Node.name node) maxFilenameLength.toNat
  stored : Yields (fsConstructNode layout heap.kalloc name .file s)
    (fun node after => ∃ kept, kept <+: text ∧ kept.length < maxFilenameLength.toNat ∧
      CString after.mem (Node.name node) kept)
    (fun _ => heap.room s < 424)

/-- The node that is handed out is apart from the field, which the allocator and the
clearing of its name leave alone. -/
theorem field_kept {node : UInt32} {granted : Machine} (ready : heap.Ready s)
    (apart : Disjoint (Span name 128) (heap.reserve s))
    (returned : heap.kalloc nodeSize s = .ok node granted) :
    Disjoint (Span name 128) (Span node 128) ∧
      (granted.mem.write (Node.name node) (List.replicate maxFilenameLength.toNat 0)).read
        name 128 = s.mem.read name 128 := by
  have allocation := ((heap.yields ready (by decide : nodeSize.toNat ≤ 256)).of_ok returned).1
  have fresh : Span node 168 ⊆ heap.reserve s := allocation.fresh
  have outside : Disjoint (Span name 128) (Span node 128) :=
    Set.disjoint_of_subset_right ((Span.mono (by omega)).trans fresh) apart
  refine ⟨outside, Bytes.read_congr fun address inName => ?_⟩
  rw [Bytes.write_of_notMem, allocation.kept address (Set.disjoint_left.mp apart inName)]
  exact Set.disjoint_left.mp outside inName

/-- A name that fits is kept in its field. -/
theorem nameInField_of_short (ready : heap.Ready s)
    (packed : s.mem.read name 128 = pack128s text) (noNul : 0 ∉ text)
    (apart : Disjoint (Span name 128) (heap.reserve s)) (short : text.length ≤ 127) :
    NameInField heap layout name text s := by
  have inField : ∀ address, Span address (text.length + 1) ⊆ Span address 128 :=
    fun _ => Span.mono (by omega)
  have copies : ∀ node granted, heap.kalloc nodeSize s = .ok node granted →
      ∀ copy ∈ (final (watchedConstruct id layout heap.kalloc name .file ⟨s, []⟩)).trace,
        copy.source ∈ Span name 128 ∧ copy.destination ∈ Span node 128 := by
    intro node granted returned
    obtain ⟨outside, kept⟩ := field_kept ready apart returned
    rw [trace_watchedConstruct returned]
    refine watchedStrcpyLoop_traces (fun _ inName inNode => ⟨inName, inNode⟩) ?_ (inField name)
      (inField node) outside fun _ none => absurd none List.not_mem_nil
    exact string_of_pack128s (kept.trans packed) short noNul
  refine ⟨?_, fun node granted returned copy member => ?_, ?_⟩
  · cases run : heap.kalloc nodeSize s with
    | ok node granted => exact fun copy member => (copies node granted run copy member).1
    | error reason after =>
        rw [trace_of_kalloc_error run]
        exact fun _ none => absurd none List.not_mem_nil
  · exact (copies node granted returned copy member).2
  · refine (fsConstructNode_yields ready (string_of_pack128s packed short noNul) short
      (Set.disjoint_of_subset_left (inField name) apart)).mono ?_ fun _ full => full
    intro node after constructed
    have array : after.mem.read node 128 = pack128s text :=
      constructed.name.trans (pack128s_short short).symm
    exact ⟨text, List.prefix_rfl, Nat.lt_succ_of_le short, string_of_pack128s array short noNul⟩

/-- Without room for the node the name is not touched. -/
theorem nameInField_of_full (ready : heap.Ready s) (full : heap.room s < nodeSize.toNat) :
    NameInField heap layout name text s := by
  have yields := heap.yields ready (by decide : nodeSize.toNat ≤ 256)
  rw [nodeSize_toNat] at full
  cases run : heap.kalloc nodeSize s with
  | ok node granted =>
      have room := (yields.of_ok run).2.2
      rw [nodeSize_toNat] at room
      omega
  | error reason after =>
      refine ⟨?_, fun node granted returned => ?_, ?_⟩
      · rw [trace_of_kalloc_error run]
        exact fun _ none => absurd none List.not_mem_nil
      · rw [run] at returned
        cases returned
      · rw [fsConstructNode, bind_of_error run]
        exact full.trans (by decide)

/-- A longer name is read past its field, and copied past the name array. -/
theorem copied_past_field (layout : Layout) {node : UInt32} {granted : Machine}
    (ready : heap.Ready s) (packed : s.mem.read name 128 = pack128s text) (noNul : 0 ∉ text)
    (apart : Disjoint (Span name 128) (heap.reserve s)) (long : 128 ≤ text.length)
    (returned : heap.kalloc nodeSize s = .ok node granted) :
    ⟨name + 128, node + 128⟩ ∈
      (final (watchedConstruct id layout heap.kalloc name .file ⟨s, []⟩)).trace := by
  obtain ⟨outside, kept⟩ := field_kept ready apart returned
  rw [trace_watchedConstruct returned]
  refine watchedStrcpyLoop_past 128 ?_ outside (by omega) (by decide)
  rw [Machine.withMem_mem, kept, packed, pack128s, List.take_append_of_le_length long]
  exact fun member => noNul (List.mem_of_mem_take member)

/-- Past the field is not in it. -/
theorem past_notMem (address : UInt32) : address + 128 ∉ Span address 128 := by
  have distance : address + 128 - address = 128 := by grind
  rw [Span.mem_def, distance]
  decide

/-- Whatever contents follow it, the name of a block stays in its field and in the name
array of the new node exactly when it has at most 127 bytes, or the heap has no room
for the node. -/
theorem nameInField_iff_short (ready : heap.Ready s)
    (packed : s.mem.read name maxFilenameLength.toNat = pack128s text) (noNul : 0 ∉ text)
    (apart : Disjoint (Span name maxFilenameLength.toNat) (heap.reserve s)) :
    NameInField heap layout name text s ↔
      (nodeSize.toNat ≤ heap.room s → text.length ≤ 127) := by
  have width : maxFilenameLength.toNat = 128 := rfl
  rw [width] at packed apart
  constructor
  · intro stays enough
    by_contra long
    obtain ⟨node, granted, returned, -⟩ :=
      Heap.returns ready (by decide : nodeSize.toNat ≤ 256) enough
    have past := copied_past_field layout ready packed noNul apart (by omega) returned
    have inField := stays.reads _ past
    rw [width] at inField
    exact past_notMem name inField
  · intro fits
    by_cases enough : nodeSize.toNat ≤ heap.room s
    · exact nameInField_of_short ready packed noNul apart (fits enough)
    · exact nameInField_of_full ready (Nat.not_le.mp enough)

end Field

/-! ## Two names -/

/-- A machine with an empty mapped heap and a packed name at 0x00280004. -/
def namedMachine (text : List UInt8) : Machine :=
  { Machine.boot (Bytes.write (fun _ => 0) 0x00280004 (pack128s text)) with
    heapCurrent := heapAllocatorAreaStart
    heapMapped := heapAllocatorAreaEnd }

section Named

variable (text : List UInt8)

theorem namedMachine_ready : (mappedHeap Layout.sample).Ready (namedMachine text) :=
  ⟨rfl, Nat.le_refl _, (by decide : heapAllocatorAreaStart.toNat ≤ heapAllocatorAreaEnd.toNat), rfl,
    fun _ none => absurd none List.not_mem_nil⟩

theorem namedMachine_room :
    nodeSize.toNat ≤ (mappedHeap Layout.sample).room (namedMachine text) := by
  have room : (mappedHeap Layout.sample).room (namedMachine text) =
      heapAllocatorAreaEnd.toNat - heapAllocatorAreaStart.toNat := rfl
  rw [room]
  decide

theorem namedMachine_packed : (namedMachine text).mem.read 0x00280004 128 = pack128s text := by
  have same : (Bytes.write (fun _ => 0) 0x00280004 (pack128s text)).read 0x00280004
      (pack128s text).length = pack128s text :=
    Bytes.read_write_same (by rw [length_pack128s]; omega)
  rwa [length_pack128s] at same

theorem namedMachine_apart :
    Disjoint (Span 0x00280004 128) ((mappedHeap Layout.sample).reserve (namedMachine text)) := by
  rw [Set.disjoint_left]
  intro address inName inReserve
  have above := (mem_heapArena.mp (mappedHeap_reserve_subset inReserve)).1
  have below := ((Span.mem_iff (by decide)).mp inName).2
  have place : (0x00280004 : UInt32).toNat = 2621444 := rfl
  rw [toNat_heapAllocatorAreaStart] at above
  omega

end Named

theorem nameInField_iff_short_a :
    NameInField (mappedHeap Layout.sample) Layout.sample 0x00280004 [97] (namedMachine [97]) :=
  (nameInField_iff_short (namedMachine_ready _) (namedMachine_packed _) (by decide)
    (namedMachine_apart _)).mpr fun _ => by decide

/-- A name of 128 bytes is read past its field. -/
theorem name_of_field_width_read_past :
    ¬ NameInField (mappedHeap Layout.sample) Layout.sample 0x00280004 (List.replicate 128 97)
      (namedMachine (List.replicate 128 97)) := by
  intro stays
  have noNul : (0 : UInt8) ∉ List.replicate 128 97 := by
    rw [List.mem_replicate]
    exact fun zero => absurd zero.2 (by decide)
  obtain ⟨node, granted, returned, -⟩ := Heap.returns
    (namedMachine_ready (List.replicate 128 97)) (by decide : nodeSize.toNat ≤ 256)
    (namedMachine_room _)
  have past := copied_past_field Layout.sample (namedMachine_ready _)
    (namedMachine_packed _) noNul (namedMachine_apart _) (by simp) returned
  have inField := stays.reads _ past
  exact past_notMem _ inField

end TorchOS.Filesystem
