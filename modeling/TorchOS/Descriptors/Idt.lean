import TorchOS.Descriptors.Gdt
import TorchOS.Lib.Memory

/-!
# The interrupt gates of the kernel

`init_idt` clears a table of 256 gates, sets the gates of the stubs and loads the table
with `idt_flush`. The table in memory is the one that `Interrupts.initIdt` describes.
-/

namespace TorchOS.Descriptors

open Base

/-! ## `idt.c` -/

/-- `idt_set_gate` -/
def idtSetGate (idt : UInt32) (n : UInt8) (base : UInt32) (sel : UInt16) (flags : UInt8)
    (mem : Bytes) : Bytes :=
  let entry := idt + 8 * n.toUInt32
  let mem := mem.store16 (entry + 0) (base &&& 0xFFFF).toUInt16
  let mem := mem.store16 (entry + 6) ((base >>> 16) &&& 0xFFFF).toUInt16
  let mem := mem.store16 (entry + 2) sel
  let mem := mem.store8 (entry + 4) 0
  mem.store8 (entry + 5) flags

/-- The memory that `memset` leaves. -/
def memset (bufptr : UInt32) (value : UInt8) (size : UInt32) (mem : Bytes) : Bytes :=
  match Lib.memset bufptr value size (Machine.boot mem) with
  | .ok _ s => s.mem
  | .error _ s => s.mem

/-- What `init_idt` stores. -/
def fillIdt (linked : Linked) (mem : Bytes) : Bytes :=
  let mem := mem.store16 linked.idtPtr (8 * 256)
  let mem := mem.store32 (linked.idtPtr + 2) linked.idt
  let mem := memset linked.idt 0 (8 * 256) mem
  Interrupts.stubs.foldl (fun mem stub =>
    idtSetGate linked.idt stub.vector (linked.image.address stub) 0x08 0x8E mem) mem

/-- `idt_flush` -/
def idtFlush : List SystemInstruction :=
  [.ordinary (.load .eax .esp 4), .lidt .eax, .ordinary .ret]

/-- `init_idt` -/
def initIdt (linked : Linked) (s : Segmented) : Except Fault Segmented :=
  call idtFlush linked.idtPtr linked.idtFlushed
    (s.withMem (fillIdt linked s.cpu.mem))

/-! ## The table of gates -/

/-- The bytes of an entry. -/
def entryBytes (entry : Interrupts.IdtEntry) : List UInt8 :=
  Bytes.ofHalf entry.baseLo ++ Bytes.ofHalf entry.sel ++ [entry.res, entry.flags] ++
    Bytes.ofHalf entry.baseHi

/-- A gate as the processor sees it. -/
def gateOf (entry : Interrupts.IdtEntry) : Gate := ⟨entry.base, entry.sel, entry.flags⟩

/-- The entries lie in memory one after the other. -/
def TableAt (idt : UInt32) (mem : Bytes) (table : UInt8 → Interrupts.IdtEntry) : Prop :=
  ∀ vector : UInt8, mem.read (idt + 8 * vector.toUInt32) 8 = entryBytes (table vector)

section Entries

variable {idt : UInt32} {mem : Bytes} {table : UInt8 → Interrupts.IdtEntry}

/-- What the processor puts together from an entry. -/
theorem ofBytes_entryBytes (entry : Interrupts.IdtEntry) :
    Gate.ofBytes (entryBytes entry) = gateOf entry := by
  have low := entry.baseLo.toNat_lt
  have high := entry.baseHi.toNat_lt
  have base : Bytes.toWord (Bytes.ofHalf entry.baseLo ++ Bytes.ofHalf entry.baseHi) =
      entry.base := by
    have shifted : (entry.baseHi.toUInt32 <<< 16).toNat = entry.baseHi.toNat * 65536 := by
      have sixteen : (16 : UInt32).toNat % 32 = 16 := rfl
      rw [UInt32.toNat_shiftLeft, UInt16.toNat_toUInt32, sixteen, Nat.shiftLeft_eq]
      omega
    have joined : entry.base.toNat = entry.baseHi.toNat * 65536 + entry.baseLo.toNat := by
      rw [Interrupts.IdtEntry.base, UInt32.or_comm, Word.toNat_or_low 16 (by omega), shifted,
        UInt16.toNat_toUInt32]
      rwa [UInt16.toNat_toUInt32]
    rw [← UInt32.toNat_inj, joined]
    simp only [Bytes.ofHalf, List.cons_append, List.nil_append, Bytes.toWord, List.foldr,
      UInt32.toNat_ofNat', UInt16.toNat_toUInt8, UInt16.toNat_shiftRight, UInt16.reduceToNat,
      Nat.shiftRight_eq_div_pow, Nat.reduceMod, Nat.reducePow]
    omega
  have split : Gate.ofBytes (entryBytes entry) =
      ⟨Bytes.toWord (Bytes.ofHalf entry.baseLo ++ Bytes.ofHalf entry.baseHi),
        (Bytes.toWord (Bytes.ofHalf entry.sel)).toUInt16, entry.flags⟩ := rfl
  rw [split, base, Bytes.toWord_ofHalf]
  rfl

theorem toNat_entry (vector : UInt8) : (8 * vector.toUInt32).toNat = 8 * vector.toNat := by
  have wide := vector.toNat_lt
  have eight : (8 : UInt32).toNat = 8 := rfl
  rw [UInt32.toNat_mul, UInt8.toNat_toUInt32, eight]
  omega

theorem entries_disjoint {vector other : UInt8} (different : vector ≠ other) :
    Disjoint (Span (idt + 8 * vector.toUInt32) 8) (Span (idt + 8 * other.toUInt32) 8) := by
  have first := vector.toNat_lt
  have second := other.toNat_lt
  have apart : vector.toNat ≠ other.toNat := fun same => different (UInt8.toNat_inj.mp same)
  rcases Nat.lt_or_gt_of_ne apart with before | after
  · apply Span.shift_disjoint <;> simp only [toNat_entry] <;> omega
  · apply Disjoint.symm
    apply Span.shift_disjoint <;> simp only [toNat_entry] <;> omega

theorem entry_subset (vector : UInt8) :
    Span (idt + 8 * vector.toUInt32) 8 ⊆ Span idt 2048 := by
  have wide := vector.toNat_lt
  apply Span.shift_subset
  rw [toNat_entry]
  omega

variable (idt mem) (n : UInt8) (base : UInt32) (sel : UInt16) (flags : UInt8)

theorem idtSetGate_read :
    (idtSetGate idt n base sel flags mem).read (idt + 8 * n.toUInt32) 8 =
      entryBytes (.of base sel flags) := by
  generalize place : idt + 8 * n.toUInt32 = entry
  simp only [idtSetGate, place]
  generalize bytes : mem.read entry 8 = before
  have eight : before.length = 8 := by rw [← bytes, Bytes.length_read]
  match before, eight with
  | [b0, b1, b2, b3, b4, b5, b6, b7], _ =>
    simp (disch := decide) only [Bytes.read_store8, Bytes.read_store16, bytes, Bytes.ofHalf]
    rfl

theorem idtSetGate_of_notMem {address : UInt32}
    (outside : address ∉ Span (idt + 8 * n.toUInt32) 8) :
    idtSetGate idt n base sel flags mem address = mem address := by
  simp only [idtSetGate]
  rw [Bytes.store8_of_notMem 5 (by decide) outside, Bytes.store8_of_notMem 4 (by decide) outside,
    Bytes.store16_of_notMem 2 (by decide) outside, Bytes.store16_of_notMem 6 (by decide) outside,
    Bytes.store16_of_notMem 0 (by decide) outside]

variable {idt mem n base sel flags}

/-- `idt_set_gate` sets the entry of its vector and no other. -/
theorem TableAt.setGate (holds : TableAt idt mem table) :
    TableAt idt (idtSetGate idt n base sel flags mem)
      (Interrupts.idtSetGate n base sel flags table) := by
  intro vector
  by_cases same : vector = n
  · subst same
    rw [idtSetGate_read, Interrupts.idtSetGate, Function.update_self]
  · rw [Interrupts.idtSetGate, Function.update_of_ne same, ← holds vector]
    exact Bytes.read_congr fun address inside => idtSetGate_of_notMem _ _ _ _ _ _
      (Set.disjoint_left.mp (entries_disjoint same) inside)

theorem memset_eq (bufptr : UInt32) (value : UInt8) (size : UInt32) (mem : Bytes) :
    memset bufptr value size mem = mem.write bufptr (List.replicate size.toNat value) := by
  rw [memset, Lib.memset_run]
  rfl

/-- Cleared memory is the table without gates. -/
theorem TableAt.cleared (idt : UInt32) (mem : Bytes) :
    TableAt idt (mem.write idt (List.replicate 2048 0)) fun _ => ⟨0, 0, 0, 0, 0⟩ := by
  intro vector
  have wide := vector.toNat_lt
  have place : idt + 8 * vector.toUInt32 = idt + UInt32.ofNat (8 * vector.toNat) := by
    rw [← toNat_entry, UInt32.ofNat_toNat]
  rw [place, Bytes.read_write_part _ (by rw [List.length_replicate]; omega)
    (by rw [List.length_replicate]; decide), List.drop_replicate, List.take_replicate]
  have eight : min 8 (2048 - 8 * vector.toNat) = 8 := by omega
  have zero : List.replicate 8 0 = entryBytes ⟨0, 0, 0, 0, 0⟩ := by decide
  rw [eight]
  exact zero

/-- Setting gates in turn, in memory and in the table. -/
theorem TableAt.setGates (address : Interrupts.Stub → UInt32) (set : List Interrupts.Stub)
    (holds : TableAt idt mem table) :
    TableAt idt
      (set.foldl (fun mem stub => idtSetGate idt stub.vector (address stub) 0x08 0x8E mem) mem)
      (set.foldl (fun table stub =>
        Interrupts.idtSetGate stub.vector (address stub) 0x08 0x8E table) table) := by
  induction set generalizing mem table with
  | nil => exact holds
  | cons stub set ih => exact ih holds.setGate

theorem setGates_of_notMem (address : Interrupts.Stub → UInt32) (set : List Interrupts.Stub)
    {place : UInt32} (outside : place ∉ Span idt 2048) :
    set.foldl (fun mem stub => idtSetGate idt stub.vector (address stub) 0x08 0x8E mem) mem place =
      mem place := by
  induction set generalizing mem with
  | nil => rfl
  | cons stub set ih =>
      exact ih.trans (idtSetGate_of_notMem _ _ _ _ _ _ fun inside =>
        outside (entry_subset _ inside))

end Entries

section FillIdt

variable (linked : Linked) (mem : Bytes)

/-- The memory when `init_idt` starts to set gates. -/
theorem clearedIdt_eq :
    memset linked.idt 0 (8 * 256)
        ((mem.store16 linked.idtPtr (8 * 256)).store32 (linked.idtPtr + 2) linked.idt) =
      (mem.write linked.idtPtr (TableRegister.pseudoBytes ⟨2048, linked.idt⟩)).write linked.idt
        (List.replicate 2048 0) := by
  have pointer : (mem.store16 linked.idtPtr (8 * 256)).store32 (linked.idtPtr + 2) linked.idt =
      mem.write linked.idtPtr (TableRegister.pseudoBytes ⟨2048, linked.idt⟩) :=
    Bytes.write_append (by simp)
  rw [pointer, memset_eq]
  rfl

theorem fillIdt_table :
    TableAt linked.idt (fillIdt linked mem) (Interrupts.initIdt linked.image.address) := by
  have cleared := TableAt.cleared linked.idt
    (mem.write linked.idtPtr (TableRegister.pseudoBytes ⟨2048, linked.idt⟩))
  rw [← clearedIdt_eq] at cleared
  exact cleared.setGates linked.image.address Interrupts.stubs

theorem fillIdt_of_notTable {address : UInt32} (notTable : address ∉ Span linked.idt 2048) :
    fillIdt linked mem address =
      mem.write linked.idtPtr (TableRegister.pseudoBytes ⟨2048, linked.idt⟩) address := by
  have kept : ∀ mem' : Bytes,
      mem'.write linked.idt (List.replicate 2048 0) address = mem' address :=
    fun _ => Bytes.write_replicate_of_notMem notTable
  have cleared := (congrFun (clearedIdt_eq linked mem) address).trans (kept _)
  rw [fillIdt, setGates_of_notMem linked.image.address Interrupts.stubs notTable]
  exact cleared

theorem fillIdt_pointer :
    (fillIdt linked mem).read linked.idtPtr 6 = TableRegister.pseudoBytes ⟨2048, linked.idt⟩ := by
  have same := Bytes.read_congr fun address inside =>
    fillIdt_of_notTable linked mem (Set.disjoint_left.mp linked.idt_apart inside)
  rw [same]
  exact Bytes.read_write_same (by simp [TableRegister.pseudoBytes])

theorem fillIdt_of_notMem {address : UInt32} (notPointer : address ∉ Span linked.idtPtr 6)
    (notTable : address ∉ Span linked.idt 2048) : fillIdt linked mem address = mem address := by
  rw [fillIdt_of_notTable linked mem notTable, Bytes.write_of_notMem notPointer]

end FillIdt

/-- The processor with the segments and the interrupt gates of the kernel. -/
structure Installed (linked : Linked) (s : Segmented) : Prop where
  segments : KernelSegments linked s
  idtr : s.idtr = ⟨2048, linked.idt⟩
  gates : TableAt linked.idt s.cpu.mem (Interrupts.initIdt linked.image.address)

section InitIdt

variable {linked : Linked} {s : Segmented} {low : Nat}

/-- What `idt_flush` leaves. -/
def gatesLoaded (linked : Linked) (s : Segmented) : Segmented :=
  { s with
    idtr := ⟨2048, linked.idt⟩
    cpu := (s.cpu.setGeneral .eax linked.idtPtr).ret }

/-- `idt_flush`, called with a pointer to a pseudo-descriptor of the table. -/
theorem idtFlush_run (flat : s.FlatSegments) (room : Room low 0 8 s.cpu)
    (argument : s.cpu.mem.load32 (s.cpu.general .esp + 4) = linked.idtPtr)
    (pointer : s.cpu.mem.read linked.idtPtr 6 = TableRegister.pseudoBytes ⟨2048, linked.idt⟩) :
    s.executeSystem idtFlush = .ok (gatesLoaded linked s) := by
  have argumentLoaded : s.step (.load .eax .esp 4) =
      .ok { s with cpu := s.cpu.setGeneral .eax linked.idtPtr } := by
    rw [Segmented.step_loadWord flat room .eax (by decide), Cpu.step, argument]
  have eax : (s.cpu.setGeneral .eax linked.idtPtr).general .eax = linked.idtPtr := by
    simp [Cpu.setGeneral]
  have flatThere : Segmented.FlatSegments
      { s with cpu := s.cpu.setGeneral .eax linked.idtPtr } := flat
  have tableRead : Segmented.readTable .eax { s with cpu := s.cpu.setGeneral .eax linked.idtPtr } =
      .ok ⟨2048, linked.idt⟩ := by
    refine Segmented.readTable_flat flatThere ?_ ?_
    · rw [eax]
      exact linked.idtPtr_fits
    · rw [eax]
      exact pointer
  have returnFlat : Segmented.FlatSegments { s with
      idtr := ⟨2048, linked.idt⟩
      cpu := s.cpu.setGeneral .eax linked.idtPtr } := flat
  have returnRoom : Room low 0 8 (s.cpu.setGeneral .eax linked.idtPtr) := ⟨room.esp, room.fits⟩
  simp only [idtFlush, Segmented.executeSystem, List.foldlM_cons, List.foldlM_nil,
    Segmented.stepSystem, argumentLoaded, tableRead, Segmented.ok_bind]
  rw [Segmented.step_flat returnFlat returnRoom rfl (by decide) (by decide)]
  rfl

/-- `idt_flush` leaves the registers but `eax` alone. -/
theorem gatesLoaded_returns (linked : Linked) (s : Segmented) :
    Returns s (gatesLoaded linked s) where
  eip := by simp [gatesLoaded, Cpu.ret, Cpu.top, Cpu.setGeneral]
  eflags := rfl
  esp := by simp [gatesLoaded, Cpu.ret, Cpu.setGeneral]
  general := fun register notEax notEsp => by
    simp [gatesLoaded, Cpu.ret, Cpu.setGeneral, notEax, notEsp]

/-- The call of `idt_flush`, where the gates and their pseudo-descriptor are in memory. -/
theorem callIdtFlush_run (segments : KernelSegments linked s) (room : Room low 8 0 s.cpu)
    (pointerApart : Disjoint (Span (UInt32.ofNat low) 8) (Span linked.idtPtr 6))
    (gatesApart : Disjoint (Span (UInt32.ofNat low) 8) (Span linked.idt 2048))
    (tableApart : Disjoint (Span (UInt32.ofNat low) 8) (Span linked.gdtEntries 40))
    (pointer : s.cpu.mem.read linked.idtPtr 6 = TableRegister.pseudoBytes ⟨2048, linked.idt⟩)
    (gates : TableAt linked.idt s.cpu.mem (Interrupts.initIdt linked.image.address)) :
    ∃ after, call idtFlush linked.idtPtr linked.idtFlushed s = .ok after ∧ Installed linked after ∧
      after.cpu.eip = linked.idtFlushed ∧ after.cpu.eflags = s.cpu.eflags ∧
      (∀ register ≠ .eax, after.cpu.general register = s.cpu.general register) ∧
      ∀ address, address ∉ Span (UInt32.ofNat low) 8 →
        after.cpu.mem address = s.cpu.mem address := by
  have stack := callee_stack linked.idtPtr linked.idtFlushed s
  have kept : ∀ address, address ∉ Span (UInt32.ofNat low) 8 →
      (callee linked.idtPtr linked.idtFlushed s).cpu.mem address = s.cpu.mem address :=
    fun _ => callee_of_notMem _ _ room
  have pointerThere := (Bytes.read_congr fun address inside =>
    kept address (Set.disjoint_right.mp pointerApart inside)).trans pointer
  have calleeFlat : (callee linked.idtPtr linked.idtFlushed s).FlatSegments := segments.flat
  have runs := idtFlush_run calleeFlat (callee_room _ _ room) stack.2.1 pointerThere
  obtain ⟨eip, eflags, general⟩ :=
    (gatesLoaded_returns linked (callee linked.idtPtr linked.idtFlushed s)).resumed
  refine ⟨_, call_run _ _ segments.flat room runs, ⟨?_, rfl, fun vector => ?_⟩, eip, eflags,
    general, kept⟩
  · exact segments.congr rfl rfl rfl rfl rfl fun address inside =>
      kept address (Set.disjoint_right.mp tableApart inside)
  · exact (Bytes.read_congr fun address inside => kept address (Set.disjoint_right.mp gatesApart
      (entry_subset vector inside))).trans (gates vector)

/-- In the segments of the kernel `init_idt` installs the gates without a fault and returns to
its caller. -/
theorem initIdt_run (segments : KernelSegments linked s) (room : Room low 8 0 s.cpu)
    (pointerApart : Disjoint (Span (UInt32.ofNat low) 8) (Span linked.idtPtr 6))
    (gatesApart : Disjoint (Span (UInt32.ofNat low) 8) (Span linked.idt 2048))
    (tableApart : Disjoint (Span (UInt32.ofNat low) 8) (Span linked.gdtEntries 40)) :
    ∃ after, initIdt linked s = .ok after ∧ Installed linked after ∧
      after.cpu.eip = linked.idtFlushed ∧ after.cpu.eflags = s.cpu.eflags ∧
      (∀ register ≠ .eax, after.cpu.general register = s.cpu.general register) ∧
      ∀ address, address ∉ Span linked.idtPtr 6 → address ∉ Span linked.idt 2048 →
        address ∉ Span (UInt32.ofNat low) 8 → after.cpu.mem address = s.cpu.mem address := by
  have filled : KernelSegments linked (s.withMem (fillIdt linked s.cpu.mem)) :=
    segments.congr rfl rfl rfl rfl rfl fun address inside => fillIdt_of_notMem linked _
      (Set.disjoint_right.mp linked.idtPtr_apart inside)
      (Set.disjoint_right.mp linked.tables_apart inside)
  obtain ⟨after, runs, installed, eip, eflags, general, outside⟩ :=
    callIdtFlush_run filled ⟨room.esp, room.fits⟩ pointerApart gatesApart tableApart
      (fillIdt_pointer linked _) (fillIdt_table linked _)
  refine ⟨after, runs, installed, eip, eflags, general, ?_⟩
  intro address notPointer notTable notStack
  exact (outside address notStack).trans (fillIdt_of_notMem linked _ notPointer notTable)

end InitIdt

end TorchOS.Descriptors
