import TorchOS.Base.Flat
import TorchOS.Interrupts

/-!
# The segments of the kernel

`init_gdt` fills a table of segments and loads it with `gdt_flush`. The entries are packed
structs that are stored field by field, and the processor reads eight bytes. Whatever flat
segments the boot loader left, the processor is then in those of the kernel.
-/

namespace TorchOS.Descriptors

open Base

/-! ## `gdt.c` -/

def segCodePl0 : UInt32 := 0x9A
def segDataPl0 : UInt32 := 0x92
def segCodePl3 : UInt32 := 0xFA
def segDataPl3 : UInt32 := 0xF2

/-- Where the tables, their pseudo-descriptors and the stubs are linked, and where the code
goes on after the far jump of `gdt_flush` and after the calls of the two routines. The
tables and pseudo-descriptors are distinct objects. -/
structure Linked where
  gdtPtr : UInt32
  gdtEntries : UInt32
  idtPtr : UInt32
  idt : UInt32
  image : Interrupts.Image
  flush : UInt32
  gdtFlushed : UInt32
  idtFlushed : UInt32
  gdtPtr_fits : gdtPtr.toNat + 6 ≤ 2 ^ 32
  idtPtr_fits : idtPtr.toNat + 6 ≤ 2 ^ 32
  gdt_apart : Disjoint (Span gdtPtr 6) (Span gdtEntries 40)
  idt_apart : Disjoint (Span idtPtr 6) (Span idt 2048)
  idtPtr_apart : Disjoint (Span idtPtr 6) (Span gdtEntries 40)
  tables_apart : Disjoint (Span idt 2048) (Span gdtEntries 40)

/-- `gdt_set_gate` -/
def gdtSetGate (gdtEntries : UInt32) (num : Int32) (base limit access granularity : UInt32)
    (mem : Bytes) : Bytes :=
  let entry := gdtEntries + 8 * num.toUInt32
  let mem := mem.store16 (entry + 2) (base &&& 0xFFFF).toUInt16
  let mem := mem.store8 (entry + 4) ((base >>> 16) &&& 0xFF).toUInt8
  let mem := mem.store8 (entry + 7) ((base >>> 24) &&& 0xFF).toUInt8
  let mem := mem.store16 (entry + 0) (limit &&& 0xFFFF).toUInt16
  let mem := mem.store8 (entry + 6) ((limit >>> 16) &&& 0x0F).toUInt8
  let mem := mem.store8 (entry + 6) ((mem (entry + 6)).toUInt32 ||| (granularity &&& 0xF0)).toUInt8
  mem.store8 (entry + 5) access.toUInt8

/-- What `init_gdt` stores. -/
def fillGdt (linked : Linked) (mem : Bytes) : Bytes :=
  let mem := mem.store16 linked.gdtPtr (8 * 5 - 1)
  let mem := mem.store32 (linked.gdtPtr + 2) linked.gdtEntries
  let mem := gdtSetGate linked.gdtEntries 0 0 0 0 0 mem
  let mem := gdtSetGate linked.gdtEntries 1 0 0xFFFFFFFF segCodePl0 0xCF mem
  let mem := gdtSetGate linked.gdtEntries 2 0 0xFFFFFFFF segDataPl0 0xCF mem
  let mem := gdtSetGate linked.gdtEntries 3 0 0xFFFFFFFF segCodePl3 0xCF mem
  gdtSetGate linked.gdtEntries 4 0 0xFFFFFFFF segDataPl3 0xCF mem

/-! ## `utility.asm` -/

/-- `gdt_flush` -/
def gdtFlush (flush : UInt32) : List SystemInstruction :=
  [.ordinary (.load .eax .esp 4),
   .lgdt .eax,
   .ordinary (.setLow .eax 0x10),
   .ordinary (.writeSegment .ds .eax), .ordinary (.writeSegment .es .eax),
   .ordinary (.writeSegment .fs .eax), .ordinary (.writeSegment .gs .eax),
   .writeStack .eax,
   .jumpFar 0x08 flush,
   .ordinary .ret]

/-- A call from C: the argument and the return address are pushed, and the caller takes the
argument off again. -/
def call (routine : List SystemInstruction) (argument returnAddress : UInt32) (s : Segmented) :
    Except Fault Segmented := do
  let called ← s.pushes [argument, returnAddress]
  let returned ← called.executeSystem routine
  .ok { returned with
    cpu := returned.cpu.setGeneral .esp (returned.cpu.general .esp + 4) }

/-- `init_gdt` -/
def initGdt (linked : Linked) (s : Segmented) : Except Fault Segmented :=
  call (gdtFlush linked.flush) linked.gdtPtr linked.gdtFlushed
    (s.withMem (fillGdt linked s.cpu.mem))

/-! ## The format of an entry -/

/-- The bytes of a gate. -/
def gateBytes (base limit access granularity : UInt32) : List UInt8 :=
  [limit.toUInt8, (limit >>> 8).toUInt8, base.toUInt8, (base >>> 8).toUInt8,
    (base >>> 16).toUInt8, access.toUInt8,
    (((limit >>> 16) &&& 0x0F) ||| (granularity &&& 0xF0)).toUInt8, (base >>> 24).toUInt8]

section Fields

variable (value : UInt32)

theorem toNat_low : (value &&& 0xFFFF).toUInt16.toNat = value.toNat % 65536 := by
  have low := Word.toNat_low_half value
  rwa [UInt16.toNat_toUInt32] at low

theorem low_first : (value &&& 0xFFFF).toUInt16.toUInt8 = value.toUInt8 := by
  rw [← UInt8.toNat_inj, UInt16.toNat_toUInt8, toNat_low, UInt32.toNat_toUInt8]
  omega

theorem low_second : ((value &&& 0xFFFF).toUInt16 >>> 8).toUInt8 = (value >>> 8).toUInt8 := by
  have eight : (8 : UInt16).toNat % 16 = 8 := rfl
  have eight' : (8 : UInt32).toNat % 32 = 8 := rfl
  rw [← UInt8.toNat_inj, UInt16.toNat_toUInt8, UInt16.toNat_shiftRight, toNat_low,
    UInt32.toNat_toUInt8, UInt32.toNat_shiftRight, eight, eight', Nat.shiftRight_eq_div_pow,
    Nat.shiftRight_eq_div_pow]
  omega

theorem low_byte : (value &&& 0xFF).toUInt8 = value.toUInt8 := by
  rw [UInt32.toUInt8_and]
  exact UInt8.and_neg_one

theorem low_nibble : (value &&& 0x0F).toUInt8.toUInt32 = value &&& 0x0F := by
  have masked := Nat.and_two_pow_sub_one_eq_mod value.toNat 4
  have four : (value &&& 0x0F).toNat = value.toNat % 16 := by
    rw [UInt32.toNat_and]
    exact masked
  rw [← UInt32.toNat_inj, UInt8.toNat_toUInt32, UInt32.toNat_toUInt8, four]
  omega

end Fields

section SetGate

variable (gdtEntries : UInt32) (num : Int32) (base limit access granularity : UInt32) (mem : Bytes)

/-- The fields end up in the bytes where the processor looks for them. -/
theorem gdtSetGate_read :
    (gdtSetGate gdtEntries num base limit access granularity mem).read
      (gdtEntries + 8 * num.toUInt32) 8 = gateBytes base limit access granularity := by
  generalize place : gdtEntries + 8 * num.toUInt32 = entry
  simp only [gdtSetGate, place]
  generalize bytes : mem.read entry 8 = before
  have eight : before.length = 8 := by rw [← bytes, Bytes.length_read]
  match before, eight with
  | [b0, b1, b2, b3, b4, b5, b6, b7], _ =>
    simp (disch := decide) only [Bytes.read_store8, Bytes.read_store16, bytes, Bytes.ofHalf,
      low_first, low_second, low_byte, low_nibble, Bytes.store8_same]
    simp [gateBytes]

theorem gdtSetGate_of_notMem {address : UInt32}
    (outside : address ∉ Span (gdtEntries + 8 * num.toUInt32) 8) :
    gdtSetGate gdtEntries num base limit access granularity mem address = mem address := by
  simp only [gdtSetGate]
  rw [Bytes.store8_of_notMem 5 (by decide) outside, Bytes.store8_of_notMem 6 (by decide) outside,
    Bytes.store8_of_notMem 6 (by decide) outside, Bytes.store16_of_notMem 0 (by decide) outside,
    Bytes.store8_of_notMem 7 (by decide) outside, Bytes.store8_of_notMem 4 (by decide) outside,
    Bytes.store16_of_notMem 2 (by decide) outside]

/-- So a gate is one store of eight bytes. -/
theorem gdtSetGate_eq :
    gdtSetGate gdtEntries num base limit access granularity mem =
      mem.write (gdtEntries + 8 * num.toUInt32) (gateBytes base limit access granularity) :=
  Bytes.eq_write (gdtSetGate_read gdtEntries num base limit access granularity mem)
    fun _ outside => gdtSetGate_of_notMem gdtEntries num base limit access granularity mem outside

/-- The processor reads the fields back, and of the limit the low twenty bits. -/
theorem ofBytes_gateBytes :
    Descriptor.ofBytes (gateBytes base limit access granularity) =
      ⟨base, limit &&& 0xFFFFF, access.toUInt8, granularity.toUInt8 &&& 0xF0⟩ := by
  have mixed : (((limit >>> 16) &&& 0x0F) ||| (granularity &&& 0xF0)).toUInt8 =
      ((limit >>> 16).toUInt8 &&& 0x0F) ||| (granularity.toUInt8 &&& 0xF0) := by simp
  have flags : ∀ a g : UInt8, ((a &&& 0x0F) ||| (g &&& 0xF0)) &&& 0xF0 = g &&& 0xF0 := by
    intro a g
    rw [← UInt8.toBitVec_inj]
    simp [BitVec.and_or_distrib_right, BitVec.and_assoc]
  have nibble : ∀ a g : UInt8, ((a &&& 0x0F) ||| (g &&& 0xF0)) &&& 0x0F = a &&& 0x0F := by
    intro a g
    rw [← UInt8.toBitVec_inj]
    simp [BitVec.and_or_distrib_right, BitVec.and_assoc]
  have limited : Bytes.toWord [limit.toUInt8, (limit >>> 8).toUInt8,
      (limit >>> 16).toUInt8 &&& 0x0F] = limit &&& 0xFFFFF := by
    have low := Nat.and_two_pow_sub_one_eq_mod limit.toNat 20
    have high := Nat.and_two_pow_sub_one_eq_mod (limit.toNat / 65536 % 256) 4
    norm_num at low high
    rw [← UInt32.toNat_inj]
    simp only [Bytes.toWord, List.foldr, UInt32.toNat_ofNat', UInt32.toNat_toUInt8, UInt8.toNat_and,
      UInt32.toNat_and, UInt32.toNat_shiftRight, UInt32.reduceToNat, UInt8.reduceToNat,
      Nat.shiftRight_eq_div_pow, Nat.reduceMod, Nat.reducePow, low, high]
    omega
  simp only [gateBytes, mixed, Descriptor.ofBytes, flags, nibble, limited]
  congr 1
  exact Bytes.toWord_ofWord base

/-- A segment ends at the limit it was made with if that fits twenty bits; one whose limit
counts pages only does if it covers all of memory, as the low bits of the limit are kept. -/
theorem lastOffset_eq_iff :
    (Descriptor.ofBytes (gateBytes base limit access granularity)).lastOffset = limit ↔
      if granularity.toUInt8 &&& 0x80 = 0 then limit ≤ 0xFFFFF else limit = 0xFFFFFFFF := by
  have wide := limit.toNat_lt
  have low : (limit &&& 0xFFFFF).toNat = limit.toNat % 1048576 := by
    rw [UInt32.toNat_and]
    exact Nat.and_two_pow_sub_one_eq_mod limit.toNat 20
  have page : (granularity.toUInt8 &&& 0xF0) &&& 0x80 = granularity.toUInt8 &&& 0x80 := by
    rw [UInt8.and_assoc]
    rfl
  rw [ofBytes_gateBytes, Descriptor.lastOffset, Descriptor.inPages, page]
  by_cases bytes : granularity.toUInt8 &&& 0x80 = 0
  · simp only [bytes, ne_eq, not_true_eq_false, decide_false, if_true, if_false,
      Bool.false_eq_true, ← UInt32.toNat_inj, UInt32.le_iff_toNat_le, low, UInt32.reduceToNat]
    omega
  · have shifted : ((limit &&& 0xFFFFF) <<< 12).toNat = limit.toNat % 1048576 * 4096 := by
      have twelve : (12 : UInt32).toNat % 32 = 12 := rfl
      rw [UInt32.toNat_shiftLeft, low, twelve, Nat.shiftLeft_eq]
      omega
    have last : (((limit &&& 0xFFFFF) <<< 12) ||| 0xFFF).toNat =
        limit.toNat % 1048576 * 4096 + 4095 := by
      rw [Word.toNat_or_low 12 (by omega) (by decide), shifted]
      rfl
    simp only [bytes, ne_eq, not_false_eq_true, decide_true, if_true, if_false, ← UInt32.toNat_inj,
      last, UInt32.reduceToNat]
    omega

/-- What the processor reads in the entry that `gdt_set_gate` fills in. -/
theorem gdtSetGate_descriptor :
    let entry := gdtEntries + 8 * num.toUInt32
    let mem' := gdtSetGate gdtEntries num base limit access granularity mem
    let d := Descriptor.ofBytes (mem'.read entry 8)
    d.base = base ∧ d.access = access.toUInt8 ∧ d.flags = granularity.toUInt8 &&& 0xF0 ∧
      (d.lastOffset = limit ↔
        if granularity.toUInt8 &&& 0x80 = 0 then limit ≤ 0xFFFFF else limit = 0xFFFFFFFF) ∧
      ∀ address, address ∉ Span entry 8 → mem' address = mem address := by
  intro entry mem' d
  have bytes : d = Descriptor.ofBytes (gateBytes base limit access granularity) :=
    congrArg Descriptor.ofBytes (gdtSetGate_read ..)
  refine ⟨?_, ?_, ?_, ?_, fun address outside => gdtSetGate_of_notMem _ _ _ _ _ _ _ outside⟩
  · rw [bytes, ofBytes_gateBytes]
  · rw [bytes, ofBytes_gateBytes]
  · rw [bytes, ofBytes_gateBytes]
  · rw [bytes]
    exact lastOffset_eq_iff base limit access granularity

end SetGate

/-! ## The table of segments -/

/-- A segment over all of memory. -/
def wholeMemory (access : UInt8) : Descriptor := ⟨0, 0xFFFFF, access, 0xC0⟩

/-- The bytes of such a segment. -/
def wholeBytes (access : UInt8) : List UInt8 := [0xFF, 0xFF, 0, 0, 0, access, 0xCF, 0]

/-- The bytes of the table, with the access bytes of the kernel's code and data. -/
def gdtBytes (code data : UInt8) : List UInt8 :=
  List.replicate 8 0 ++ wholeBytes code ++ wholeBytes data ++ wholeBytes 0xFA ++ wholeBytes 0xF2

theorem fillGdt_eq (linked : Linked) (mem : Bytes) :
    fillGdt linked mem =
      (mem.write linked.gdtPtr (TableRegister.pseudoBytes ⟨39, linked.gdtEntries⟩)).write
        linked.gdtEntries (gdtBytes 0x9A 0x92) := by
  have pointer :
      (mem.store16 linked.gdtPtr (8 * 5 - 1)).store32 (linked.gdtPtr + 2) linked.gdtEntries =
        mem.write linked.gdtPtr (TableRegister.pseudoBytes ⟨39, linked.gdtEntries⟩) :=
    Bytes.write_append (by simp)
  have append : ∀ (mem : Bytes) (first second : List UInt8) (offset : UInt32),
      offset = UInt32.ofNat first.length → first.length + second.length ≤ 2 ^ 32 →
      (mem.write linked.gdtEntries first).write (linked.gdtEntries + offset) second =
        mem.write linked.gdtEntries (first ++ second) := by
    intro mem first second offset place fits
    rw [place, Bytes.write_append fits]
  have start : linked.gdtEntries + 8 * (0 : Int32).toUInt32 = linked.gdtEntries := by
    have first : 8 * (0 : Int32).toUInt32 = 0 := by decide
    rw [first, UInt32.add_zero]
  simp only [fillGdt, pointer, gdtSetGate_eq, start]
  rw [append _ _ _ _ (by decide) (by decide), append _ _ _ _ (by decide) (by decide),
    append _ _ _ _ (by decide) (by decide), append _ _ _ _ (by decide) (by decide)]
  rfl

/-- The table is in memory and in use. -/
structure Loaded (linked : Linked) (code data : UInt8) (s : Segmented) : Prop where
  gdtr : s.gdtr = ⟨39, linked.gdtEntries⟩
  table : s.cpu.mem.read linked.gdtEntries 40 = gdtBytes code data

namespace Loaded

variable {linked : Linked} {code data : UInt8} {s : Segmented}

/-- The entries of the table. -/
theorem bytes (loaded : Loaded linked code data s) {index : Nat} (inside : index < 5) :
    s.gdtr.bytes index s.cpu.mem = ((gdtBytes code data).drop (8 * index)).take 8 := by
  rw [loaded.gdtr, TableRegister.bytes, TableRegister.entry, ← loaded.table]
  exact Bytes.read_part (by omega)

theorem lookup_code (loaded : Loaded linked code data s) :
    s.lookup 0x08 = .ok (wholeMemory code) := by
  have holds : s.gdtr.holds (selectorIndex 0x08) := by rw [loaded.gdtr]; rfl
  have entry := loaded.bytes (show selectorIndex 0x08 < 5 by decide)
  rw [Segmented.lookup, if_neg (by decide), if_pos holds, entry]
  rfl

theorem lookup_data (loaded : Loaded linked code data s) :
    s.lookup 0x10 = .ok (wholeMemory data) := by
  have holds : s.gdtr.holds (selectorIndex 0x10) := by rw [loaded.gdtr]; rfl
  have entry := loaded.bytes (show selectorIndex 0x10 < 5 by decide)
  rw [Segmented.lookup, if_neg (by decide), if_pos holds, entry]
  rfl

theorem access_data (loaded : Loaded linked code data s) :
    s.gdtr.entry (selectorIndex 0x10) + 5 = linked.gdtEntries + 21 := by
  rw [loaded.gdtr, TableRegister.entry, UInt32.add_assoc]
  rfl

theorem access_code (loaded : Loaded linked code data s) :
    s.gdtr.entry (selectorIndex 0x08) + 5 = linked.gdtEntries + 13 := by
  rw [loaded.gdtr, TableRegister.entry, UInt32.add_assoc]
  rfl

/-- Loading the data segment marks it. -/
theorem take_data (loaded : Loaded linked code data s) (register : SegmentRegister) :
    Loaded linked code (data ||| 1) (s.take register 0x10 (wholeMemory data)) := by
  refine ⟨by simp [loaded.gdtr], ?_⟩
  rw [Segmented.take_mem, loaded.access_data, Bytes.read_store8 21 (by decide) (by decide),
    loaded.table]
  rfl

theorem take_code (loaded : Loaded linked code data s) (register : SegmentRegister) :
    Loaded linked (code ||| 1) data (s.take register 0x08 (wholeMemory code)) := by
  refine ⟨by simp [loaded.gdtr], ?_⟩
  rw [Segmented.take_mem, loaded.access_code, Bytes.read_store8 13 (by decide) (by decide),
    loaded.table]
  rfl

/-- Once is enough. -/
theorem take_marked (loaded : Loaded linked code 0x93 s) (register : SegmentRegister) :
    Loaded linked code 0x93 (s.take register 0x10 (wholeMemory 0x93)) :=
  loaded.take_data register

end Loaded

/-- Every segment register for data takes the data segment of the kernel. -/
def dataReloaded (s : Segmented) : Segmented :=
  let s := s.take (.data .ds) 0x10 (wholeMemory 0x92)
  let s := s.take (.data .es) 0x10 (wholeMemory 0x93)
  let s := s.take (.data .fs) 0x10 (wholeMemory 0x93)
  let s := s.take (.data .gs) 0x10 (wholeMemory 0x93)
  s.take .ss 0x10 (wholeMemory 0x93)

/-- And then `cs` takes the code segment. -/
def reloaded (flush : UInt32) (s : Segmented) : Segmented :=
  Segmented.take .cs 0x08 (wholeMemory 0x9A)
    { dataReloaded s with cpu := { (dataReloaded s).cpu with eip := flush } }

/-- The processor when `gdt_flush` starts to load the segment registers. -/
def atTable (linked : Linked) (s : Segmented) : Segmented :=
  { s with
    gdtr := ⟨39, linked.gdtEntries⟩
    cpu := (s.cpu.setGeneral .eax linked.gdtPtr).setLow .eax 0x10 }

/-- What `gdt_flush` leaves. -/
def flushed (linked : Linked) (flush : UInt32) (s : Segmented) : Segmented :=
  let s := reloaded flush (atTable linked s)
  { s with cpu := s.cpu.ret }

section Reload

variable {linked : Linked} {s : Segmented} {low : Nat}

theorem flat_wholeMemory {access : UInt8} (present : access ∈ [0x92, 0x93, 0x9A, 0x9B]) :
    (wholeMemory access).Flat := by
  simp only [List.mem_cons, List.not_mem_nil, or_false] at present
  obtain rfl | rfl | rfl | rfl := present <;> decide

theorem dataReloaded_loaded (loaded : Loaded linked 0x9A 0x92 s) :
    Loaded linked 0x9A 0x93 (dataReloaded s) := by
  have first : Loaded linked 0x9A 0x93 (s.take (.data .ds) 0x10 (wholeMemory 0x92)) :=
    loaded.take_data _
  exact (((first.take_marked (.data .es)).take_marked (.data .fs)).take_marked
    (.data .gs)).take_marked .ss

theorem reloaded_loaded (loaded : Loaded linked 0x9A 0x92 s) (flush : UInt32) :
    Loaded linked 0x9B 0x93 (reloaded flush s) := by
  have before := dataReloaded_loaded loaded
  have jumping : Loaded linked 0x9A 0x93
      { dataReloaded s with cpu := { (dataReloaded s).cpu with eip := flush } } :=
    ⟨before.gdtr, before.table⟩
  exact jumping.take_code .cs

/-- The middle of `gdt_flush`. -/
theorem reloaded_run (loaded : Loaded linked 0x9A 0x92 s)
    (selector : (s.cpu.general .eax).toUInt16 = 0x10) (flush : UInt32) :
    s.executeSystem [.ordinary (.writeSegment .ds .eax), .ordinary (.writeSegment .es .eax),
      .ordinary (.writeSegment .fs .eax), .ordinary (.writeSegment .gs .eax), .writeStack .eax,
      .jumpFar 0x08 flush] = .ok (reloaded flush s) := by
  have fresh : (wholeMemory 0x92).Flat := flat_wholeMemory (by decide)
  have marked : (wholeMemory 0x93).Flat := flat_wholeMemory (by decide)
  have code : (wholeMemory 0x9A).Flat := flat_wholeMemory (by decide)
  have ds : Loaded linked 0x9A 0x93 (s.take (.data .ds) 0x10 (wholeMemory 0x92)) :=
    loaded.take_data _
  have es := ds.take_marked (.data .es)
  have fs := es.take_marked (.data .fs)
  have gs := fs.take_marked (.data .gs)
  have ss := gs.take_marked .ss
  simp only [Segmented.executeSystem, List.foldlM_cons, List.foldlM_nil, Segmented.stepSystem,
    Segmented.step, Segmented.take_general, selector, Segmented.ok_bind,
    Segmented.loadData_flat loaded.lookup_data fresh rfl rfl,
    Segmented.loadData_flat ds.lookup_data marked rfl rfl,
    Segmented.loadData_flat es.lookup_data marked rfl rfl,
    Segmented.loadData_flat fs.lookup_data marked rfl rfl,
    Segmented.loadStack_flat gs.lookup_data marked rfl rfl rfl,
    Segmented.loadCode_flat ss.lookup_code code rfl rfl rfl]
  rfl

@[simp] theorem reloaded_general (flush : UInt32) :
    (reloaded flush s).cpu.general = s.cpu.general := by
  simp [reloaded, dataReloaded]

theorem atTable_general (s : Segmented) {register : Register} (other : register ≠ .eax) :
    (atTable linked s).cpu.general register = s.cpu.general register := by
  simp [atTable, Cpu.setLow, Cpu.setGeneral, other]

/-- The segments of the kernel. -/
theorem reloaded_cached (flush : UInt32) (register : SegmentRegister) :
    (reloaded flush s).cached register =
      some (wholeMemory (if register = .cs then 0x9B else 0x93)) := by
  rcases register with (_ | _ | _ | _) | _ | _ <;> simp [reloaded, dataReloaded] <;> rfl

theorem flat_of_cached (cached : ∀ register, s.cached register =
    some (wholeMemory (if register = .cs then 0x9B else 0x93))) : s.FlatSegments := by
  intro register
  refine ⟨_, cached register, ?_, ?_⟩
  · split
    · exact flat_wholeMemory (by decide)
    · exact flat_wholeMemory (by decide)
  · split
    · next isCode => rw [isCode]; rfl
    · next isData => rw [decide_eq_false isData]; rfl

/-- Nothing but the two access bytes changes in memory. -/
theorem reloaded_of_notMem (loaded : Loaded linked 0x9A 0x92 s) (flush : UInt32) {address : UInt32}
    (outside : address ∉ Span linked.gdtEntries 40) :
    (reloaded flush s).cpu.mem address = s.cpu.mem address := by
  simp only [reloaded, dataReloaded, Segmented.take_mem, Segmented.take_gdtr, loaded.access_data,
    loaded.access_code]
  simp only [Bytes.store8_of_notMem 13 (show 13 + 1 ≤ 40 by decide) outside,
    Bytes.store8_of_notMem 21 (show 21 + 1 ≤ 40 by decide) outside]

/-- `gdt_flush`, called with a pointer to a pseudo-descriptor of the table. -/
theorem gdtFlush_run (flat : s.FlatSegments) (room : Room low 0 8 s.cpu)
    (argument : s.cpu.mem.load32 (s.cpu.general .esp + 4) = linked.gdtPtr)
    (pointer : s.cpu.mem.read linked.gdtPtr 6 = TableRegister.pseudoBytes ⟨39, linked.gdtEntries⟩)
    (table : s.cpu.mem.read linked.gdtEntries 40 = gdtBytes 0x9A 0x92) (flush : UInt32) :
    s.executeSystem (gdtFlush flush) = .ok (flushed linked flush s) := by
  have argumentLoaded : s.step (.load .eax .esp 4) =
      .ok { s with cpu := s.cpu.setGeneral .eax linked.gdtPtr } := by
    rw [Segmented.step_loadWord flat room .eax (by decide), Cpu.step, argument]
  have tableRead : Segmented.readTable .eax { s with cpu := s.cpu.setGeneral .eax linked.gdtPtr } =
      .ok ⟨39, linked.gdtEntries⟩ := by
    have flatThere : Segmented.FlatSegments
        { s with cpu := s.cpu.setGeneral .eax linked.gdtPtr } := flat
    have eax : (s.cpu.setGeneral .eax linked.gdtPtr).general .eax = linked.gdtPtr := by
      simp [Cpu.setGeneral]
    refine Segmented.readTable_flat flatThere ?_ ?_
    · rw [eax]
      exact linked.gdtPtr_fits
    · rw [eax]
      exact pointer
  have opened : s.executeSystem [.ordinary (.load .eax .esp 4), .lgdt .eax,
      .ordinary (.setLow .eax 0x10)] = .ok (atTable linked s) := by
    simp only [Segmented.executeSystem, List.foldlM_cons, List.foldlM_nil, Segmented.stepSystem,
      argumentLoaded, tableRead, Segmented.ok_bind]
    have flatThere : Segmented.FlatSegments { s with
        gdtr := ⟨39, linked.gdtEntries⟩
        cpu := s.cpu.setGeneral .eax linked.gdtPtr } := flat
    have roomThere : Room low 0 8 (s.cpu.setGeneral .eax linked.gdtPtr) := ⟨room.esp, room.fits⟩
    rw [Segmented.step_flat flatThere roomThere rfl (by decide) (by decide)]
    rfl
  have loaded : Loaded linked 0x9A 0x92 (atTable linked s) := ⟨rfl, table⟩
  have selector : ((atTable linked s).cpu.general .eax).toUInt16 = 0x10 := by
    simp only [atTable, Cpu.setLow, Cpu.setGeneral, Function.update_self, Word.toUInt16_or_high]
  have roomThere : Room low 0 8 (reloaded flush (atTable linked s)).cpu := by
    refine ⟨?_, room.fits⟩
    rw [reloaded_general, atTable_general s (by decide)]
    exact room.esp
  have split : gdtFlush flush = [.ordinary (.load .eax .esp 4), .lgdt .eax,
      .ordinary (.setLow .eax 0x10)] ++ ([.ordinary (.writeSegment .ds .eax),
        .ordinary (.writeSegment .es .eax), .ordinary (.writeSegment .fs .eax),
        .ordinary (.writeSegment .gs .eax), .writeStack .eax, .jumpFar 0x08 flush] ++
      [.ordinary .ret]) := rfl
  rw [split, Segmented.executeSystem_append, opened, Segmented.ok_bind,
    Segmented.executeSystem_append, reloaded_run loaded selector flush, Segmented.ok_bind]
  simp only [Segmented.executeSystem, List.foldlM_cons, List.foldlM_nil, Segmented.stepSystem]
  have flatThere := flat_of_cached (reloaded_cached (s := atTable linked s) flush)
  rw [Segmented.step_flat flatThere roomThere rfl (by decide) (by decide)]
  rfl

end Reload

/-- The processor in the segments of the kernel. -/
structure KernelSegments (linked : Linked) (s : Segmented) : Prop where
  loaded : Loaded linked 0x9B 0x93 s
  cached : ∀ register, s.cached register =
    some (wholeMemory (if register = .cs then 0x9B else 0x93))
  segment : ∀ segment, s.cpu.segment segment = 0x10
  ss : s.ss = 0x10
  cs : s.cpu.cs = 0x08

/-- What a routine is called with. -/
def callee (argument returnAddress : UInt32) (s : Segmented) : Segmented :=
  { s with cpu := s.cpu.pushes [argument, returnAddress] }

/-- What the caller does after the routine. -/
def resumed (s : Segmented) : Segmented :=
  { s with cpu := s.cpu.setGeneral .esp (s.cpu.general .esp + 4) }

/-- A routine returns and leaves the registers but `eax` alone. -/
structure Returns (s after : Segmented) : Prop where
  eip : after.cpu.eip = s.cpu.top
  eflags : after.cpu.eflags = s.cpu.eflags
  esp : after.cpu.general .esp = s.cpu.general .esp + 4
  general : ∀ register, register ≠ .eax → register ≠ .esp →
    after.cpu.general register = s.cpu.general register

section Callee

variable (argument returnAddress : UInt32) {s : Segmented} {low : Nat}

theorem callee_room (room : Room low 8 0 s.cpu) :
    Room low 0 8 (callee argument returnAddress s).cpu := by
  have words : 4 * [argument, returnAddress].length ≤ 8 := by simp
  exact room.pushes words

theorem callee_of_notMem (room : Room low 8 0 s.cpu) {address : UInt32}
    (outside : address ∉ Span (UInt32.ofNat low) 8) :
    (callee argument returnAddress s).cpu.mem address = s.cpu.mem address := by
  have words : 4 * [argument, returnAddress].length ≤ 8 := by simp
  exact room.pushes_frame words outside

variable (s) in
theorem callee_stack :
    StackAt (callee argument returnAddress s).cpu.mem
      ((callee argument returnAddress s).cpu.general .esp) [returnAddress, argument] := by
  have first := (Pushed.nil s.cpu).push argument (by simp)
  exact (first.push returnAddress (by simp)).stack

variable (s) in
theorem callee_general {register : Register} (other : register ≠ .esp) :
    (callee argument returnAddress s).cpu.general register = s.cpu.general register :=
  s.cpu.pushes_other _ other

variable (s) in
theorem callee_esp :
    (callee argument returnAddress s).cpu.general .esp = s.cpu.general .esp - 8 :=
  s.cpu.pushes_esp _

theorem call_run (flat : s.FlatSegments) (room : Room low 8 0 s.cpu)
    {routine : List SystemInstruction} {returned : Segmented}
    (runs : (callee argument returnAddress s).executeSystem routine = .ok returned) :
    call routine argument returnAddress s = .ok (resumed returned) := by
  have words : 4 * [argument, returnAddress].length ≤ 8 := by simp
  rw [callee] at runs
  rw [call, Segmented.pushes_flat flat room words, Segmented.ok_bind, runs, Segmented.ok_bind]
  rfl

variable {argument returnAddress}

/-- To the caller it looks like a function. -/
theorem Returns.resumed {returned : Segmented}
    (returns : Returns (callee argument returnAddress s) returned) :
    (resumed returned).cpu.eip = returnAddress ∧ (resumed returned).cpu.eflags = s.cpu.eflags ∧
      ∀ register ≠ .eax, (resumed returned).cpu.general register = s.cpu.general register := by
  refine ⟨returns.eip.trans (callee_stack argument returnAddress s).1, returns.eflags,
    fun register notEax => ?_⟩
  by_cases isEsp : register = .esp
  · have up := returns.esp
    rw [callee_esp] at up
    simp only [isEsp, Descriptors.resumed, Cpu.setGeneral, Function.update_self]
    rw [up]
    grind
  · simp only [Descriptors.resumed, Cpu.setGeneral]
    rw [Function.update_of_ne isEsp, returns.general register notEax isEsp,
      callee_general _ _ s isEsp]

end Callee

namespace KernelSegments

variable {linked : Linked} {s : Segmented}

theorem flat (segments : KernelSegments linked s) : s.FlatSegments :=
  flat_of_cached segments.cached

/-- They stay when neither the segment registers nor the table change. -/
theorem congr (segments : KernelSegments linked s) {after : Segmented} (gdtr : after.gdtr = s.gdtr)
    (cached : after.cached = s.cached) (ss : after.ss = s.ss)
    (segment : after.cpu.segment = s.cpu.segment) (cs : after.cpu.cs = s.cpu.cs)
    (table : ∀ address ∈ Span linked.gdtEntries 40, after.cpu.mem address = s.cpu.mem address) :
    KernelSegments linked after where
  loaded := ⟨gdtr.trans segments.loaded.gdtr, (Bytes.read_congr table).trans segments.loaded.table⟩
  cached := fun register => (congrFun cached register).trans (segments.cached register)
  segment := fun register => (congrFun segment register).trans (segments.segment register)
  ss := ss.trans segments.ss
  cs := cs.trans segments.cs

end KernelSegments

section InitGdt

variable {linked : Linked} {s : Segmented} {low : Nat}

theorem flushed_of_notMem (loaded : Loaded linked 0x9A 0x92 (atTable linked s)) (flush : UInt32)
    {address : UInt32} (outside : address ∉ Span linked.gdtEntries 40) :
    (flushed linked flush s).cpu.mem address = s.cpu.mem address :=
  reloaded_of_notMem loaded flush outside

/-- `gdt_flush` leaves its stack alone. -/
theorem flushed_returns (loaded : Loaded linked 0x9A 0x92 (atTable linked s))
    (room : Room low 0 8 s.cpu)
    (apart : Disjoint (Span (UInt32.ofNat low) 8) (Span linked.gdtEntries 40)) (flush : UInt32) :
    Returns s (flushed linked flush s) := by
  have esp : (reloaded flush (atTable linked s)).cpu.general .esp = s.cpu.general .esp := by
    rw [reloaded_general, atTable_general s (by decide)]
  have start : s.cpu.general .esp = UInt32.ofNat low := by
    rw [← UInt32.ofNat_toNat (x := s.cpu.general .esp), room.esp]
    rfl
  constructor
  · have top : (reloaded flush (atTable linked s)).cpu.top = s.cpu.top := by
      rw [Cpu.top, Cpu.top, esp, start]
      exact Bytes.load32_congr fun address inside => reloaded_of_notMem loaded flush
        (Set.disjoint_left.mp apart (Span.mono (by decide) inside))
    exact top
  · simp [flushed, Cpu.ret, Cpu.setGeneral, reloaded, dataReloaded, atTable, Cpu.setLow]
  · simp only [flushed, Cpu.ret, Cpu.setGeneral, Function.update_self]
    rw [esp]
  · intro register notEax notEsp
    simp only [flushed, Cpu.ret, Cpu.setGeneral]
    rw [Function.update_of_ne notEsp, reloaded_general, atTable_general s notEax]

theorem flushed_segments (loaded : Loaded linked 0x9A 0x92 (atTable linked s)) (flush : UInt32) :
    KernelSegments linked (flushed linked flush s) := by
  have after := reloaded_loaded loaded flush
  constructor
  · exact ⟨after.gdtr, after.table⟩
  · exact reloaded_cached flush
  · intro segment
    cases segment <;> simp [flushed, reloaded, dataReloaded, Segmented.take,
      Segmented.setSelector, Cpu.ret, Cpu.setGeneral]
  · rfl
  · rfl

theorem fillGdt_of_notMem (mem : Bytes) {address : UInt32}
    (notPointer : address ∉ Span linked.gdtPtr 6) (notTable : address ∉ Span linked.gdtEntries 40) :
    fillGdt linked mem address = mem address := by
  rw [fillGdt_eq, Bytes.write_of_notMem notTable, Bytes.write_of_notMem notPointer]

theorem fillGdt_table (mem : Bytes) :
    (fillGdt linked mem).read linked.gdtEntries 40 = gdtBytes 0x9A 0x92 := by
  rw [fillGdt_eq]
  exact Bytes.read_write_same (by decide)

theorem fillGdt_pointer (mem : Bytes) :
    (fillGdt linked mem).read linked.gdtPtr 6 =
      TableRegister.pseudoBytes ⟨39, linked.gdtEntries⟩ := by
  rw [fillGdt_eq, Bytes.read_write_of_disjoint linked.gdt_apart]
  exact Bytes.read_write_same (by simp [TableRegister.pseudoBytes])

/-- The call of `gdt_flush`, where the table and its pseudo-descriptor are in memory. -/
theorem callGdtFlush_run (flat : s.FlatSegments) (room : Room low 8 0 s.cpu)
    (pointerApart : Disjoint (Span (UInt32.ofNat low) 8) (Span linked.gdtPtr 6))
    (tableApart : Disjoint (Span (UInt32.ofNat low) 8) (Span linked.gdtEntries 40))
    (pointer : s.cpu.mem.read linked.gdtPtr 6 = TableRegister.pseudoBytes ⟨39, linked.gdtEntries⟩)
    (table : s.cpu.mem.read linked.gdtEntries 40 = gdtBytes 0x9A 0x92) :
    ∃ after, call (gdtFlush linked.flush) linked.gdtPtr linked.gdtFlushed s = .ok after ∧
      KernelSegments linked after ∧ after.cpu.eip = linked.gdtFlushed ∧
      after.cpu.eflags = s.cpu.eflags ∧ after.idtr = s.idtr ∧
      (∀ register ≠ .eax, after.cpu.general register = s.cpu.general register) ∧
      ∀ address, address ∉ Span linked.gdtEntries 40 → address ∉ Span (UInt32.ofNat low) 8 →
        after.cpu.mem address = s.cpu.mem address := by
  have calleeFlat : (callee linked.gdtPtr linked.gdtFlushed s).FlatSegments := flat
  have stack := callee_stack linked.gdtPtr linked.gdtFlushed s
  have calleeRoom := callee_room linked.gdtPtr linked.gdtFlushed room
  have kept : ∀ address, address ∉ Span (UInt32.ofNat low) 8 →
      (callee linked.gdtPtr linked.gdtFlushed s).cpu.mem address = s.cpu.mem address :=
    fun _ => callee_of_notMem _ _ room
  have pointerThere := (Bytes.read_congr fun address inside =>
    kept address (Set.disjoint_right.mp pointerApart inside)).trans pointer
  have tableThere := (Bytes.read_congr fun address inside =>
    kept address (Set.disjoint_right.mp tableApart inside)).trans table
  have loaded : Loaded linked 0x9A 0x92
      (atTable linked (callee linked.gdtPtr linked.gdtFlushed s)) := ⟨rfl, tableThere⟩
  have runs := gdtFlush_run calleeFlat calleeRoom stack.2.1 pointerThere tableThere linked.flush
  have returns := flushed_returns loaded calleeRoom tableApart linked.flush
  obtain ⟨eip, eflags, general⟩ := returns.resumed
  have segments := flushed_segments loaded linked.flush
  refine ⟨_, call_run _ _ flat room runs, ?_, eip, eflags, ?_, general, ?_⟩
  · exact segments.congr rfl rfl rfl rfl rfl fun _ _ => rfl
  · simp [resumed, flushed, reloaded, dataReloaded, atTable, callee]
  · intro address notTable notStack
    exact (flushed_of_notMem loaded linked.flush notTable).trans (kept address notStack)

/-- From flat segments `init_gdt` gets into the segments of the kernel without a fault and
returns to its caller. -/
theorem initGdt_run (boot : s.FlatSegments) (room : Room low 8 0 s.cpu)
    (pointerApart : Disjoint (Span (UInt32.ofNat low) 8) (Span linked.gdtPtr 6))
    (tableApart : Disjoint (Span (UInt32.ofNat low) 8) (Span linked.gdtEntries 40)) :
    ∃ after, initGdt linked s = .ok after ∧ KernelSegments linked after ∧ after.FlatSegments ∧
      after.cpu.eip = linked.gdtFlushed ∧ after.cpu.eflags = s.cpu.eflags ∧ after.idtr = s.idtr ∧
      (∀ register ≠ .eax, after.cpu.general register = s.cpu.general register) ∧
      ∀ address, address ∉ Span linked.gdtPtr 6 → address ∉ Span linked.gdtEntries 40 →
        address ∉ Span (UInt32.ofNat low) 8 → after.cpu.mem address = s.cpu.mem address := by
  obtain ⟨after, runs, segments, eip, eflags, idtr, general, outside⟩ :=
    callGdtFlush_run (s := s.withMem (fillGdt linked s.cpu.mem)) boot ⟨room.esp, room.fits⟩
      pointerApart tableApart (fillGdt_pointer _) (fillGdt_table _)
  refine ⟨after, runs, segments, segments.flat, eip, eflags, idtr, general, ?_⟩
  intro address notPointer notTable notStack
  exact (outside address notTable notStack).trans (fillGdt_of_notMem _ notPointer notTable)

end InitGdt

end TorchOS.Descriptors
