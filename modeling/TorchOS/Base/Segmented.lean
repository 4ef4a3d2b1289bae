import TorchOS.Base.Cpu
import TorchOS.Base.Descriptor

/-!
# A processor with segments

The processor of `Base.Cpu` reaches memory through segments: each segment register has a
selector and keeps the descriptor it was loaded from, and each access is checked against
that descriptor and moved by its base. Loading a segment register looks a descriptor up
in the table and marks it there. Interrupts go through the gates of a second table.
Where all segments are flat, instructions do what they do without segments.
-/

namespace Base

/-- The segment registers. -/
inductive SegmentRegister where
  | data (segment : Segment)
  | ss
  | cs
  deriving DecidableEq

/-- What an instruction does with some bytes of a segment. -/
structure Access where
  mode : Mode
  offset : UInt32
  size : Nat

/-- The processor with its descriptor tables. `cached` is the descriptor that a segment
register was loaded from, or none where its selector was null. -/
structure Segmented where
  cpu : Cpu
  ss : UInt16
  gdtr : TableRegister
  idtr : TableRegister
  cached : SegmentRegister → Option Descriptor

/-! ## Memory behind a segment register -/

/-- The processor with its memory counted from another address. -/
def Cpu.rebase (base : UInt32) (c : Cpu) : Cpu :=
  { c with mem := fun offset => c.mem (base + offset) }

@[simp] theorem Cpu.rebase_zero (c : Cpu) : c.rebase 0 = c := by
  simp [rebase]

/-- What a forbidden access raises. -/
def SegmentRegister.fault : SegmentRegister → Fault
  | .ss => .stackFault 0
  | _ => .generalProtection 0

/-- The segment register in front of a memory operand. -/
def Register.segment (base : Register) : SegmentRegister :=
  if base = .esp ∨ base = .ebp then .ss else .data .ds

/-- The segment register in front of an instruction's memory operand. -/
def Instruction.segment : Instruction → SegmentRegister
  | .load _ base _ => base.segment
  | .store base _ _ => base.segment
  | _ => .ss

/-- The accesses of some pushes. -/
def pushAccesses (words : Nat) (c : Cpu) : List Access :=
  (List.range words).map fun word => ⟨.write, c.general .esp - UInt32.ofNat (4 * (word + 1)), 4⟩

/-- The accesses of some pops. -/
def popAccesses (words : Nat) (c : Cpu) : List Access :=
  (List.range words).map fun word => ⟨.read, c.general .esp + UInt32.ofNat (4 * word), 4⟩

/-- The accesses of an instruction. -/
def Instruction.accesses (c : Cpu) : Instruction → List Access
  | .push _ => pushAccesses 1 c
  | .pushByte _ => pushAccesses 1 c
  | .pop _ => popAccesses 1 c
  | .pusha => pushAccesses 8 c
  | .popa => popAccesses 8 c
  | .load _ base offset => [⟨.read, c.general base + offset, 4⟩]
  | .store base offset _ => [⟨.write, c.general base + offset, 4⟩]
  | .ret => popAccesses 1 c
  | .iret => popAccesses 3 c
  | _ => []

namespace Segmented

/-- The processor with other registers and memory, in the same segments. -/
def withCpu (c : Cpu) (s : Segmented) : Segmented := { s with cpu := c }

/-- The processor with other memory. -/
def withMem (mem : Bytes) (s : Segmented) : Segmented := { s with cpu := { s.cpu with mem := mem } }

/-- An access is allowed. -/
def permits (s : Segmented) (register : SegmentRegister) (access : Access) : Bool :=
  (s.cached register).any fun d => d.allows access.mode && d.covers access.offset access.size

/-- Reach memory through a segment register. -/
def through (register : SegmentRegister) (accesses : List Access) (action : Cpu → Cpu)
    (s : Segmented) : Except Fault Segmented :=
  if accesses.all (s.permits register) then
    let base := ((s.cached register).map Descriptor.base).getD 0
    .ok { s with cpu := (action (s.cpu.rebase base)).rebase (0 - base) }
  else .error register.fault

/-- Push words, the first one first. -/
def pushes (words : List UInt32) (s : Segmented) : Except Fault Segmented :=
  s.through .ss (pushAccesses words.length s.cpu) (Cpu.pushes words)

/-! ## Loading a segment register -/

/-- Change the selector in a segment register. -/
def setSelector (register : SegmentRegister) (selector : UInt16) (s : Segmented) : Segmented :=
  match register with
  | .data segment =>
      { s with cpu := { s.cpu with segment := Function.update s.cpu.segment segment selector } }
  | .ss => { s with ss := selector }
  | .cs => { s with cpu := { s.cpu with cs := selector } }

/-- The descriptor that a selector names. -/
def lookup (selector : UInt16) (s : Segmented) : Except Fault Descriptor :=
  if selector &&& 4 ≠ 0 then .error .beyond
  else if s.gdtr.holds (selectorIndex selector) then
    .ok (.ofBytes (s.gdtr.bytes (selectorIndex selector) s.cpu.mem))
  else .error (.generalProtection (selectorError selector))

/-- Keep a descriptor with its selector, and mark it in the table. -/
def take (register : SegmentRegister) (selector : UInt16) (d : Descriptor) (s : Segmented) :
    Segmented :=
  let marked := s.cpu.mem.store8 (s.gdtr.entry (selectorIndex selector) + 5) d.accessed.access
  setSelector register selector
    { s with
      cpu := { s.cpu with mem := marked }
      cached := Function.update s.cached register (some d.accessed) }

section Take

variable (register : SegmentRegister) (selector : UInt16) (d : Descriptor) (s : Segmented)

@[simp] theorem take_general : (s.take register selector d).cpu.general = s.cpu.general := by
  cases register <;> rfl

@[simp] theorem take_eip : (s.take register selector d).cpu.eip = s.cpu.eip := by
  cases register <;> rfl

@[simp] theorem take_eflags : (s.take register selector d).cpu.eflags = s.cpu.eflags := by
  cases register <;> rfl

@[simp] theorem take_gdtr : (s.take register selector d).gdtr = s.gdtr := by
  cases register <;> rfl

@[simp] theorem take_idtr : (s.take register selector d).idtr = s.idtr := by
  cases register <;> rfl

@[simp] theorem take_cached : (s.take register selector d).cached =
    Function.update s.cached register (some d.accessed) := by
  cases register <;> rfl

@[simp] theorem take_mem : (s.take register selector d).cpu.mem =
    s.cpu.mem.store8 (s.gdtr.entry (selectorIndex selector) + 5) d.accessed.access := by
  cases register <;> rfl

end Take

/-- `mov` to `ds`, `es`, `fs` or `gs`. -/
def loadData (target : Segment) (selector : UInt16) (s : Segmented) : Except Fault Segmented :=
  if nullSelector selector then
    .ok (setSelector (.data target) selector
      { s with cached := Function.update s.cached (.data target) none })
  else do
    let d ← s.lookup selector
    d.checkData selector
    .ok (s.take (.data target) selector d)

/-- `mov` to `ss`. -/
def loadStack (selector : UInt16) (s : Segmented) : Except Fault Segmented :=
  if nullSelector selector then .error (.generalProtection 0)
  else do
    let d ← s.lookup selector
    d.checkStack selector
    .ok (s.take .ss selector d)

/-- Go on at an offset of a code segment. -/
def loadCode (selector : UInt16) (offset : UInt32) (s : Segmented) : Except Fault Segmented :=
  if nullSelector selector then .error (.generalProtection 0)
  else do
    let d ← s.lookup selector
    d.checkCode selector
    if d.covers offset 1 then
      .ok (take .cs selector d { s with cpu := { s.cpu with eip := offset } })
    else .error (.generalProtection 0)

/-! ## Instructions -/

def nestedFlag : UInt32 := 0x4000
def virtualFlag : UInt32 := 0x20000

/-- `iret` to ring 0. -/
def iret (s : Segmented) : Except Fault Segmented :=
  if s.cpu.eflags &&& nestedFlag ≠ 0 then .error .beyond
  else do
    let popped ← s.through .ss (Instruction.accesses s.cpu .iret) Cpu.iret
    if popped.cpu.eflags &&& virtualFlag ≠ 0 || selectorRing popped.cpu.cs ≠ 0 then .error .beyond
    else popped.loadCode popped.cpu.cs popped.cpu.eip

/-- What one instruction does. -/
def step : Instruction → Segmented → Except Fault Segmented
  | .writeSegment target source, s => s.loadData target (s.cpu.general source).toUInt16
  | .je skipped, s => if s.cpu.eflags &&& Cpu.zeroFlag = 0 then step skipped s else .ok s
  | .iret, s => s.iret
  | instruction, s =>
      s.through instruction.segment (instruction.accesses s.cpu) (Cpu.step instruction)

/-- Run straight-line code. -/
def execute (code : List Instruction) (s : Segmented) : Except Fault Segmented :=
  code.foldlM (fun s instruction => s.step instruction) s

/-! ## Interrupts -/

/-- A vector as an error code. -/
def vectorError (vector : UInt8) (external : UInt16) : UInt16 :=
  8 * vector.toUInt16 + 2 + external

/-- The gate of a vector. -/
def gate (vector : UInt8) (external : UInt16) (s : Segmented) : Except Fault Gate :=
  let gate := Gate.ofBytes (s.idtr.bytes vector.toNat s.cpu.mem)
  if !s.idtr.holds vector.toNat then .error (.generalProtection (vectorError vector external))
  else if gate.isOther then .error .beyond
  else if !gate.isInterrupt then .error (.generalProtection (vectorError vector external))
  else if !gate.present then .error (.notPresent (vectorError vector external))
  else .ok gate

/-- The code segment that a gate leads to. -/
def gateCode (gate : Gate) (s : Segmented) : Except Fault Descriptor :=
  if nullSelector gate.selector then .error (.generalProtection 0)
  else do
    let d ← s.lookup gate.selector
    d.checkCode (selectorError gate.selector)
    if d.covers gate.offset 1 then .ok d else .error (.generalProtection 0)

/-- The flags that an interrupt gate clears: `TF`, `IF`, `NT`, `RF` and `VM`. -/
def clearedFlags : UInt32 := 0x34300

/-- What the processor does for an interrupt before it goes on at the gate. For some
exceptions it pushes an error code last. -/
def deliver (vector : UInt8) (errorCode : List UInt32) (external : UInt16) (s : Segmented) :
    Except Fault Segmented := do
  let gate ← s.gate vector external
  let d ← (s.gateCode gate).mapError (Fault.during external)
  let stacked ← (s.pushes ([s.cpu.eflags, s.cpu.cs.toUInt32, s.cpu.eip] ++ errorCode)).mapError
    (Fault.during external)
  .ok (take .cs (selectorError gate.selector) d
    { stacked with
      cpu := { stacked.cpu with eip := gate.offset, eflags := s.cpu.eflags &&& ~~~clearedFlags } })

end Segmented

/-! ## Loading the tables -/

/-- The instructions that set the segments up, and the others. -/
inductive SystemInstruction where
  | ordinary (instruction : Instruction)
  | lgdt (pointer : Register)
  | lidt (pointer : Register)
  /-- `mov ss, source` -/
  | writeStack (source : Register)
  /-- `jmp selector:offset` -/
  | jumpFar (selector : UInt16) (offset : UInt32)

namespace Segmented

/-- Read the pseudo-descriptor that a register points to. -/
def readTable (pointer : Register) (s : Segmented) : Except Fault TableRegister :=
  if s.permits pointer.segment ⟨.read, s.cpu.general pointer, 6⟩ then
    let base := ((s.cached pointer.segment).map Descriptor.base).getD 0
    .ok (.load (s.cpu.rebase base).mem (s.cpu.general pointer))
  else .error pointer.segment.fault

/-- What one instruction does. -/
def stepSystem : SystemInstruction → Segmented → Except Fault Segmented
  | .ordinary instruction, s => s.step instruction
  | .lgdt pointer, s => do
      let table ← s.readTable pointer
      .ok { s with gdtr := table }
  | .lidt pointer, s => do
      let table ← s.readTable pointer
      .ok { s with idtr := table }
  | .writeStack source, s => s.loadStack (s.cpu.general source).toUInt16
  | .jumpFar selector offset, s => s.loadCode selector offset

/-- Run straight-line code. -/
def executeSystem (code : List SystemInstruction) (s : Segmented) : Except Fault Segmented :=
  code.foldlM (fun s instruction => s.stepSystem instruction) s

end Segmented

end Base
