import TorchOS.Base.Cpu

/-!
# Interrupts

The gates that `init_idt` sets, the stubs of `interrupts.asm` behind them, and the
handlers of `isr.c`, from the interrupted processor to the processor after `iret`.
The kernel runs in ring 0, so the processor pushes `eflags`, `cs` and `eip`, and for
some exceptions an error code, on the stack that was interrupted.
-/

namespace TorchOS.Interrupts

open Base

/-! ## `interrupts.asm` -/

/-- The stubs: `isr0` to `isr31` and `irq0` to `irq15`. -/
inductive Stub where
  | isr (number : Fin 32)
  | irq (line : Fin 16)
  deriving DecidableEq

/-- `ISR_NOERRCODE` -/
def isrNoErrcode (number : Int8) : List Instruction := [.cli, .pushByte 0, .pushByte number]

/-- `ISR_ERRCODE` -/
def isrErrcode (number : Int8) : List Instruction := [.cli, .pushByte number]

/-- `IRQ` -/
def irqStub (number : Int8) : List Instruction := [.cli, .pushByte 0, .pushByte number]

/-- The exceptions whose stub is an `ISR_ERRCODE`. -/
def errcodeStubs : List (Fin 32) := [8, 10, 11, 12, 13, 14]

/-- What a stub does before it jumps to its common stub. -/
def Stub.enter : Stub → List Instruction
  | .isr number =>
      if number ∈ errcodeStubs then isrErrcode (.ofNat number) else isrNoErrcode (.ofNat number)
  | .irq line => irqStub (.ofNat (32 + line))

/-- Both common stubs up to the call: the registers are saved, a pointer to them is the
argument, and the kernel's data segment is loaded. -/
def saveContext : List Instruction :=
  [.pusha,
   .readSegment .eax .ds,
   .push .eax,
   .push .esp,
   .setLow .eax 0x10,
   .writeSegment .ds .eax, .writeSegment .es .eax, .writeSegment .fs .eax, .writeSegment .gs .eax]

/-- A common stub after the call, which pops the data segment into `scratch`. -/
def restoreContext (scratch : Register) : List Instruction :=
  [.add .esp 4,
   .pop scratch,
   .writeSegment .ds scratch, .writeSegment .es scratch, .writeSegment .fs scratch,
   .writeSegment .gs scratch,
   .popa,
   .add .esp 8,
   .sti,
   .iret]

/-! ## `isr.h` and `isr.c` -/

/-- `context_t` -/
structure Context where
  ds : UInt32
  edi : UInt32
  esi : UInt32
  ebp : UInt32
  uselessEsp : UInt32
  ebx : UInt32
  edx : UInt32
  ecx : UInt32
  eax : UInt32
  intNo : UInt32
  errCode : UInt32
  eip : UInt32
  cs : UInt32
  eflags : UInt32
  esp : UInt32
  ss : UInt32

/-- The context a pointer points to. -/
def contextAt (mem : Bytes) (context : UInt32) : Context where
  ds := mem.load32 context
  edi := mem.load32 (context + 4)
  esi := mem.load32 (context + 8)
  ebp := mem.load32 (context + 12)
  uselessEsp := mem.load32 (context + 16)
  ebx := mem.load32 (context + 20)
  edx := mem.load32 (context + 24)
  ecx := mem.load32 (context + 28)
  eax := mem.load32 (context + 32)
  intNo := mem.load32 (context + 36)
  errCode := mem.load32 (context + 40)
  eip := mem.load32 (context + 44)
  cs := mem.load32 (context + 48)
  eflags := mem.load32 (context + 52)
  esp := mem.load32 (context + 56)
  ss := mem.load32 (context + 60)

/-- The bytes of a context that an interrupt pushes: all but `esp` and `ss`. -/
def savedSize : Nat := 56

/-- The registers that a C function restores. -/
def calleeSaved : List Register := [.ebx, .esp, .ebp, .esi, .edi]

/-- A C function, from its call to its return, while a context is saved: it keeps the
cdecl convention and does not write that context. -/
structure Procedure where
  run : UInt32 → Cpu → Cpu
  keeps : ∀ context c, ∀ register ∈ calleeSaved,
    (run context c).general register = c.general register
  saved : ∀ context c, ∀ address ∈ Span context savedSize,
    (run context c).mem address = c.mem address

/-- The C code behind the common stubs: `interrupt_handlers`, where `none` is a null
pointer, and the functions that `isr.c` calls besides. -/
structure Handlers where
  interruptHandlers : UInt32 → Option Procedure
  logf : Procedure
  picSendEoi : Procedure

/-- `isr_handler` -/
def isrHandler (handlers : Handlers) (context : UInt32) (c : Cpu) : Cpu :=
  let logged := handlers.logf.run context c
  match handlers.interruptHandlers (contextAt logged.mem context).intNo with
  | some handler => handler.run context logged
  | none => logged

/-- `irq_handler`, which hangs when no handler is registered. -/
def irqHandler (handlers : Handlers) (context : UInt32) (c : Cpu) : Option Cpu :=
  let logged := if (contextAt c.mem context).intNo - 32 ≠ 0 then handlers.logf.run context c else c
  let sent := handlers.picSendEoi.run context logged
  match handlers.interruptHandlers (contextAt sent.mem context).intNo with
  | some handler => some (handler.run context sent)
  | none => none

/-- The processor when a common stub calls its handler, with the context on the stack. -/
def Stub.called (stub : Stub) (c : Cpu) : Cpu := (c.execute stub.enter).execute saveContext

/-- A stub with its common stub, from its first instruction to after `iret`. -/
def Stub.run (handlers : Handlers) (stub : Stub) (c : Cpu) : Option Cpu :=
  let called := stub.called c
  match stub with
  | .isr _ => some ((isrHandler handlers called.top called).execute (restoreContext .eax))
  | .irq _ => (irqHandler handlers called.top called).map fun returned =>
      returned.execute (restoreContext .ebx)

/-! ## `idt.c` -/

/-- `idt_entry_t` -/
structure IdtEntry where
  baseLo : UInt16
  sel : UInt16
  res : UInt8
  flags : UInt8
  baseHi : UInt16

/-- Where a gate leads, as the processor puts it together. -/
def IdtEntry.base (entry : IdtEntry) : UInt32 :=
  entry.baseLo.toUInt32 ||| (entry.baseHi.toUInt32 <<< 16)

/-- The entry that `idt_set_gate` fills in. -/
def IdtEntry.of (base : UInt32) (sel : UInt16) (flags : UInt8) : IdtEntry where
  baseLo := (base &&& 0xFFFF).toUInt16
  baseHi := ((base >>> 16) &&& 0xFFFF).toUInt16
  sel := sel
  res := 0
  flags := flags

/-- `idt_set_gate` -/
def idtSetGate (n : UInt8) (base : UInt32) (sel : UInt16) (flags : UInt8)
    (idt : UInt8 → IdtEntry) : UInt8 → IdtEntry :=
  Function.update idt n (.of base sel flags)

/-- The vector whose gate `init_idt` sets to a stub. -/
def Stub.vector : Stub → UInt8
  | .isr number => .ofNat number
  | .irq line => .ofNat (32 + line)

/-- The stubs in the order of their gates. -/
def stubs : List Stub := (List.finRange 32).map .isr ++ (List.finRange 16).map .irq

/-- The table `init_idt` loads, where `address` says where the stubs are linked. -/
def initIdt (address : Stub → UInt32) : UInt8 → IdtEntry :=
  stubs.foldl (fun idt stub => idtSetGate stub.vector (address stub) 0x08 0x8E idt)
    fun _ => ⟨0, 0, 0, 0, 0⟩

/-! ## The processor -/

/-- The vectors for which the processor pushes an error code. -/
def pushesErrorCode (vector : UInt8) : Bool :=
  vector ∈ [8, 10, 11, 12, 13, 14, 17, 21]

/-- The flags that an interrupt gate clears: `TF`, `IF`, `NT`, `RF` and `VM`. -/
def gateFlags : UInt32 := 0x34300

/-- What the processor does for an interrupt before it goes on at the gate. -/
def deliver (vector : UInt8) (gate : IdtEntry) (errorCode : UInt32) (c : Cpu) : Cpu :=
  let interrupted := ((c.push c.eflags).push c.cs.toUInt32).push c.eip
  let stacked := if pushesErrorCode vector then interrupted.push errorCode else interrupted
  { stacked with
    eip := gate.base
    cs := gate.sel
    eflags := c.eflags &&& ~~~gateFlags }

/-- The linked kernel: where each stub lies and what code lies at an address. -/
structure Image where
  address : Stub → UInt32
  code : UInt32 → Option Stub
  linked : ∀ stub, code (address stub) = some stub

/-- An interrupt, from the interrupted processor to the processor after `iret`. -/
def interrupt (image : Image) (handlers : Handlers) (vector : UInt8) (errorCode : UInt32)
    (c : Cpu) : Option Cpu := do
  let gate := initIdt image.address vector
  let stub ← image.code gate.base
  stub.run handlers (deliver vector gate errorCode c)

/-- The context that the handler of an interrupt receives. -/
def received (image : Image) (vector : UInt8) (errorCode : UInt32) (c : Cpu) : Option Context := do
  let gate := initIdt image.address vector
  let stub ← image.code gate.base
  let called := stub.called (deliver vector gate errorCode c)
  some (contextAt called.mem called.top)

/-! ## Transparency -/

/-- The context holds the interrupted processor in the fields of its names; of `ds`,
which has 16 bits, in the low half. -/
structure Describes (vector : UInt8) (c : Cpu) (context : Context) : Prop where
  ds : context.ds.toUInt16 = c.segment .ds
  edi : context.edi = c.general .edi
  esi : context.esi = c.general .esi
  ebp : context.ebp = c.general .ebp
  ebx : context.ebx = c.general .ebx
  edx : context.edx = c.general .edx
  ecx : context.ecx = c.general .ecx
  eax : context.eax = c.general .eax
  intNo : context.intNo = vector.toUInt32
  eip : context.eip = c.eip
  cs : context.cs = c.cs.toUInt32
  eflags : context.eflags = c.eflags

/-- The processor is as it was, but for its memory. -/
structure Same (c after : Cpu) : Prop where
  general : after.general = c.general
  segment : after.segment = c.segment
  eip : after.eip = c.eip
  cs : after.cs = c.cs
  eflags : after.eflags = c.eflags

/-- The handler receives the interrupted processor, and if it returns, the processor goes
on where it was interrupted. -/
structure Transparent (image : Image) (handlers : Handlers) (vector : UInt8) (errorCode : UInt32)
    (c : Cpu) : Prop where
  describes : ∃ context, received image vector errorCode c = some context ∧
    Describes vector c context
  resumes : ∀ after, interrupt image handlers vector errorCode c = some after → Same c after

/-! ## Gates -/

@[simp] theorem IdtEntry.base_of (base : UInt32) (sel : UInt16) (flags : UInt8) :
    (IdtEntry.of base sel flags).base = base :=
  Word.or_halves base

theorem mem_stubs (stub : Stub) : stub ∈ stubs := by
  cases stub <;> simp [stubs]

theorem vector_injective : Function.Injective Stub.vector := by
  rintro (a | a) (b | b) same
  · have numbers : ∀ a b : Fin 32, UInt8.ofNat a = UInt8.ofNat b → a = b := by decide
    rw [numbers a b same]
  · have apart : ∀ (a : Fin 32) (b : Fin 16), UInt8.ofNat a ≠ UInt8.ofNat (32 + b) := by decide
    exact absurd same (apart a b)
  · have apart : ∀ (a : Fin 16) (b : Fin 32), UInt8.ofNat (32 + a) ≠ UInt8.ofNat b := by decide
    exact absurd same (apart a b)
  · have lines : ∀ a b : Fin 16, UInt8.ofNat (32 + a) = UInt8.ofNat (32 + b) → a = b := by decide
    rw [lines a b same]

/-- Setting gates in turn leaves each of them set. -/
theorem setGates_vector (address : Stub → UInt32) {set : List Stub} {stub : Stub}
    (idt : UInt8 → IdtEntry)
    (present : stub ∈ set ∨ idt stub.vector = .of (address stub) 0x08 0x8E) :
    set.foldl (fun idt stub => idtSetGate stub.vector (address stub) 0x08 0x8E idt) idt
      stub.vector = .of (address stub) 0x08 0x8E := by
  induction set generalizing idt with
  | nil => exact present.resolve_left (List.not_mem_nil)
  | cons first set ih =>
      apply ih
      by_cases isFirst : stub = first
      · right
        rw [isFirst]
        exact Function.update_self _ _ _
      · rcases present with member | set
        · exact .inl ((List.mem_cons.mp member).resolve_left isFirst)
        · right
          change Function.update idt first.vector _ stub.vector = _
          rw [Function.update_of_ne fun same => isFirst (vector_injective same)]
          exact set

/-- The gate of each stub leads to it, into the kernel's code segment. -/
theorem initIdt_vector (address : Stub → UInt32) (stub : Stub) :
    initIdt address stub.vector = .of (address stub) 0x08 0x8E :=
  setGates_vector address _ (.inl (mem_stubs stub))

theorem exists_stub {vector : UInt8} (installed : vector < 48) :
    ∃ stub : Stub, stub.vector = vector := by
  have below : vector.toNat < 48 := UInt8.lt_iff_toNat_lt.mp installed
  by_cases exception : vector.toNat < 32
  · exact ⟨.isr ⟨vector.toNat, exception⟩, UInt8.ofNat_toNat⟩
  · refine ⟨.irq ⟨vector.toNat - 32, by omega⟩, ?_⟩
    rw [Stub.vector, Nat.add_sub_cancel' (by omega), UInt8.ofNat_toNat]

/-! ## The stack of an interrupt -/

/-- What the processor pushes, the last word first. -/
def deliveredWords (vector : UInt8) (errorCode : UInt32) (c : Cpu) : List UInt32 :=
  (if pushesErrorCode vector then [errorCode] else []) ++ [c.eip, c.cs.toUInt32, c.eflags]

/-- The dummy error code, where a stub pushes one. -/
def Stub.dummy : Stub → List UInt32
  | .isr number => if number ∈ errcodeStubs then [] else [0]
  | .irq _ => [0]

section Stack

variable (c : Cpu) (vector : UInt8) (errorCode : UInt32) (gate : IdtEntry) (stub : Stub)

theorem deliver_pushed :
    Pushed c (deliver vector gate errorCode c) (deliveredWords vector errorCode c) := by
  have interrupted : Pushed c (((c.push c.eflags).push c.cs.toUInt32).push c.eip)
      [c.eip, c.cs.toUInt32, c.eflags] :=
    (((Pushed.nil c).push _ (by decide)).push _ (by simp)).push _ (by simp)
  rw [deliver, deliveredWords]
  by_cases pushes : pushesErrorCode vector
  · rw [if_pos pushes, if_pos pushes]
    exact (interrupted.push _ (by simp)).of_same rfl rfl
  · rw [if_neg pushes, if_neg pushes]
    exact interrupted.of_same rfl rfl

theorem deliver_general {register : Register} (notEsp : register ≠ .esp) :
    (deliver vector gate errorCode c).general register = c.general register := by
  rw [deliver]
  by_cases pushes : pushesErrorCode vector
  · simp [pushes, Cpu.push_other, notEsp]
  · simp [pushes, Cpu.push_other, notEsp]

theorem deliver_segment : (deliver vector gate errorCode c).segment = c.segment := by
  rw [deliver]
  by_cases pushes : pushesErrorCode vector
  · simp [pushes]
  · simp [pushes]

/-- What a stub pushes before it jumps to its common stub. -/
theorem enter_eq : stub.dummy = [] ∧ (∃ number : Int8, stub.enter = [.cli, .pushByte number] ∧
      number.toInt32.toUInt32 = stub.vector.toUInt32) ∨
    stub.dummy = [0] ∧ ∃ number : Int8, stub.enter = [.cli, .pushByte 0, .pushByte number] ∧
      number.toInt32.toUInt32 = stub.vector.toUInt32 := by
  cases stub with
  | isr number =>
      have value : (Int8.ofNat number).toInt32.toUInt32 = (UInt8.ofNat number).toUInt32 := by
        revert number
        decide
      by_cases errcode : number ∈ errcodeStubs
      · exact .inl ⟨if_pos errcode, _, if_pos errcode, value⟩
      · exact .inr ⟨if_neg errcode, _, if_neg errcode, value⟩
  | irq line =>
      have value : (Int8.ofNat (32 + line)).toInt32.toUInt32 = (UInt8.ofNat (32 + line)).toUInt32 := by
        revert line
        decide
      exact .inr ⟨rfl, _, rfl, value⟩

variable {c stub}

/-- The stub pushes its vector, and before it the dummy error code it may need. -/
theorem enter_pushed {before : Cpu} {words : List UInt32} (pushed : Pushed before c words)
    (fits : 4 * (words.length + 2) ≤ 2 ^ 32) :
    Pushed before (c.execute stub.enter) (stub.vector.toUInt32 :: (stub.dummy ++ words)) := by
  have cleared : Pushed before (c.step .cli) words := pushed.of_same rfl rfl
  rcases enter_eq stub with ⟨dummy, number, enter, value⟩ | ⟨dummy, number, enter, value⟩
  · rw [dummy, enter, ← value]
    exact cleared.push _ (by omega)
  · rw [dummy, enter, ← value]
    exact (cleared.push 0 (by omega)).push _ (by simp only [List.length_cons]; omega)

theorem enter_general {register : Register} (notEsp : register ≠ .esp) :
    (c.execute stub.enter).general register = c.general register := by
  rcases enter_eq stub with ⟨_, number, enter, _⟩ | ⟨_, number, enter, _⟩
  · simp [enter, Cpu.step, Cpu.push_other, notEsp]
  · simp [enter, Cpu.step, Cpu.push_other, notEsp]

theorem enter_segment : (c.execute stub.enter).segment = c.segment := by
  rcases enter_eq stub with ⟨_, number, enter, _⟩ | ⟨_, number, enter, _⟩
  · simp [enter, Cpu.step]
  · simp [enter, Cpu.step]

/-- The registers as `saveContext` pushes them, the last word first: a pointer to the
others, the data segment and what `pusha` pushes. -/
def savedWords (c : Cpu) : List UInt32 :=
  [(c.general .eax &&& 0xFFFF0000) ||| (c.segment .ds).toUInt32, c.general .edi, c.general .esi,
    c.general .ebp, c.general .esp, c.general .ebx, c.general .edx, c.general .ecx,
    c.general .eax]

/-- The first half of `saveContext` pushes what the pointer points to. -/
theorem frame_pushed {before : Cpu} {words : List UInt32} (pushed : Pushed before c words)
    (fits : 4 * (words.length + 9) ≤ 2 ^ 32) :
    Pushed before (c.execute [.pusha, .readSegment .eax .ds, .push .eax])
      (savedWords c ++ words) := by
  have general : Pushed before c.pusha ([c.general .edi, c.general .esi, c.general .ebp,
      c.general .esp, c.general .ebx, c.general .edx, c.general .ecx, c.general .eax] ++ words) :=
    pushed.pushes (by simp only [List.length_cons, List.length_nil]; omega)
  have segment : Pushed before (c.pusha.step (.readSegment .eax .ds)) _ :=
    general.of_same rfl (by simp [Cpu.step, Cpu.setLow, Cpu.setGeneral])
  have eax : (c.pusha.step (.readSegment .eax .ds)).general .eax =
      (c.general .eax &&& 0xFFFF0000) ||| (c.segment .ds).toUInt32 := by
    simp [Cpu.step, Cpu.setLow, Cpu.setGeneral, Cpu.pusha, Cpu.pushes, Cpu.push_other]
  have frame := segment.push ((c.pusha.step (.readSegment .eax .ds)).general .eax)
    (by simp only [List.length_cons, List.length_append, List.length_nil]; omega)
  rw [savedWords, ← eax]
  exact frame

/-- The end of `saveContext`. -/
def loadKernelSegment : List Instruction :=
  [.setLow .eax 0x10, .writeSegment .ds .eax, .writeSegment .es .eax, .writeSegment .fs .eax,
    .writeSegment .gs .eax]

theorem loadKernelSegment_mem : (c.execute loadKernelSegment).mem = c.mem := by
  simp [loadKernelSegment, Cpu.step, Cpu.setLow, Cpu.setGeneral]

theorem loadKernelSegment_esp :
    (c.execute loadKernelSegment).general .esp = c.general .esp := by
  simp [loadKernelSegment, Cpu.step, Cpu.setLow, Cpu.setGeneral]

/-- `saveContext` pushes the registers and a pointer to them. -/
theorem saveContext_pushed {before : Cpu} {words : List UInt32} (pushed : Pushed before c words)
    (fits : 4 * (words.length + 10) ≤ 2 ^ 32) :
    Pushed before (c.execute saveContext)
      (((c.execute saveContext).general .esp + 4) :: (savedWords c ++ words)) := by
  have frame := frame_pushed pushed (by omega)
  have split : saveContext = [.pusha, .readSegment .eax .ds, .push .eax] ++
      (.push .esp :: loadKernelSegment) := rfl
  rw [split, Cpu.execute_append, Cpu.execute_cons]
  generalize c.execute [.pusha, .readSegment .eax .ds, .push .eax] = middle at frame ⊢
  have argument := frame.push (middle.general .esp)
    (by simp only [savedWords, List.length_append, List.length_cons, List.length_nil]; omega)
  have pointer : ((middle.step (.push .esp)).execute loadKernelSegment).general .esp + 4 =
      middle.general .esp := by
    rw [loadKernelSegment_esp, Cpu.step, Cpu.push_esp]
    exact UInt32.sub_add_cancel _ 4
  rw [pointer]
  exact argument.of_same loadKernelSegment_mem loadKernelSegment_esp

end Stack

/-! ## The handlers -/

/-- What a function leaves alone while a context is saved. -/
structure Keeps (context : UInt32) (c after : Cpu) : Prop where
  registers : ∀ register ∈ calleeSaved, after.general register = c.general register
  saved : ∀ address ∈ Span context savedSize, after.mem address = c.mem address

namespace Keeps

variable {handlers : Handlers} {context : UInt32} {c middle after : Cpu}

theorem refl : Keeps context c c := ⟨fun _ _ => rfl, fun _ _ => rfl⟩

theorem trans (first : Keeps context c middle) (second : Keeps context middle after) :
    Keeps context c after where
  registers := fun register saved =>
    (second.registers register saved).trans (first.registers register saved)
  saved := fun address inside => (second.saved address inside).trans (first.saved address inside)

theorem run (procedure : Procedure) : Keeps context c (procedure.run context c) :=
  ⟨procedure.keeps context c, procedure.saved context c⟩

theorem isrHandler : Keeps context c (isrHandler handlers context c) := by
  have logged : Keeps context c (handlers.logf.run context c) := run _
  rw [Interrupts.isrHandler]
  cases handlers.interruptHandlers
    (contextAt (handlers.logf.run context c).mem context).intNo with
  | some handler => exact logged.trans (run handler)
  | none => exact logged

theorem irqHandler (returned : irqHandler handlers context c = some after) :
    Keeps context c after := by
  have logged : Keeps context c (if (contextAt c.mem context).intNo - 32 ≠ 0
      then handlers.logf.run context c else c) := by
    split
    · exact run _
    · exact refl
  rw [Interrupts.irqHandler] at returned
  generalize (if (contextAt c.mem context).intNo - 32 ≠ 0
    then handlers.logf.run context c else c) = logging at logged returned
  have sent : Keeps context c (handlers.picSendEoi.run context logging) := logged.trans (run _)
  cases isSet : handlers.interruptHandlers
      (contextAt (handlers.picSendEoi.run context logging).mem context).intNo with
  | some handler =>
      simp only [isSet, Option.some.injEq] at returned
      rw [← returned]
      exact sent.trans (run handler)
  | none => simp [isSet] at returned

end Keeps

/-- The register that a common stub pops the data segment into. -/
def Stub.scratch : Stub → Register
  | .isr _ => .eax
  | .irq _ => .ebx

/-- A stub that gets past its handler restores what the handler kept. -/
theorem run_returns {handlers : Handlers} {stub : Stub} {c after : Cpu}
    (returned : stub.run handlers c = some after) :
    ∃ handled, Keeps (stub.called c).top (stub.called c) handled ∧
      after = handled.execute (restoreContext stub.scratch) := by
  cases stub with
  | isr number => exact ⟨_, .isrHandler, (Option.some.inj returned).symm⟩
  | irq line =>
      obtain ⟨handled, isHandled, same⟩ := Option.map_eq_some_iff.mp returned
      exact ⟨handled, .irqHandler isHandled, same.symm⟩

/-! ## The way back -/

section Restore

variable {c before : Cpu} {scratch : Register} {ds skipped vector errorCode cs eflags : UInt32}

/-- The first half of `restoreContext`. -/
def reloadSegments (scratch : Register) : List Instruction :=
  [.add .esp 4, .pop scratch, .writeSegment .ds scratch, .writeSegment .es scratch,
    .writeSegment .fs scratch, .writeSegment .gs scratch]

/-- The second half. -/
def popContext : List Instruction := [.popa, .add .esp 8, .sti, .iret]

theorem restoreContext_eq :
    c.execute (restoreContext scratch) = (c.execute (reloadSegments scratch)).execute popContext :=
  rfl

/-- The pointer and the data segment are popped. -/
theorem reloadSegments_run (notEsp : scratch ≠ .esp) :
    (c.execute (reloadSegments scratch)).mem = c.mem ∧
      (c.execute (reloadSegments scratch)).general .esp = c.general .esp + 8 ∧
      ∀ segment, (c.execute (reloadSegments scratch)).segment segment =
        (c.mem.load32 (c.general .esp + 4)).toUInt16 := by
  refine ⟨rfl, ?_, fun segment => ?_⟩
  · simp [reloadSegments, Cpu.step, Cpu.pop, Cpu.setGeneral, Cpu.setStatus, notEsp.symm,
      UInt32.add_assoc]
  · cases segment <;>
      simp [reloadSegments, Cpu.step, Cpu.pop, Cpu.top, Cpu.setGeneral, Cpu.setStatus]

theorem popContext_esp : (c.execute popContext).general .esp = c.general .esp + 52 := by
  simp [popContext, Cpu.step, Cpu.pop, Cpu.popa, Cpu.iret, Cpu.setGeneral, Cpu.setStatus,
    UInt32.add_assoc]

theorem popContext_segment : (c.execute popContext).segment = c.segment := rfl

/-- The words of a context above its data segment are popped. -/
theorem popContext_run (stack : StackAt c.mem (c.general .esp)
      [before.general .edi, before.general .esi, before.general .ebp, skipped,
        before.general .ebx, before.general .edx, before.general .ecx, before.general .eax, vector,
        errorCode, before.eip, cs, eflags]) :
    (∀ register ≠ .esp, (c.execute popContext).general register = before.general register) ∧
      (c.execute popContext).eip = before.eip ∧ (c.execute popContext).cs = cs.toUInt16 ∧
      (c.execute popContext).eflags = eflags := by
  simp only [StackAt.cons_iff, UInt32.add_assoc, UInt32.reduceAdd] at stack
  obtain ⟨edi, esi, ebp, -, ebx, edx, ecx, eax, -, -, eip, cs, eflags, -⟩ := stack
  refine ⟨fun register notEsp => ?_, ?_, ?_, ?_⟩
  · cases register <;>
      simp_all [popContext, Cpu.step, Cpu.pop, Cpu.popa, Cpu.iret, Cpu.setGeneral, Cpu.setStatus,
        Cpu.top, UInt32.add_assoc]
  · simp [popContext, Cpu.step, Cpu.pop, Cpu.popa, Cpu.iret, Cpu.setGeneral, Cpu.setStatus,
      Cpu.top, UInt32.add_assoc, eip]
  · simp [popContext, Cpu.step, Cpu.pop, Cpu.popa, Cpu.iret, Cpu.setGeneral, Cpu.setStatus,
      UInt32.add_assoc, cs]
  · simp [popContext, Cpu.step, Cpu.pop, Cpu.popa, Cpu.iret, Cpu.setGeneral, Cpu.setStatus,
      UInt32.add_assoc, eflags]

end Restore

/-! ## Transparent interrupts -/

section Transparent

variable {image : Image} {handlers : Handlers} {stub : Stub} {errorCode : UInt32} {c after : Cpu}

/-- The processor at the gate of a stub. -/
def delivered (image : Image) (stub : Stub) (errorCode : UInt32) (c : Cpu) : Cpu :=
  deliver stub.vector (.of (image.address stub) 0x08 0x8E) errorCode c

theorem interrupt_vector :
    interrupt image handlers stub.vector errorCode c =
      stub.run handlers (delivered image stub errorCode c) := by
  rw [interrupt, initIdt_vector, IdtEntry.base_of, image.linked]
  rfl

theorem received_vector :
    received image stub.vector errorCode c =
      some (contextAt (stub.called (delivered image stub errorCode c)).mem
        (stub.called (delivered image stub errorCode c)).top) := by
  rw [received, initIdt_vector, IdtEntry.base_of, image.linked]
  rfl

/-- The exceptions whose stub pushes a dummy although the processor pushes an error code. -/
def doubled : List UInt8 := [17, 21]

/-- Every other stub pushes a dummy exactly where the processor pushes no error code. -/
theorem dummy_eq (stub : Stub) : stub.dummy =
    if stub.vector ∈ doubled then [0] else if pushesErrorCode stub.vector then [] else [0] := by
  cases stub with
  | isr number =>
      revert number
      decide
  | irq line =>
      revert line
      decide

theorem doubled_pushes {vector : UInt8} (twice : vector ∈ doubled) : pushesErrorCode vector := by
  rw [doubled, List.mem_cons, List.mem_singleton] at twice
  rcases twice with rfl | rfl <;> rfl

variable (image errorCode c)

/-- One word lies between the vector and `eip`, as `context_t` has it. -/
theorem words_of_single (single : stub.vector ∉ doubled) :
    ∃ code, stub.dummy ++ deliveredWords stub.vector errorCode c =
      [code, c.eip, c.cs.toUInt32, c.eflags] := by
  rw [dummy_eq, if_neg single, deliveredWords]
  by_cases pushes : pushesErrorCode stub.vector
  · exact ⟨errorCode, by rw [if_pos pushes, if_pos pushes]; rfl⟩
  · exact ⟨0, by rw [if_neg pushes, if_neg pushes]; rfl⟩

/-- Where both push an error code there are two. -/
theorem words_of_doubled (twice : stub.vector ∈ doubled) :
    stub.dummy ++ deliveredWords stub.vector errorCode c =
      [0, errorCode, c.eip, c.cs.toUInt32, c.eflags] := by
  rw [dummy_eq, if_pos twice, deliveredWords, if_pos (doubled_pushes twice)]
  rfl

variable (stub) in
theorem words_length :
    (stub.dummy ++ deliveredWords stub.vector errorCode c).length ≤ 5 := by
  by_cases twice : stub.vector ∈ doubled
  · rw [words_of_doubled errorCode c twice]
    exact le_rfl
  · obtain ⟨code, words⟩ := words_of_single errorCode c twice
    rw [words]
    exact Nat.le_succ 4

variable (stub) in
/-- What lies on the stack when the handler is called. -/
theorem called_pushed :
    Pushed c (stub.called (delivered image stub errorCode c))
      (((stub.called (delivered image stub errorCode c)).general .esp + 4) ::
        (savedWords ((delivered image stub errorCode c).execute stub.enter) ++
          (stub.vector.toUInt32 :: (stub.dummy ++ deliveredWords stub.vector errorCode c)))) := by
  have short := words_length stub errorCode c
  rw [List.length_append] at short
  have atGate := deliver_pushed c stub.vector errorCode (.of (image.address stub) 0x08 0x8E)
  have entered : Pushed c ((delivered image stub errorCode c).execute stub.enter) _ :=
    enter_pushed atGate (by omega)
  refine saveContext_pushed entered ?_
  rw [List.length_cons, List.length_append]
  omega

/-- The registers that are saved are the interrupted ones. -/
theorem savedWords_entered :
    savedWords ((delivered image stub errorCode c).execute stub.enter) =
      [(c.general .eax &&& 0xFFFF0000) ||| (c.segment .ds).toUInt32, c.general .edi,
        c.general .esi, c.general .ebp,
        ((delivered image stub errorCode c).execute stub.enter).general .esp, c.general .ebx,
        c.general .edx, c.general .ecx, c.general .eax] := by
  have same : ∀ register : Register, register ≠ .esp →
      ((delivered image stub errorCode c).execute stub.enter).general register =
        c.general register :=
    fun _ notEsp => (enter_general notEsp).trans (deliver_general _ _ _ _ notEsp)
  have segment : ((delivered image stub errorCode c).execute stub.enter).segment = c.segment :=
    enter_segment.trans (deliver_segment _ _ _ _)
  rw [savedWords, segment, same .eax (by decide), same .edi (by decide), same .esi (by decide),
    same .ebp (by decide), same .ebx (by decide), same .edx (by decide), same .ecx (by decide)]

variable {image errorCode c}

theorem scratch_ne_esp (stub : Stub) : stub.scratch ≠ .esp := by
  cases stub with
  | isr number => exact fun same => by cases same
  | irq line => exact fun same => by cases same

/-- `iret` leaves the stack pointer sixty bytes above where the handler was called. -/
theorem returned_esp (returned : stub.run handlers (delivered image stub errorCode c) = some after) :
    after.general .esp = (stub.called (delivered image stub errorCode c)).general .esp + 60 := by
  obtain ⟨handled, keeps, rfl⟩ := run_returns returned
  obtain ⟨_, esp, _⟩ := reloadSegments_run (c := handled) (scratch_ne_esp stub)
  rw [restoreContext_eq, popContext_esp, esp, keeps.registers .esp (by decide)]
  grind

/-- Behind a doubled error code the stack pointer is a word too low. -/
theorem doubled_not_same (twice : stub.vector ∈ doubled)
    (returned : stub.run handlers (delivered image stub errorCode c) = some after) :
    ¬ Same c after := by
  intro same
  have pushed := (called_pushed image stub errorCode c).esp
  rw [savedWords_entered, words_of_doubled errorCode c twice] at pushed
  have low : (stub.called (delivered image stub errorCode c)).general .esp =
      c.general .esp - 64 := pushed
  have esp := returned_esp returned
  rw [same.general, low] at esp
  grind

variable (image errorCode c)

/-- The handler of every other interrupt is called with the words of a context. -/
theorem single_called (single : stub.vector ∉ doubled) :
    (stub.called (delivered image stub errorCode c)).general .esp = c.general .esp - 60 ∧
      (stub.called (delivered image stub errorCode c)).top =
        (stub.called (delivered image stub errorCode c)).general .esp + 4 ∧
      ∃ skipped code, StackAt (stub.called (delivered image stub errorCode c)).mem
        ((stub.called (delivered image stub errorCode c)).general .esp + 4)
        [(c.general .eax &&& 0xFFFF0000) ||| (c.segment .ds).toUInt32, c.general .edi,
          c.general .esi, c.general .ebp, skipped, c.general .ebx, c.general .edx, c.general .ecx,
          c.general .eax, stub.vector.toUInt32, code, c.eip, c.cs.toUInt32, c.eflags] := by
  have pushed := called_pushed image stub errorCode c
  obtain ⟨code, words⟩ := words_of_single errorCode c single
  rw [savedWords_entered, words] at pushed
  obtain ⟨⟨top, stack⟩, esp⟩ := pushed
  exact ⟨esp, top, _, code, stack⟩

/-- It receives the interrupted registers. -/
theorem single_describes (single : stub.vector ∉ doubled) :
    Describes stub.vector c (contextAt (stub.called (delivered image stub errorCode c)).mem
      (stub.called (delivered image stub errorCode c)).top) := by
  obtain ⟨-, top, skipped, code, stack⟩ := single_called image errorCode c single
  rw [top]
  simp only [StackAt.cons_iff, UInt32.add_assoc, UInt32.reduceAdd] at stack
  obtain ⟨ds, edi, esi, ebp, -, ebx, edx, ecx, eax, intNo, -, eip, cs, eflags, -⟩ := stack
  constructor <;> simp only [contextAt, UInt32.add_assoc, UInt32.reduceAdd]
  · rw [ds, Word.toUInt16_or_high]
  · exact edi
  · exact esi
  · exact ebp
  · exact ebx
  · exact edx
  · exact ecx
  · exact eax
  · exact intNo
  · exact eip
  · exact cs
  · exact eflags

variable {image errorCode c}

/-- And the processor goes on with them. -/
theorem single_same (single : stub.vector ∉ doubled)
    (flat : ∀ segment, c.segment segment = c.segment .ds)
    (returned : stub.run handlers (delivered image stub errorCode c) = some after) :
    Same c after := by
  obtain ⟨low, top, skipped, code, stack⟩ := single_called image errorCode c single
  have esp := returned_esp returned
  rw [low] at esp
  obtain ⟨handled, keeps, rfl⟩ := run_returns returned
  have sameEsp := keeps.registers .esp (by decide)
  rw [top] at keeps
  have kept := stack.congr (fun address inside => keeps.saved address inside)
  rw [← sameEsp] at kept
  obtain ⟨ds, context⟩ := kept
  obtain ⟨mem, moved, segment⟩ := reloadSegments_run (c := handled) (scratch_ne_esp stub)
  have above : handled.general .esp + 4 + 4 = handled.general .esp + 8 := by
    rw [UInt32.add_assoc]
    rfl
  rw [above, ← moved, ← mem] at context
  obtain ⟨general, eip, cs, eflags⟩ := popContext_run context
  rw [restoreContext_eq] at esp ⊢
  constructor
  · funext register
    by_cases isEsp : register = .esp
    · rw [isEsp, esp]
      grind
    · exact general register isEsp
  · funext which
    rw [popContext_segment, segment, ds, Word.toUInt16_or_high, flat which]
  · exact eip
  · rw [cs, UInt16.toUInt16_toUInt32]
  · exact eflags

/-- An exception always gets past its handler. -/
theorem isr_returns (number : Fin 32) :
    ∃ after, (Stub.isr number).run handlers (delivered image (.isr number) errorCode c) =
      some after := ⟨_, rfl⟩

theorem not_transparent_of_doubled (twice : stub.vector ∈ doubled) :
    ¬ Transparent image handlers stub.vector errorCode c := by
  intro transparent
  cases stub with
  | isr number =>
      obtain ⟨after, returned⟩ := isr_returns number
      refine doubled_not_same twice returned (transparent.resumes after ?_)
      rw [interrupt_vector]
      exact returned
  | irq line =>
      have hardware : ∀ line : Fin 16, Stub.vector (.irq line) ∉ doubled := by decide
      exact absurd twice (hardware line)

/-- Of the vectors that `init_idt` installs, all are transparent but 17 and 21, and these
never are. -/
theorem transparent_iff {vector : UInt8} (installed : vector < 48)
    (flat : ∀ segment, c.segment segment = c.segment .ds) :
    Transparent image handlers vector errorCode c ↔ vector ≠ 17 ∧ vector ≠ 21 := by
  obtain ⟨stub, rfl⟩ := exists_stub installed
  have notDoubled : stub.vector ∉ doubled ↔ stub.vector ≠ 17 ∧ stub.vector ≠ 21 := by
    rw [doubled, List.mem_cons, List.mem_singleton, not_or]
  rw [← notDoubled]
  constructor
  · exact fun transparent twice => not_transparent_of_doubled twice transparent
  · intro single
    constructor
    · exact ⟨_, received_vector, single_describes image errorCode c single⟩
    · intro after returned
      rw [interrupt_vector] at returned
      exact single_same single flat returned

end Transparent

/-! ## Two exceptions -/

/-- The stubs one after another. -/
def Image.sample : Image where
  address := fun stub => 0x00100000 + 16 * stub.vector.toUInt32
  code := fun address => stubs.find? fun stub => 0x00100000 + 16 * stub.vector.toUInt32 = address
  linked := by
    rintro (number | line)
    · revert number
      decide
    · revert line
      decide

/-- A function that does nothing. -/
def Procedure.sample : Procedure where
  run := fun _ c => c
  keeps := fun _ _ _ _ => rfl
  saved := fun _ _ _ _ => rfl

/-- No handler is registered. -/
def Handlers.sample : Handlers where
  interruptHandlers := fun _ => none
  logf := .sample
  picSendEoi := .sample

/-- A function that leaves other values in the registers it need not restore. -/
def Procedure.scratching : Procedure where
  run := fun _ c => { c with
    general := fun register =>
      if register ∈ calleeSaved then c.general register else 0xDEADBEEF }
  keeps := fun _ _ _ kept => if_pos kept
  saved := fun _ _ _ _ => rfl

/-- All functions do, and one is registered for every interrupt. -/
def Handlers.scratching : Handlers where
  interruptHandlers := fun _ => some .scratching
  logf := .scratching
  picSendEoi := .scratching

/-- A processor in the kernel. -/
def interruptedCpu : Cpu where
  general
    | .eax => 1
    | .ecx => 2
    | .edx => 3
    | .ebx => 4
    | .esp => 0x002FF000
    | .ebp => 0x002FFFF0
    | .esi => 5
    | .edi => 6
  segment := fun _ => 0x10
  cs := 0x08
  eip := 0x00100000
  eflags := 0x202
  cr3 := 0x00200000
  mem := fun _ => 0

theorem transparent_iff_keyboard :
    Transparent Image.sample Handlers.scratching 33 0 interruptedCpu ∧
      ∃ after, interrupt Image.sample Handlers.scratching 33 0 interruptedCpu = some after ∧
        Same interruptedCpu after := by
  have transparent : Transparent Image.sample Handlers.scratching 33 0 interruptedCpu :=
    (transparent_iff (by decide) fun _ => rfl).mpr (by decide)
  have returned : interrupt Image.sample Handlers.scratching (Stub.irq 1).vector 0 interruptedCpu =
      some _ := interrupt_vector
  exact ⟨transparent, _, returned, transparent.resumes _ returned⟩

/-- The alignment check pushes an error code that its stub does not expect. -/
theorem alignment_check_not_transparent :
    (∀ segment, interruptedCpu.segment segment = interruptedCpu.segment .ds) ∧
      ¬ Transparent Image.sample Handlers.sample 17 0 interruptedCpu := by
  have twice : Stub.vector (.isr 17) ∈ doubled := by decide
  exact ⟨fun _ => rfl, not_transparent_of_doubled twice⟩

end TorchOS.Interrupts
