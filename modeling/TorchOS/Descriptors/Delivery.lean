import TorchOS.Descriptors.Idt
import TorchOS.Base.Run

/-!
# Interrupts behind the descriptor tables

An interrupt on the processor with segments: the gate is looked up in the table that
`init_idt` left, and the stubs reach their stack and load segment registers through the
table that `init_gdt` left. As long as the C code leaves the tables and the segment
registers alone, this is the interrupt that `Interrupts` describes, and nothing faults.
-/

namespace TorchOS.Descriptors

open Base

/-! ## An interrupt with segments -/

/-- The handler that a common stub calls, which `irq_handler` may not return from. -/
def handle (handlers : Interrupts.Handlers) (stub : Interrupts.Stub) (context : UInt32) (c : Cpu) :
    Option Cpu :=
  match stub with
  | .isr _ => some (Interrupts.isrHandler handlers context c)
  | .irq _ => Interrupts.irqHandler handlers context c

/-- A stub with its common stub, from its first instruction to after `iret`. -/
def stubRun (handlers : Interrupts.Handlers) (stub : Interrupts.Stub) (s : Segmented) :
    Except Fault (Option Segmented) := do
  let entered ← s.execute stub.enter
  let called ← entered.execute Interrupts.saveContext
  match handle handlers stub called.cpu.top called.cpu with
  | some handled => do
      let after ← (called.withCpu handled).execute (Interrupts.restoreContext stub.scratch)
      .ok (some after)
  | none => .ok none

/-- An interrupt, from the interrupted processor to the processor after `iret`. -/
def interrupt (linked : Linked) (handlers : Interrupts.Handlers) (vector : UInt8)
    (errorCode : UInt32) (external : UInt16) (s : Segmented) : Except Fault (Option Segmented) := do
  let pushed := if Interrupts.pushesErrorCode vector then [errorCode] else []
  let delivered ← s.deliver vector pushed external
  match linked.image.code delivered.cpu.eip with
  | some stub => stubRun handlers stub delivered
  | none => .ok none

/-! ## The gates -/

section Gates

variable {linked : Linked} {s : Segmented} {vector : UInt8}

theorem Installed.bytes (installed : Installed linked s) (vector : UInt8) :
    s.idtr.bytes vector.toNat s.cpu.mem =
      entryBytes (Interrupts.initIdt linked.image.address vector) := by
  have place : linked.idt + UInt32.ofNat (8 * vector.toNat) = linked.idt + 8 * vector.toUInt32 := by
    rw [← toNat_entry, UInt32.ofNat_toNat]
  rw [installed.idtr, TableRegister.bytes, TableRegister.entry, place]
  exact installed.gates vector

theorem Installed.holds (installed : Installed linked s) (vector : UInt8) :
    s.idtr.holds vector.toNat := by
  have wide := vector.toNat_lt
  have limit : (2048 : UInt16).toNat = 2048 := rfl
  simp only [installed.idtr, TableRegister.holds, limit, decide_eq_true_eq]
  omega

/-- The gates of the stubs are found. -/
theorem Installed.gate (installed : Installed linked s) (stub : Interrupts.Stub)
    (external : UInt16) :
    s.gate stub.vector external = .ok ⟨linked.image.address stub, 0x08, 0x8E⟩ := by
  have entry : gateOf (.of (linked.image.address stub) 0x08 0x8E) =
      ⟨linked.image.address stub, 0x08, 0x8E⟩ := by
    rw [gateOf, Interrupts.IdtEntry.base_of]
    rfl
  rw [Segmented.gate, installed.bytes, ofBytes_entryBytes, Interrupts.initIdt_vector, entry]
  simp +decide [installed.holds, Gate.isOther, Gate.isInterrupt, Gate.present]

/-- Setting gates leaves the other entries alone. -/
theorem setGates_other {address : Interrupts.Stub → UInt32} {set : List Interrupts.Stub}
    {table : UInt8 → Interrupts.IdtEntry}
    (other : ∀ stub : Interrupts.Stub, stub.vector ≠ vector) :
    set.foldl (fun table stub =>
      Interrupts.idtSetGate stub.vector (address stub) 0x08 0x8E table) table vector =
      table vector := by
  induction set generalizing table with
  | nil => rfl
  | cons stub set ih => exact ih.trans (Function.update_of_ne (other stub).symm _ _)

theorem vector_lt (stub : Interrupts.Stub) : stub.vector < 48 := by
  cases stub with
  | isr number =>
      revert number
      decide
  | irq line =>
      revert line
      decide

/-- The vectors of no stub have no gate. -/
theorem Installed.gate_other (installed : Installed linked s)
    (other : ∀ stub : Interrupts.Stub, stub.vector ≠ vector) (external : UInt16) :
    s.gate vector external =
      .error (.generalProtection (Segmented.vectorError vector external)) := by
  have empty : Interrupts.initIdt linked.image.address vector = ⟨0, 0, 0, 0, 0⟩ :=
    setGates_other other
  rw [Segmented.gate, installed.bytes, ofBytes_entryBytes, empty]
  simp [installed.holds, gateOf, Gate.isOther, Gate.isInterrupt]

/-- The processor stays in the segments of the kernel. -/
theorem KernelSegments.settled (segments : KernelSegments linked s) :
    s.Settled .cs 0x08 ∧ ∀ segment, s.Settled (.data segment) 0x10 :=
  ⟨⟨wholeMemory 0x9B, segments.cached .cs, segments.loaded.lookup_code, rfl⟩,
    fun segment => ⟨wholeMemory 0x93, segments.cached (.data segment),
      segments.loaded.lookup_data, rfl⟩⟩

/-- The stack of a call, apart from the tables and their pseudo-descriptors. -/
structure CallApart (linked : Linked) (low : Nat) (c : Cpu) : Prop where
  room : Room low 8 0 c
  gdtPtr : Disjoint (Span (UInt32.ofNat low) 8) (Span linked.gdtPtr 6)
  gdtEntries : Disjoint (Span (UInt32.ofNat low) 8) (Span linked.gdtEntries 40)
  idtPtr : Disjoint (Span (UInt32.ofNat low) 8) (Span linked.idtPtr 6)
  idt : Disjoint (Span (UInt32.ofNat low) 8) (Span linked.idt 2048)

/-- From the flat segments of the boot loader `init_gdt` gets into the kernel's own, and
`init_idt`, after whatever the kernel does in between, installs a gate for each stub and
none for the other vectors. Neither faults, and to their callers both are functions. -/
theorem tables_installed {s : Segmented} {low : Nat} (boot : s.FlatSegments)
    (stack : CallApart linked low s.cpu) :
    ∃ inKernel, initGdt linked s = .ok inKernel ∧ KernelSegments linked inKernel ∧
      inKernel.cpu.eip = linked.gdtFlushed ∧
      (∀ register ≠ .eax, inKernel.cpu.general register = s.cpu.general register) ∧
      ∀ c low', c.segment = inKernel.cpu.segment → c.cs = inKernel.cpu.cs →
        (∀ address ∈ Span linked.gdtEntries 40, c.mem address = inKernel.cpu.mem address) →
        CallApart linked low' c →
        ∃ after, initIdt linked (inKernel.withCpu c) = .ok after ∧ Installed linked after ∧
          after.cpu.eip = linked.idtFlushed ∧
          (∀ register ≠ .eax, after.cpu.general register = c.general register) ∧
          ∀ vector external, after.gate vector external =
            if vector < 48 then .ok (gateOf (Interrupts.initIdt linked.image.address vector))
            else .error (.generalProtection (Segmented.vectorError vector external)) := by
  obtain ⟨inKernel, runs, segments, -, eip, -, -, general, -⟩ :=
    initGdt_run boot stack.room stack.gdtPtr stack.gdtEntries
  refine ⟨inKernel, runs, segments, eip, general, ?_⟩
  intro c low' segment cs table stack'
  have kept : KernelSegments linked (inKernel.withCpu c) :=
    segments.congr rfl rfl rfl segment cs table
  obtain ⟨after, runs', installed, eip', -, general', -⟩ :=
    initIdt_run kept stack'.room stack'.idtPtr stack'.idt stack'.gdtEntries
  refine ⟨after, runs', installed, eip', general', fun vector external => ?_⟩
  split
  · next below =>
      obtain ⟨stub, rfl⟩ := Interrupts.exists_stub below
      rw [installed.gate, Interrupts.initIdt_vector, gateOf, Interrupts.IdtEntry.base_of]
      rfl
  · next above =>
      apply installed.gate_other
      rintro stub rfl
      exact above (vector_lt stub)

end Gates

/-! ## Delivery -/

section Delivery

variable {linked : Linked} {s : Segmented} {stub : Interrupts.Stub} {low : Nat}

/-- The stack of an interrupt, apart from both tables. -/
structure StackApart (linked : Linked) (low : Nat) (c : Cpu) : Prop where
  room : Room low 60 0 c
  table : Disjoint (Span (UInt32.ofNat low) 60) (Span linked.gdtEntries 40)
  gates : Disjoint (Span (UInt32.ofNat low) 60) (Span linked.idt 2048)

/-- The processor goes on at the stub. -/
theorem Installed.deliver (installed : Installed linked s) (stack : StackApart linked low s.cpu)
    (stub : Interrupts.Stub) (errorCode : UInt32) (external : UInt16) :
    s.deliver stub.vector (if Interrupts.pushesErrorCode stub.vector then [errorCode] else [])
        external =
      .ok (s.withCpu (Interrupts.delivered linked.image stub errorCode s.cpu)) := by
  have code := installed.segments.settled.1
  have entry : s.gdtr.entry (selectorIndex 0x08) = linked.gdtEntries + 8 := by
    rw [installed.segments.loaded.gdtr]
    rfl
  have apart : Disjoint (Span (UInt32.ofNat low) (60 + 0))
      (Span (s.gdtr.entry (selectorIndex 0x08)) 8) := by
    rw [entry]
    exact stack.table.mono_right (Span.shift_subset (by decide))
  have enough :
      4 * (3 + (if Interrupts.pushesErrorCode stub.vector then [errorCode] else []).length) ≤
        60 := by
    split <;> simp
  have named : nullSelector 0x08 = false ∧ selectorRing 0x08 = 0 ∧ selectorError 0x08 = 0x08 := by
    decide
  rw [Segmented.deliver_flat installed.segments.flat (installed.gate stub external) code named.1
    named.2.1 named.2.2 stack.room enough apart, Interrupts.delivered, Interrupts.deliver,
    Interrupts.IdtEntry.base_of]
  split <;> rfl

/-- What the processor pushes, the first word first. -/
def pushedWords (stub : Interrupts.Stub) (errorCode : UInt32) (c : Cpu) : List UInt32 :=
  [c.eflags, c.cs.toUInt32, c.eip] ++
    if Interrupts.pushesErrorCode stub.vector then [errorCode] else []

theorem delivered_pushed (linked : Linked) (stub : Interrupts.Stub) (errorCode : UInt32) (c : Cpu) :
    (Interrupts.delivered linked.image stub errorCode c).general =
        (c.pushes (pushedWords stub errorCode c)).general ∧
      (Interrupts.delivered linked.image stub errorCode c).mem =
        (c.pushes (pushedWords stub errorCode c)).mem := by
  rw [Interrupts.delivered, Interrupts.deliver, pushedWords]
  split
  · exact ⟨rfl, rfl⟩
  · exact ⟨rfl, rfl⟩

/-- A stub brings every stack to the same depth, but where the error code is doubled. -/
theorem enter_room (single : stub.vector ∉ Interrupts.doubled) (errorCode : UInt32) (c : Cpu) :
    roomAfter stub.enter (60 - 4 * (pushedWords stub errorCode c).length)
      (4 * (pushedWords stub errorCode c).length) = some (40, 20) := by
  have dummy := Interrupts.dummy_eq stub
  rw [if_neg single] at dummy
  rcases Interrupts.enter_eq stub with ⟨filled, number, enter, _⟩ | ⟨filled, number, enter, _⟩
  · have pushes : Interrupts.pushesErrorCode stub.vector := by
      by_contra none
      rw [if_neg none, filled] at dummy
      cases dummy
    rw [enter, pushedWords, if_pos pushes]
    rfl
  · have pushes : ¬ Interrupts.pushesErrorCode stub.vector := by
      intro some
      rw [if_pos some, filled] at dummy
      cases dummy
    rw [enter, pushedWords, if_neg pushes]
    rfl

/-- Registers that C code and interrupts share with the tables: what changes them keeps both
tables. -/
theorem KernelSegments.withCpu (segments : KernelSegments linked s) {c : Cpu}
    (segment : c.segment = s.cpu.segment) (cs : c.cs = s.cpu.cs)
    (table : ∀ address ∈ Span linked.gdtEntries 40, c.mem address = s.cpu.mem address) :
    KernelSegments linked (s.withCpu c) :=
  segments.congr rfl rfl rfl segment cs table

/-- The first half of `saveContext`. -/
def pushContext : List Instruction :=
  [.pusha, .readSegment .eax .ds, .push .eax, .push .esp, .setLow .eax 0x10]

/-- The four data segments are loaded from a register. -/
def loadSegments (source : Register) : List Instruction :=
  [Segment.ds, .es, .fs, .gs].map (.writeSegment · source)

theorem saveContext_eq : Interrupts.saveContext = pushContext ++ loadSegments .eax := rfl

/-- Loading the kernel's data segment where it is loaded. -/
theorem KernelSegments.loadSegments (segments : KernelSegments linked s) (source : Register)
    (holds : (s.cpu.general source).toUInt16 = 0x10) :
    s.execute (loadSegments source) =
      .ok (s.withCpu (s.cpu.execute (Descriptors.loadSegments source))) :=
  Segmented.execute_writeSegments segments.flat segments.settled.2 rfl rfl holds _

theorem loadSegments_segment (source : Register) (c : Cpu) (segment : Segment) :
    (c.execute (loadSegments source)).segment segment = (c.general source).toUInt16 := by
  cases segment <;> simp [loadSegments, Cpu.step]

/-- They are the kernel's segments still. -/
theorem KernelSegments.loaded_again {c : Cpu} (segments : KernelSegments linked (s.withCpu c))
    (source : Register) (holds : (c.general source).toUInt16 = 0x10) :
    KernelSegments linked (s.withCpu (c.execute (Descriptors.loadSegments source))) where
  loaded := ⟨segments.loaded.gdtr, segments.loaded.table⟩
  cached := segments.cached
  segment := fun segment => (loadSegments_segment source c segment).trans holds
  ss := segments.ss
  cs := segments.cs

theorem enter_cs (stub : Interrupts.Stub) (c : Cpu) : (c.execute stub.enter).cs = c.cs := by
  rcases Interrupts.enter_eq stub with ⟨_, number, enter, _⟩ | ⟨_, number, enter, _⟩
  · rw [enter]
    rfl
  · rw [enter]
    rfl

/-- The stub saves the context as without segments. -/
theorem Installed.called (installed : Installed linked s) (stack : StackApart linked low s.cpu)
    (single : stub.vector ∉ Interrupts.doubled) (errorCode : UInt32) :
    ((s.withCpu (Interrupts.delivered linked.image stub errorCode s.cpu)).execute stub.enter >>=
        Segmented.execute Interrupts.saveContext) =
      .ok (s.withCpu (stub.called (Interrupts.delivered linked.image stub errorCode s.cpu))) ∧
    Room low 0 60 (stub.called (Interrupts.delivered linked.image stub errorCode s.cpu)) ∧
    KernelSegments linked
      (s.withCpu (stub.called (Interrupts.delivered linked.image stub errorCode s.cpu))) ∧
    ∀ address, address ∉ Span (UInt32.ofNat low) 60 →
      (stub.called (Interrupts.delivered linked.image stub errorCode s.cpu)).mem address =
        s.cpu.mem address := by
  have words : 4 * (pushedWords stub errorCode s.cpu).length ≤ 60 := by
    unfold pushedWords
    split <;> simp
  obtain ⟨general, mem⟩ := delivered_pushed linked stub errorCode s.cpu
  have pushed := stack.room.pushes words
  have frame : ∀ address, address ∉ Span (UInt32.ofNat low) 60 →
      (Interrupts.delivered linked.image stub errorCode s.cpu).mem address = s.cpu.mem address := by
    intro address outside
    rw [mem]
    exact stack.room.pushes_frame words outside
  have atGate : Room low (60 - 4 * (pushedWords stub errorCode s.cpu).length)
      (4 * (pushedWords stub errorCode s.cpu).length)
      (Interrupts.delivered linked.image stub errorCode s.cpu) := by
    rw [Nat.zero_add] at pushed
    exact ⟨general ▸ pushed.esp, pushed.fits⟩
  have enough := enter_room single errorCode s.cpu
  rw [Interrupts.Stub.called]
  have segment : (Interrupts.delivered linked.image stub errorCode s.cpu).segment = s.cpu.segment :=
    Interrupts.deliver_segment _ _ _ _
  have cs : (Interrupts.delivered linked.image stub errorCode s.cpu).cs = 0x08 := rfl
  generalize Interrupts.delivered linked.image stub errorCode s.cpu = delivered
    at atGate frame segment cs ⊢
  have flat := installed.segments.flat
  obtain ⟨entered, total, enteredFrame⟩ := atGate.execute enough
  have deeper : roomAfter pushContext 40 20 = some (0, 60) := rfl
  obtain ⟨saved, _, savedFrame⟩ := entered.execute deeper
  have entering : (s.withCpu delivered).execute stub.enter =
      .ok (s.withCpu (delivered.execute stub.enter)) :=
    Segmented.execute_flat (s := s.withCpu delivered) flat atGate enough
  have saving : (s.withCpu (delivered.execute stub.enter)).execute pushContext =
      .ok (s.withCpu ((delivered.execute stub.enter).execute pushContext)) :=
    Segmented.execute_flat (s := s.withCpu (delivered.execute stub.enter)) flat entered deeper
  have outside : ∀ address, address ∉ Span (UInt32.ofNat low) 60 →
      ((delivered.execute stub.enter).execute pushContext).mem address = s.cpu.mem address := by
    intro address outside
    rw [← total] at enteredFrame
    exact (savedFrame address outside).trans
      ((enteredFrame address outside).trans (frame address outside))
  have kernel : KernelSegments linked
      (s.withCpu ((delivered.execute stub.enter).execute pushContext)) := by
    refine installed.segments.withCpu ?_ ?_ fun address inside =>
      outside address (Set.disjoint_right.mp stack.table inside)
    · exact Interrupts.enter_segment.trans segment
    · exact (enter_cs stub delivered).trans (cs.trans installed.segments.cs.symm)
  have loading := kernel.loadSegments .eax (Word.toUInt16_or_high _ _)
  refine ⟨?_, ⟨saved.esp, saved.fits⟩, ?_, outside⟩
  · rw [entering, Segmented.ok_bind, saveContext_eq, Segmented.execute_append, saving,
      Segmented.ok_bind, loading, Cpu.execute_append]
    rfl
  · rw [saveContext_eq, Cpu.execute_append]
    exact kernel.loaded_again .eax (Word.toUInt16_or_high _ _)

end Delivery

/-! ## The C code -/

/-- What C code leaves alone: the segment registers, `NT` and both tables. -/
structure Respects (linked : Linked) (c after : Cpu) : Prop where
  segment : after.segment = c.segment
  cs : after.cs = c.cs
  nested : after.eflags &&& Segmented.nestedFlag = c.eflags &&& Segmented.nestedFlag
  table : ∀ address ∈ Span linked.gdtEntries 40, after.mem address = c.mem address
  gates : ∀ address ∈ Span linked.idt 2048, after.mem address = c.mem address

/-- All functions that the common stubs reach do so. -/
structure Respectful (linked : Linked) (handlers : Interrupts.Handlers) : Prop where
  logf : ∀ context c, Respects linked c (handlers.logf.run context c)
  picSendEoi : ∀ context c, Respects linked c (handlers.picSendEoi.run context c)
  handler : ∀ number handler, handlers.interruptHandlers number = some handler →
    ∀ context c, Respects linked c (handler.run context c)

namespace Respects

variable {linked : Linked} {handlers : Interrupts.Handlers} {context : UInt32}
  {c middle after : Cpu}

theorem refl : Respects linked c c := ⟨rfl, rfl, rfl, fun _ _ => rfl, fun _ _ => rfl⟩

theorem trans (first : Respects linked c middle) (second : Respects linked middle after) :
    Respects linked c after where
  segment := second.segment.trans first.segment
  cs := second.cs.trans first.cs
  nested := second.nested.trans first.nested
  table := fun address inside => (second.table address inside).trans (first.table address inside)
  gates := fun address inside => (second.gates address inside).trans (first.gates address inside)

theorem isrHandler (respectful : Respectful linked handlers) :
    Respects linked c (Interrupts.isrHandler handlers context c) := by
  have logged := respectful.logf context c
  rw [Interrupts.isrHandler]
  cases isSet : handlers.interruptHandlers
      (Interrupts.contextAt (handlers.logf.run context c).mem context).intNo with
  | some handler => exact logged.trans (respectful.handler _ handler isSet _ _)
  | none => exact logged

theorem irqHandler (respectful : Respectful linked handlers)
    (returned : Interrupts.irqHandler handlers context c = some after) :
    Respects linked c after := by
  have logged : Respects linked c (if (Interrupts.contextAt c.mem context).intNo - 32 ≠ 0
      then handlers.logf.run context c else c) := by
    split
    · exact respectful.logf context c
    · exact refl
  rw [Interrupts.irqHandler] at returned
  generalize (if (Interrupts.contextAt c.mem context).intNo - 32 ≠ 0
    then handlers.logf.run context c else c) = logging at logged returned
  have sent := logged.trans (respectful.picSendEoi context logging)
  cases isSet : handlers.interruptHandlers
      (Interrupts.contextAt (handlers.picSendEoi.run context logging).mem context).intNo with
  | some handler =>
      simp only [isSet, Option.some.injEq] at returned
      rw [← returned]
      exact sent.trans (respectful.handler _ handler isSet _ _)
  | none => simp [isSet] at returned

end Respects

/-! ## The way back -/

section Return

variable {linked : Linked} {s : Segmented} {stub : Interrupts.Stub} {low : Nat}

/-- Nothing on the way to a handler sets `NT`. -/
theorem called_nested (linked : Linked) (stub : Interrupts.Stub) (errorCode : UInt32) (c : Cpu) :
    (stub.called (Interrupts.delivered linked.image stub errorCode c)).eflags &&&
      Segmented.nestedFlag = 0 := by
  have entered : ∀ c : Cpu, (stub.called c).eflags = c.eflags &&& ~~~Cpu.interruptFlag := by
    intro c
    rw [Interrupts.Stub.called]
    rcases Interrupts.enter_eq stub with ⟨_, number, enter, _⟩ | ⟨_, number, enter, _⟩
    · rw [enter]
      rfl
    · rw [enter]
      rfl
  have delivered : (Interrupts.delivered linked.image stub errorCode c).eflags =
      c.eflags &&& ~~~Interrupts.gateFlags := rfl
  rw [entered, delivered, UInt32.and_assoc, UInt32.and_assoc]
  have none : ~~~Interrupts.gateFlags &&& (~~~Cpu.interruptFlag &&& Segmented.nestedFlag) = 0 := by
    decide
  rw [none, UInt32.and_zero]

/-- Before the segments are loaded again. -/
def dropPointer (scratch : Register) : List Instruction := [.add .esp 4, .pop scratch]

/-- Before `iret`. -/
def popRegisters : List Instruction := [.popa, .add .esp 8, .sti]

theorem restoreContext_split (scratch : Register) :
    Interrupts.restoreContext scratch =
      dropPointer scratch ++ (loadSegments scratch ++ (popRegisters ++ [.iret])) := rfl

/-- Arithmetic does not touch `NT`. -/
theorem addFlags_nested (left right : UInt32) :
    Cpu.addFlags left right &&& Segmented.nestedFlag = 0 := by
  simp only [Cpu.addFlags, Cpu.resultFlags, Word.or_and_distrib]
  rw [Cpu.flagIf_and_of_disjoint, Cpu.flagIf_and_of_disjoint, Cpu.flagIf_and_of_disjoint,
    Cpu.flagIf_and_of_disjoint, Cpu.flagIf_and_of_disjoint, Cpu.flagIf_and_of_disjoint]
  · simp only [UInt32.zero_or]
  all_goals decide

theorem restored_nested (scratch : Register) {c : Cpu}
    (clear : c.eflags &&& Segmented.nestedFlag = 0) :
    (((c.execute (dropPointer scratch)).execute (loadSegments scratch)).execute
      popRegisters).eflags &&& Segmented.nestedFlag = 0 := by
  have added : ∀ (c : Cpu) (left right : UInt32), c.eflags &&& Segmented.nestedFlag = 0 →
      (c.setStatus (Cpu.addFlags left right)).eflags &&& Segmented.nestedFlag = 0 := by
    intro c left right clear
    have kept : ~~~Cpu.statusFlags &&& Segmented.nestedFlag = Segmented.nestedFlag := by decide
    rw [Cpu.setStatus, Word.or_and_distrib, addFlags_nested, UInt32.and_assoc, kept, clear]
    rfl
  have dropped : (c.execute (dropPointer scratch)).eflags &&& Segmented.nestedFlag = 0 :=
    added _ _ _ clear
  generalize c.execute (dropPointer scratch) = middle at dropped ⊢
  have reloaded : (middle.execute (loadSegments scratch)).eflags = middle.eflags := rfl
  rw [← reloaded] at dropped
  generalize middle.execute (loadSegments scratch) = loaded at dropped ⊢
  have popped : ((loaded.execute [.popa, .add .esp 8]).eflags ||| Cpu.interruptFlag) &&&
      Segmented.nestedFlag = 0 := by
    have sum : (loaded.execute [.popa, .add .esp 8]).eflags &&& Segmented.nestedFlag = 0 :=
      added (loaded.popa.setGeneral .esp (loaded.popa.general .esp + 8)) _ _ dropped
    rw [Word.or_and_distrib, sum]
    rfl
  exact popped

/-- The common stub gets back to what was interrupted. -/
theorem restore_run {handled : Cpu} (segments : KernelSegments linked (s.withCpu handled))
    (room : Room low 0 60 handled) (nested : handled.eflags &&& Segmented.nestedFlag = 0)
    (scratch : Register) (notEsp : scratch ≠ .esp)
    (segment : (handled.execute (Interrupts.restoreContext scratch)).segment .ds = 0x10)
    (cs : (handled.execute (Interrupts.restoreContext scratch)).cs = 0x08)
    (notVirtual : (handled.execute (Interrupts.restoreContext scratch)).eflags &&&
      Segmented.virtualFlag = 0) :
    (s.withCpu handled).execute (Interrupts.restoreContext scratch) =
      .ok (s.withCpu (handled.execute (Interrupts.restoreContext scratch))) := by
  have first : roomAfter (dropPointer scratch) 0 60 = some (8, 52) := by
    simp [dropPointer, roomAfter, Instruction.stackUse, notEsp]
  have last : roomAfter popRegisters 8 52 = some (48, 12) := rfl
  have clear := restored_nested scratch nested
  have split : handled.execute (Interrupts.restoreContext scratch) =
      (((handled.execute (dropPointer scratch)).execute (loadSegments scratch)).execute
        popRegisters).step .iret := by
    rw [restoreContext_split, Cpu.execute_append, Cpu.execute_append, Cpu.execute_append]
    rfl
  rw [split] at segment cs notVirtual
  have holds : ((handled.execute (dropPointer scratch)).general scratch).toUInt16 = 0x10 := by
    rw [← segment, ← loadSegments_segment scratch _ .ds]
    rfl
  have flat := segments.flat
  have dropped : (s.withCpu handled).execute (dropPointer scratch) =
      .ok (s.withCpu (handled.execute (dropPointer scratch))) :=
    Segmented.execute_flat flat room first
  obtain ⟨droppedRoom, -, -⟩ := room.execute first
  have droppedSegments : KernelSegments linked
      (s.withCpu (handled.execute (dropPointer scratch))) :=
    segments.congr rfl rfl rfl rfl rfl fun _ _ => rfl
  have loaded : (s.withCpu (handled.execute (dropPointer scratch))).execute (loadSegments scratch) =
      .ok (s.withCpu ((handled.execute (dropPointer scratch)).execute (loadSegments scratch))) :=
    droppedSegments.loadSegments scratch holds
  have loadedSegments := droppedSegments.loaded_again scratch holds
  have loadedRoom : Room low 8 52
      ((handled.execute (dropPointer scratch)).execute (loadSegments scratch)) :=
    ⟨droppedRoom.esp, droppedRoom.fits⟩
  have popped : (s.withCpu ((handled.execute (dropPointer scratch)).execute
        (loadSegments scratch))).execute popRegisters =
      .ok (s.withCpu (((handled.execute (dropPointer scratch)).execute
        (loadSegments scratch)).execute popRegisters)) :=
    Segmented.execute_flat loadedSegments.flat loadedRoom last
  obtain ⟨poppedRoom, -, -⟩ := loadedRoom.execute last
  have poppedSegments : KernelSegments linked (s.withCpu
      (((handled.execute (dropPointer scratch)).execute (loadSegments scratch)).execute
        popRegisters)) :=
    loadedSegments.congr rfl rfl rfl rfl rfl fun _ _ => rfl
  rw [split, restoreContext_split, Segmented.execute_append, dropped, Segmented.ok_bind,
    Segmented.execute_append, loaded, Segmented.ok_bind, Segmented.execute_append, popped,
    Segmented.ok_bind]
  have iret := Segmented.step_iret poppedSegments.flat poppedSegments.settled.1 rfl rfl poppedRoom
    (by decide) clear cs notVirtual
  simp only [Segmented.execute, List.foldlM_cons, List.foldlM_nil, iret]
  rfl

/-- What the handler leaves is restored. -/
theorem handled_run (installed : Installed linked s) (stack : StackApart linked low s.cpu)
    (single : stub.vector ∉ Interrupts.doubled) (errorCode : UInt32)
    (notVirtual : s.cpu.eflags &&& Segmented.virtualFlag = 0) {handled : Cpu}
    (keeps : Interrupts.Keeps
      (stub.called (Interrupts.delivered linked.image stub errorCode s.cpu)).top
      (stub.called (Interrupts.delivered linked.image stub errorCode s.cpu)) handled)
    (respects : Respects linked
      (stub.called (Interrupts.delivered linked.image stub errorCode s.cpu)) handled)
    (same : Interrupts.Same s.cpu (handled.execute (Interrupts.restoreContext stub.scratch))) :
    (s.withCpu handled).execute (Interrupts.restoreContext stub.scratch) =
        .ok (s.withCpu (handled.execute (Interrupts.restoreContext stub.scratch))) ∧
      Installed linked (s.withCpu (handled.execute (Interrupts.restoreContext stub.scratch))) := by
  obtain ⟨-, room, segments, outside⟩ := installed.called stack single errorCode
  have table : ∀ address ∈ Span linked.gdtEntries 40, handled.mem address = s.cpu.mem address :=
    fun address inside => (respects.table address inside).trans
      (outside address (Set.disjoint_right.mp stack.table inside))
  have gates : ∀ address ∈ Span linked.idt 2048, handled.mem address = s.cpu.mem address :=
    fun address inside => (respects.gates address inside).trans
      (outside address (Set.disjoint_right.mp stack.gates inside))
  have handledSegments : KernelSegments linked (s.withCpu handled) :=
    segments.congr rfl rfl rfl respects.segment respects.cs respects.table
  have handledRoom : Room low 0 60 handled :=
    ⟨(congrArg UInt32.toNat (keeps.registers .esp (by decide))).trans room.esp, room.fits⟩
  have clear := respects.nested.trans (called_nested linked stub errorCode s.cpu)
  refine ⟨restore_run handledSegments handledRoom clear stub.scratch
    (Interrupts.scratch_ne_esp stub) ?_ ?_ ?_, ?_, installed.idtr, ?_⟩
  · rw [same.segment]
    exact installed.segments.segment .ds
  · rw [same.cs]
    exact installed.segments.cs
  · rw [same.eflags]
    exact notVirtual
  · exact installed.segments.congr rfl rfl rfl same.segment same.cs table
  · intro vector
    rw [← installed.gates vector]
    exact Bytes.read_congr fun address inside => gates address (entry_subset vector inside)

/-- The processor when the handler of an interrupt is called. -/
def calledCpu (linked : Linked) (stub : Interrupts.Stub) (errorCode : UInt32) (c : Cpu) : Cpu :=
  stub.called (Interrupts.delivered linked.image stub errorCode c)

theorem flat_interrupt (linked : Linked) (handlers : Interrupts.Handlers) (stub : Interrupts.Stub)
    (errorCode : UInt32) (c : Cpu) :
    Interrupts.interrupt linked.image handlers stub.vector errorCode c =
      (handle handlers stub (calledCpu linked stub errorCode c).top
        (calledCpu linked stub errorCode c)).map
          fun handled => handled.execute (Interrupts.restoreContext stub.scratch) := by
  rw [Interrupts.interrupt_vector]
  cases stub <;> rfl

theorem handle_keeps {handlers : Interrupts.Handlers} (respectful : Respectful linked handlers)
    {context : UInt32} {c handled : Cpu}
    (isHandled : handle handlers stub context c = some handled) :
    Interrupts.Keeps context c handled ∧ Respects linked c handled := by
  cases stub with
  | isr number =>
      cases isHandled
      exact ⟨.isrHandler, .isrHandler respectful⟩
  | irq line => exact ⟨.irqHandler isHandled, .irqHandler respectful isHandled⟩

/-- The stub gets to its handler. -/
theorem interrupt_called (installed : Installed linked s) (stack : StackApart linked low s.cpu)
    (handlers : Interrupts.Handlers) (single : stub.vector ∉ Interrupts.doubled)
    (errorCode : UInt32) (external : UInt16) :
    interrupt linked handlers stub.vector errorCode external s =
      match handle handlers stub (calledCpu linked stub errorCode s.cpu).top
        (calledCpu linked stub errorCode s.cpu) with
      | some handled => do
          let after ← (s.withCpu handled).execute (Interrupts.restoreContext stub.scratch)
          .ok (some after)
      | none => .ok none := by
  obtain ⟨calls, -, -, -⟩ := installed.called stack single errorCode
  obtain ⟨entered, enters, saves⟩ := Segmented.ok_of_bind calls
  have found : linked.image.code (s.withCpu
      (Interrupts.delivered linked.image stub errorCode s.cpu)).cpu.eip = some stub := by
    have eip : (Interrupts.delivered linked.image stub errorCode s.cpu).eip =
        linked.image.address stub := Interrupts.IdtEntry.base_of _ _ _
    rw [Segmented.withCpu, eip, linked.image.linked]
  simp only [interrupt, installed.deliver stack stub errorCode external, Segmented.ok_bind, found,
    stubRun, enters, saves]
  rfl

/-- Behind the tables that `init_gdt` and `init_idt` installed an interrupt is what it is
without segments, and the tables stay installed. -/
theorem interrupt_run (installed : Installed linked s) (stack : StackApart linked low s.cpu)
    {handlers : Interrupts.Handlers} (respectful : Respectful linked handlers)
    (single : stub.vector ∉ Interrupts.doubled) (errorCode : UInt32) (external : UInt16)
    (notVirtual : s.cpu.eflags &&& Segmented.virtualFlag = 0) :
    interrupt linked handlers stub.vector errorCode external s =
        .ok ((Interrupts.interrupt linked.image handlers stub.vector errorCode s.cpu).map
          fun c => s.withCpu c) ∧
      ∀ c, Interrupts.interrupt linked.image handlers stub.vector errorCode s.cpu = some c →
        Interrupts.Same s.cpu c ∧ Installed linked (s.withCpu c) := by
  have flatSegments : ∀ segment, s.cpu.segment segment = s.cpu.segment .ds := fun segment =>
    (installed.segments.segment segment).trans (installed.segments.segment .ds).symm
  have flatRun := flat_interrupt linked handlers stub errorCode s.cpu
  rw [interrupt_called installed stack handlers single errorCode external]
  cases isHandled : handle handlers stub (calledCpu linked stub errorCode s.cpu).top
      (calledCpu linked stub errorCode s.cpu) with
  | none =>
      rw [isHandled] at flatRun
      simp [flatRun]
  | some handled =>
      rw [isHandled] at flatRun
      obtain ⟨keeps, respects⟩ := handle_keeps respectful isHandled
      have same : Interrupts.Same s.cpu
          (handled.execute (Interrupts.restoreContext stub.scratch)) := by
        apply Interrupts.single_same single flatSegments
        rw [← Interrupts.interrupt_vector]
        exact flatRun
      obtain ⟨restores, after⟩ :=
        handled_run installed stack single errorCode notVirtual keeps respects same
      rw [flatRun]
      simp only [restores, Segmented.ok_bind, Option.map_some, Option.some.injEq]
      refine ⟨trivial, ?_⟩
      rintro c rfl
      exact ⟨same, after⟩

end Return

/-! ## Every run -/

/-- What happens to the kernel: its C code does something, or it is interrupted. -/
inductive Happening where
  | code
  | interrupt (stub : Interrupts.Stub) (errorCode : UInt32) (external : UInt16)

/-- C code in between leaves besides what `Respects` says the processor out of virtual mode. -/
structure Works (linked : Linked) (c after : Cpu) : Prop where
  respects : Respects linked c after
  notVirtual : after.eflags &&& Segmented.virtualFlag = c.eflags &&& Segmented.virtualFlag

/-- What happens without segments. Interrupts find room on a stack apart from the tables, and
the two exceptions with a doubled error code do not come. -/
inductive Happens (linked : Linked) (handlers : Interrupts.Handlers) : Cpu → Happening → Cpu → Prop
  | code {c after : Cpu} (works : Works linked c after) : Happens linked handlers c .code after
  | interrupt {c after : Cpu} {low : Nat} {stub : Interrupts.Stub} {errorCode : UInt32}
      {external : UInt16} (stack : StackApart linked low c)
      (single : stub.vector ∉ Interrupts.doubled)
      (returns : Interrupts.interrupt linked.image handlers stub.vector errorCode c = some after) :
      Happens linked handlers c (.interrupt stub errorCode external) after

/-- What happens on the processor with segments. -/
inductive HappensSegmented (linked : Linked) (handlers : Interrupts.Handlers) :
    Segmented → Happening → Segmented → Prop
  | code {s : Segmented} {after : Cpu} (works : Works linked s.cpu after) :
      HappensSegmented linked handlers s .code (s.withCpu after)
  | interrupt {s after : Segmented} {stub : Interrupts.Stub} {errorCode : UInt32}
      {external : UInt16}
      (returns : interrupt linked handlers stub.vector errorCode external s = .ok (some after)) :
      HappensSegmented linked handlers s (.interrupt stub errorCode external) after

section Runs

variable {linked : Linked} {handlers : Interrupts.Handlers} {s : Segmented} {c : Cpu}
  {happenings : List Happening}

/-- One happening without segments is one with them. -/
theorem happens_segmented (respectful : Respectful linked handlers) (installed : Installed linked s)
    (notVirtual : s.cpu.eflags &&& Segmented.virtualFlag = 0) {happening : Happening}
    (happens : Happens linked handlers s.cpu happening c) :
    HappensSegmented linked handlers s happening (s.withCpu c) ∧ Installed linked (s.withCpu c) ∧
      c.eflags &&& Segmented.virtualFlag = 0 := by
  cases happens with
  | code works =>
      have respects := works.respects
      refine ⟨.code works, ⟨?_, installed.idtr, fun vector => ?_⟩,
        works.notVirtual.trans notVirtual⟩
      · exact installed.segments.congr rfl rfl rfl respects.segment respects.cs respects.table
      · rw [← installed.gates vector]
        exact Bytes.read_congr fun address inside =>
          respects.gates address (entry_subset vector inside)
  | @interrupt _ low stub errorCode external stack single returns =>
      obtain ⟨runs, leaves⟩ :=
        interrupt_run installed stack respectful single errorCode external notVirtual
      obtain ⟨same, after⟩ := leaves c returns
      rw [returns] at runs
      exact ⟨.interrupt runs, after, same.eflags ▸ notVirtual⟩

/-- As long as the C code leaves the tables alone the processor with segments does what the
one without them does, interrupt by interrupt, and no interrupt ever faults. -/
theorem run_segmented (respectful : Respectful linked handlers) (installed : Installed linked s)
    (notVirtual : s.cpu.eflags &&& Segmented.virtualFlag = 0)
    (run : Reaches (Happens linked handlers) s.cpu happenings c) :
    Reaches (HappensSegmented linked handlers) s happenings (s.withCpu c) ∧
      Installed linked (s.withCpu c) ∧
      ∀ (stub : Interrupts.Stub) (low : Nat) (errorCode : UInt32) (external : UInt16),
        stub.vector ∉ Interrupts.doubled → StackApart linked low c →
        interrupt linked handlers stub.vector errorCode external (s.withCpu c) =
          .ok ((Interrupts.interrupt linked.image handlers stub.vector errorCode c).map
            fun after => s.withCpu after) := by
  have lockstep : Reaches (HappensSegmented linked handlers) s happenings (s.withCpu c) ∧
      Installed linked (s.withCpu c) ∧ c.eflags &&& Segmented.virtualFlag = 0 := by
    induction run with
    | refl => exact ⟨.refl, installed, notVirtual⟩
    | snoc run happens ih =>
        obtain ⟨soFar, there, flag⟩ := ih
        obtain ⟨step, after⟩ := happens_segmented respectful there flag happens
        exact ⟨soFar.snoc step, after⟩
  refine ⟨lockstep.1, lockstep.2.1, fun stub low errorCode external single stack => ?_⟩
  exact (interrupt_run lockstep.2.1 stack respectful single errorCode external lockstep.2.2).1

end Runs

/-! ## A kernel that boots -/

/-- The tables at the third megabyte, above the stubs. -/
def Linked.sample : Linked where
  gdtPtr := 0x00201000
  gdtEntries := 0x00201010
  idtPtr := 0x00201040
  idt := 0x00202000
  image := .sample
  flush := 0x00101000
  gdtFlushed := 0x00101100
  idtFlushed := 0x00101200
  gdtPtr_fits := by decide
  idtPtr_fits := by decide
  gdt_apart := Span.disjoint_of_le (by decide) (by decide)
  idt_apart := Span.disjoint_of_le (by decide) (by decide)
  idtPtr_apart := (Span.disjoint_of_le (by decide) (by decide)).symm
  tables_apart := (Span.disjoint_of_le (by decide) (by decide)).symm

/-- A processor as the boot loader leaves it. -/
def bootSegmented : Segmented where
  cpu := Interrupts.interruptedCpu
  ss := 0x18
  gdtr := ⟨0x1F, 0x9000⟩
  idtr := ⟨0, 0⟩
  cached := fun register => some (wholeMemory (if register = .cs then 0x9B else 0x93))

theorem callApart_sample {c : Cpu} (esp : c.general .esp = 0x002FF000) :
    CallApart .sample 0x002FEFF8 c where
  room := ⟨by rw [esp]; rfl, by decide⟩
  gdtPtr := (Span.disjoint_of_le (by decide) (by decide)).symm
  gdtEntries := (Span.disjoint_of_le (by decide) (by decide)).symm
  idtPtr := (Span.disjoint_of_le (by decide) (by decide)).symm
  idt := (Span.disjoint_of_le (by decide) (by decide)).symm

theorem stackApart_sample {c : Cpu} (esp : c.general .esp = 0x002FF000) :
    StackApart .sample 0x002FEFC4 c where
  room := ⟨by rw [esp]; rfl, by decide⟩
  table := (Span.disjoint_of_le (by decide) (by decide)).symm
  gates := (Span.disjoint_of_le (by decide) (by decide)).symm

theorem bootSegmented_flat : bootSegmented.FlatSegments := flat_of_cached fun _ => rfl

theorem bootSegmented_apart : CallApart .sample 0x002FEFF8 bootSegmented.cpu :=
  callApart_sample rfl

theorem tables_installed_sample : ∃ inKernel after,
    initGdt .sample bootSegmented = .ok inKernel ∧ initIdt .sample inKernel = .ok after ∧
      Installed .sample after := by
  obtain ⟨inKernel, runs, segments, -, general, next⟩ :=
    tables_installed bootSegmented_flat bootSegmented_apart
  obtain ⟨after, runs', installed, -⟩ := next inKernel.cpu _ rfl rfl (fun _ _ => rfl)
    (callApart_sample (general .esp (by decide)))
  exact ⟨inKernel, after, runs, runs', installed⟩

/-- The kernel once it has installed its tables. -/
theorem exists_installed : ∃ s : Segmented, Installed .sample s ∧
    s.cpu.general .esp = 0x002FF000 ∧ s.cpu.eflags = 0x202 := by
  have boot := bootSegmented_apart
  obtain ⟨inKernel, -, segments, -, -, eflags, -, general, -⟩ :=
    initGdt_run bootSegmented_flat boot.room boot.gdtPtr boot.gdtEntries
  have stack := callApart_sample (general .esp (by decide))
  obtain ⟨after, -, installed, -, eflags', general', -⟩ :=
    initIdt_run segments stack.room stack.idtPtr stack.idt stack.gdtEntries
  have esp := (general' .esp (by decide)).trans (general .esp (by decide))
  exact ⟨after, installed, esp, eflags'.trans eflags⟩

/-- A key, with C code that scratches what registers it may. -/
theorem run_segmented_keyboard : ∃ s c,
    Reaches (HappensSegmented .sample .scratching) s [.interrupt (.irq 1) 0 0] (s.withCpu c) ∧
      Installed .sample (s.withCpu c) := by
  obtain ⟨s, installed, esp, eflags⟩ := exists_installed
  have scratches : ∀ context c,
      Respects .sample c (Interrupts.Procedure.scratching.run context c) :=
    fun _ _ => ⟨rfl, rfl, rfl, fun _ _ => rfl, fun _ _ => rfl⟩
  have respectful : Respectful .sample .scratching := by
    refine ⟨scratches, scratches, ?_⟩
    rintro number _ ⟨⟩
    exact scratches
  obtain ⟨c, returns⟩ : ∃ after, Interrupts.interrupt Linked.sample.image .scratching
      (Interrupts.Stub.irq 1).vector 0 s.cpu = some after :=
    ⟨_, Interrupts.interrupt_vector⟩
  have happens : Happens .sample .scratching s.cpu (.interrupt (.irq 1) 0 0) c :=
    .interrupt (stackApart_sample esp) (by decide) returns
  have notVirtual : s.cpu.eflags &&& Segmented.virtualFlag = 0 := by
    rw [eflags]
    decide
  obtain ⟨run, after, -⟩ :=
    run_segmented respectful installed notVirtual (Reaches.refl.snoc happens)
  exact ⟨s, c, run, after⟩

end TorchOS.Descriptors
