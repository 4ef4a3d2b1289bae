import TorchOS.Base.Cpu
import TorchOS.Base.Run
import TorchOS.Tasking.Scheduler

/-!
# Switching between stacks

The part of `tasking.c` that `Tasking.Scheduler` leaves out: the stack
`create_kernel_task` prepares for a new task, and `switch_to_task_stub`, which keeps
the stack pointer of the task that gives way in its `process_t` and goes on with the
one it finds in the other's. Records and stacks lie in the processor's memory; the
globals of `tasking.c` do not.
-/

namespace TorchOS.Switching

open Base Tasking

/-! ## The fields of `process_t` -/

namespace Process

variable (task : TaskRef)

def pid : UInt32 := task
def taskName : UInt32 := task + 4
def kernelStackTop : UInt32 := task + 24
def pageDirectory : UInt32 := task + 28
def nextTask : UInt32 := task + 32
def state : UInt32 := task + 36
def timeUsed : UInt32 := task + 40

end Process

/-- `sizeof(process_t)` -/
def processSize : Nat := 44

/-- A task `create_kernel_task` made: its record, its stack area and the function it
was given, which is 0 for none. -/
structure Created where
  task : TaskRef
  stackArea : UInt32
  startEip : UInt32

/-- The processor and the globals of `tasking.c`. `created` is the history of
`create_kernel_task`; `calls` that of `switch_to_task_stub`, latest call first: the
task that made it and the processor as it was there, with `eip` after the call. -/
structure Tasks where
  cpu : Cpu
  previousTask : TaskRef
  currentTask : TaskRef
  nextAvailablePid : UInt32
  created : List Created
  calls : List (TaskRef × Cpu)

namespace Tasks

/-- The last call of the stub that a task made. -/
def lastCall (s : Tasks) (task : TaskRef) : Option Cpu :=
  (s.calls.find? fun call => call.1 = task).map Prod.snd

end Tasks

/-! ## The code -/

/-- `switch_to_task_stub`, with the value of the global `previous_task` -/
def switchToTaskStub (previousTask : TaskRef) : List Instruction :=
  [.push .ebx, .push .esi, .push .edi, .push .ebp,
   .set .edi previousTask,
   .store .edi 0x18 .esp,
   .load .esi .esp 20,
   .load .esp .esi 0x18,
   .load .eax .esi 0x1C,
   .readCr3 .ecx,
   .cmp .eax .ecx,
   .je (.writeCr3 .eax),
   .pop .ebp, .pop .edi, .pop .esi, .pop .ebx,
   .ret]

/-- `update_time`, with the time since the last switch. -/
def updateTime (elapsed : UInt32) (s : Tasks) : Tasks :=
  let timeUsed := Process.timeUsed s.currentTask
  let mem := s.cpu.mem.store32 timeUsed (s.cpu.mem.load32 timeUsed + elapsed)
  { s with cpu := { s.cpu with mem := mem } }

/-- The call of the stub: its argument and the return address are pushed. -/
def callStub (other : TaskRef) (s : Tasks) : Tasks :=
  let called := s.cpu.push other
  { s with
    cpu := (called.push called.eip).execute (switchToTaskStub s.previousTask)
    calls := (s.previousTask, called) :: s.calls }

/-- `switch_to_task`, up to where the other task goes on. -/
def switchToTask (other : TaskRef) (elapsed : UInt32) (s : Tasks) : Tasks :=
  let charged := updateTime elapsed s
  callStub other { charged with previousTask := charged.currentTask, currentTask := other }

/-- What `halloc` leaves in a block. Kept folded, so that no proof lists its zeros. -/
@[irreducible] def zeroed (mem : Bytes) (block : UInt32) (size : Nat) : Bytes :=
  mem.write block (List.replicate size 0)

/-- The record as `create_kernel_task` fills it in, where `halloc` returned the blocks
of `made`. -/
def recordMem (pageDirectory pid : UInt32) (made : Created) (mem : Bytes) : Bytes :=
  let mem := zeroed mem made.task processSize
  let mem := mem.store32 (Process.pid made.task) pid
  let mem := mem.write (Process.taskName made.task) [0x6E, 0x61, 0x6D, 0x65, 0x00]
  let mem := zeroed mem made.stackArea 4096
  let mem := mem.store32 (Process.kernelStackTop made.task) (made.stackArea + 1023 * 4)
  let mem := mem.store32 (Process.pageDirectory made.task) pageDirectory
  let mem := mem.store32 (Process.nextTask made.task) 0
  mem.store32 (Process.state made.task) 1

/-- The function is put on the stack, below it is room for four registers. -/
def stackMem (made : Created) (mem : Bytes) : Bytes :=
  let mem := mem.store32 (mem.load32 (Process.kernelStackTop made.task)) made.startEip
  mem.store32 (Process.kernelStackTop made.task)
    (mem.load32 (Process.kernelStackTop made.task) - 4 * 4)

/-- Memory as `create_kernel_task` leaves it. -/
def createdMem (pageDirectory pid : UInt32) (made : Created) (mem : Bytes) : Bytes :=
  if made.startEip ≠ 0 then stackMem made (recordMem pageDirectory pid made mem)
  else recordMem pageDirectory pid made mem

/-- `create_kernel_task` -/
def createKernelTask (pageDirectory : UInt32) (made : Created) (s : Tasks) : Tasks :=
  { s with
    cpu := { s.cpu with mem := createdMem pageDirectory s.nextAvailablePid made s.cpu.mem }
    nextAvailablePid := s.nextAvailablePid + 1
    created := made :: s.created }

/-! ## What the stub does -/

section Stub

variable (c : Cpu) (previousTask : TaskRef)

/-- The processor once the stub has saved the registers and the stack pointer. -/
def saved : Cpu :=
  c.execute [.push .ebx, .push .esi, .push .edi, .push .ebp, .set .edi previousTask,
    .store .edi 0x18 .esp]

/-- The processor when the stub is about to compare page directories. -/
def loaded : Cpu :=
  (saved c previousTask).execute [.load .esi .esp 20, .load .esp .esi 0x18, .load .eax .esi 0x1C,
    .readCr3 .ecx]

theorem switchToTaskStub_eq :
    c.execute (switchToTaskStub previousTask) =
      Cpu.execute [.pop .ebp, .pop .edi, .pop .esi, .pop .ebx, .ret]
        (((loaded c previousTask).step (.cmp .eax .ecx)).step (.je (.writeCr3 .eax))) := rfl

theorem saved_esp : (saved c previousTask).general .esp = c.general .esp - 16 := by
  have bytes : c.general .esp - 4 - 4 - 4 - 4 = c.general .esp - 16 := by grind
  simpa [saved, Cpu.step, Cpu.setGeneral] using bytes

/-- The processor once the registers are pushed. -/
def pushed : Cpu := c.execute [.push .ebx, .push .esi, .push .edi, .push .ebp]

theorem pushed_esp : (pushed c).general .esp = c.general .esp - 16 := by
  have bytes : c.general .esp - 4 - 4 - 4 - 4 = c.general .esp - 16 := by grind
  simpa [pushed, Cpu.step] using bytes

theorem saved_mem :
    (saved c previousTask).mem =
      (pushed c).mem.store32 (previousTask + 0x18) (c.general .esp - 16) := by
  rw [← pushed_esp]
  simp [saved, pushed, Cpu.step, Cpu.setGeneral]

variable {c previousTask}

/-- The registers are pushed on what was on the stack. -/
theorem pushed_stack {words : List UInt32} (stack : StackAt c.mem (c.general .esp) words)
    (fits : 4 * (words.length + 4) ≤ 2 ^ 32) :
    StackAt (pushed c).mem (c.general .esp - 16)
      (c.general .ebp :: c.general .edi :: c.general .esi :: c.general .ebx :: words) := by
  have ebx := stack.pushed (c.general .ebx) (by omega)
  have esi := ebx.pushed (c.general .esi) (by simp only [List.length_cons]; omega)
  have edi := esi.pushed (c.general .edi) (by simp only [List.length_cons]; omega)
  have ebp := edi.pushed (c.general .ebp) (by simp only [List.length_cons]; omega)
  rw [← pushed_esp]
  exact ebp

/-- Only the words of the registers change. -/
theorem pushed_of_notMem {address : UInt32} (outside : address ∉ Span (c.general .esp - 16) 16) :
    (pushed c).mem address = c.mem address := by
  have part : ∀ (offset : UInt32) {start : UInt32}, start = c.general .esp - 16 + offset →
      offset.toNat + 4 ≤ 16 → address ∉ Span start 4 := by
    rintro offset _ rfl fits inside
    exact outside (Span.shift_subset fits inside)
  simp only [pushed, Cpu.execute_cons, Cpu.execute_nil, Cpu.step, Cpu.push_mem, Cpu.push_esp]
  rw [Bytes.store32_of_notMem (part 0 (by grind) (by decide)),
    Bytes.store32_of_notMem (part 4 (by grind) (by decide)),
    Bytes.store32_of_notMem (part 8 (by grind) (by decide)),
    Bytes.store32_of_notMem (part 12 (by grind) (by decide))]

variable (c previousTask)

/-- Comparing the page directories changes only `cr3`, to the loaded one. -/
theorem compared (directory : c.general .ecx = c.cr3) :
    ((c.step (.cmp .eax .ecx)).step (.je (.writeCr3 .eax))).general = c.general ∧
      ((c.step (.cmp .eax .ecx)).step (.je (.writeCr3 .eax))).mem = c.mem ∧
      ((c.step (.cmp .eax .ecx)).step (.je (.writeCr3 .eax))).cr3 = c.general .eax := by
  rw [Cpu.cmp_je]
  by_cases same : c.general .eax = c.general .ecx
  · rw [if_pos same, same, directory]
    exact ⟨rfl, rfl, rfl⟩
  · rw [if_neg same]
    exact ⟨rfl, rfl, rfl⟩

/-- The processor goes on from what lies on the stack at `top`: the registers the stub
saves have been popped, and it has returned to the word above them. -/
structure Restored (mem : Bytes) (top : UInt32) (after : Cpu) : Prop where
  ebp : after.general .ebp = mem.load32 top
  edi : after.general .edi = mem.load32 (top + 4)
  esi : after.general .esi = mem.load32 (top + 8)
  ebx : after.general .ebx = mem.load32 (top + 12)
  eip : after.eip = mem.load32 (top + 16)
  esp : after.general .esp = top + 20

theorem restored :
    Restored c.mem (c.general .esp)
      (c.execute [.pop .ebp, .pop .edi, .pop .esi, .pop .ebx, .ret]) := by
  constructor <;> simp [Cpu.step, Cpu.pop, Cpu.ret, Cpu.top, Cpu.setGeneral, UInt32.add_assoc]

/-- The stub goes on from the stack pointer it finds in the record of the other task,
with its page directory. -/
theorem switchToTaskStub_run {other : TaskRef}
    (argument : (saved c previousTask).mem.load32 (c.general .esp + 4) = other) :
    (c.execute (switchToTaskStub previousTask)).mem = (saved c previousTask).mem ∧
      Restored (saved c previousTask).mem ((saved c previousTask).mem.load32 (other + 0x18))
        (c.execute (switchToTaskStub previousTask)) ∧
      (c.execute (switchToTaskStub previousTask)).cr3 =
        (saved c previousTask).mem.load32 (other + 0x1C) := by
  have slot : (saved c previousTask).general .esp + 20 = c.general .esp + 4 := by
    rw [saved_esp]
    grind
  have top : (loaded c previousTask).general .esp =
      (saved c previousTask).mem.load32 (other + 0x18) := by
    simp [loaded, Cpu.step, Cpu.setGeneral, slot, argument]
  have directory : (loaded c previousTask).general .eax =
      (saved c previousTask).mem.load32 (other + 0x1C) := by
    simp [loaded, Cpu.step, Cpu.setGeneral, slot, argument]
  have current : (loaded c previousTask).general .ecx = (loaded c previousTask).cr3 := by
    simp [loaded, Cpu.step, Cpu.setGeneral]
  have mem : (loaded c previousTask).mem = (saved c previousTask).mem := rfl
  obtain ⟨sameGeneral, sameMem, cr3⟩ := compared (loaded c previousTask) current
  have goesOn := restored
    (((loaded c previousTask).step (.cmp .eax .ecx)).step (.je (.writeCr3 .eax)))
  rw [sameGeneral, sameMem, top, mem] at goesOn
  rw [switchToTaskStub_eq]
  exact ⟨sameMem.trans mem, goesOn, cr3.trans directory⟩

/-- The processor on entry of the stub. -/
def entered (c : Cpu) (other : TaskRef) : Cpu := (c.push other).push (c.push other).eip

variable {c previousTask} {other : TaskRef}

theorem entered_esp : (entered c other).general .esp = c.general .esp - 8 := by
  have bytes : c.general .esp - 4 - 4 = c.general .esp - 8 := by grind
  simpa [entered] using bytes

/-- From the call to the saved stack pointer: the argument, the return address and the
registers are pushed. -/
theorem saved_stack
    (apart : Disjoint (Span (c.general .esp - 24) 24) (Span (previousTask + 0x18) 4)) :
    StackAt (saved (entered c other) previousTask).mem (c.general .esp - 24)
      [(c.push other).general .ebp, (c.push other).general .edi, (c.push other).general .esi,
        (c.push other).general .ebx, (c.push other).eip, other] := by
  have nothing : StackAt c.mem (c.general .esp) [] := .nil
  have argument : StackAt (c.push other).mem ((c.push other).general .esp) [other] :=
    nothing.pushed _ (by simp)
  have address : StackAt (entered c other).mem ((entered c other).general .esp)
      [(c.push other).eip, other] := argument.pushed _ (by simp)
  have registers := pushed_stack address (by simp)
  have bytes : (entered c other).general .esp - 16 = c.general .esp - 24 := by
    rw [entered_esp]
    grind
  have same : ∀ {register : Register}, register ≠ .esp →
      (entered c other).general register = (c.push other).general register :=
    fun notEsp => Cpu.push_other _ _ notEsp
  rw [bytes, same (by decide), same (by decide), same (by decide), same (by decide)] at registers
  rw [saved_mem]
  refine registers.congr fun address inside => Bytes.store32_of_notMem fun inRecord => ?_
  exact Set.disjoint_left.mp apart inside inRecord

theorem saved_of_notMem {address : UInt32} (outside : address ∉ Span (c.general .esp - 24) 24)
    (notTop : address ∉ Span (previousTask + 0x18) 4) :
    (saved (entered c other) previousTask).mem address = c.mem address := by
  have part : ∀ (offset : UInt32) {start : UInt32} {size : Nat},
      start = c.general .esp - 24 + offset → offset.toNat + size ≤ 24 →
        address ∉ Span start size := by
    rintro offset _ _ rfl fits inside
    exact outside (Span.shift_subset fits inside)
  rw [saved_mem, Bytes.store32_of_notMem notTop, pushed_of_notMem, entered, Cpu.push_mem,
    Bytes.store32_of_notMem, Cpu.push_mem, Bytes.store32_of_notMem]
  · exact part 20 (by grind) (by decide)
  · rw [Cpu.push_esp]
    exact part 16 (by grind) (by decide)
  · rw [entered_esp]
    exact part 0 (by grind) (by decide)

/-- The record of the task that gives way holds its stack pointer. -/
theorem saved_kernelStackTop :
    (saved (entered c other) previousTask).mem.load32 (previousTask + 0x18) =
      c.general .esp - 24 := by
  rw [saved_mem, Bytes.load32_store32, entered_esp]
  grind

/-- Memory when another task goes on. -/
def switchedMem (other : TaskRef) (elapsed : UInt32) (s : Tasks) : Bytes :=
  (saved (entered (updateTime elapsed s).cpu other) s.currentTask).mem

/-- A switch goes on from the stack pointer in the record of the other task. -/
theorem switchToTask_run {s : Tasks} {elapsed : UInt32}
    (apart : Disjoint (Span (s.cpu.general .esp - 24) 24) (Span (s.currentTask + 0x18) 4)) :
    (switchToTask other elapsed s).cpu.mem = switchedMem other elapsed s ∧
      Restored (switchedMem other elapsed s)
        ((switchedMem other elapsed s).load32 (Process.kernelStackTop other))
        (switchToTask other elapsed s).cpu ∧
      (switchToTask other elapsed s).cpu.cr3 =
        (switchedMem other elapsed s).load32 (Process.pageDirectory other) := by
  have stack : StackAt (switchedMem other elapsed s) (s.cpu.general .esp - 24) _ :=
    saved_stack apart
  simp only [StackAt.cons_iff, UInt32.add_assoc, UInt32.reduceAdd] at stack
  obtain ⟨_, _, _, _, _, argument, _⟩ := stack
  have slot : (entered (updateTime elapsed s).cpu other).general .esp + 4 =
      s.cpu.general .esp - 24 + 20 := by
    rw [entered_esp]
    change s.cpu.general .esp - 8 + 4 = s.cpu.general .esp - 24 + 20
    grind
  rw [← slot] at argument
  exact switchToTaskStub_run _ _ argument

/-- A switch changes only two fields of the task that gives way and its stack. -/
theorem switchedMem_of_notMem {s : Tasks} {elapsed address : UInt32}
    (notTop : address ∉ Span (Process.kernelStackTop s.currentTask) 4)
    (notTime : address ∉ Span (Process.timeUsed s.currentTask) 4)
    (notStack : address ∉ Span (s.cpu.general .esp - 24) 24) :
    switchedMem other elapsed s address = s.cpu.mem address := by
  have charged : (updateTime elapsed s).cpu.mem address = s.cpu.mem address :=
    Bytes.store32_of_notMem notTime
  rw [switchedMem, ← charged]
  exact saved_of_notMem notStack notTop

end Stub

/-! ## Runs -/

/-- The block of a record and the block of a stack. -/
def Created.region (made : Created) : Set UInt32 :=
  Span made.task processSize ∪ Span made.stackArea 4096

/-- How tasking starts: where `page_directory` and the stack of `boot.asm` lie, and the
blocks of the initial kernel task, which runs on that stack. -/
structure Boot where
  pageDirectory : UInt32
  kernelStackBottom : UInt32
  kernel : Created
  kernel_startEip : kernel.startEip = 0
  kernel_blocks : Disjoint (Span kernel.task processSize) (Span kernel.stackArea 4096)
  kernel_apart : Disjoint (Span kernelStackBottom 16384) kernel.region

namespace Boot

variable (boot : Boot)

/-- The stack set up in `boot.asm`. -/
def kernelStack : Set UInt32 := Span boot.kernelStackBottom 16384

/-- The stack a task runs on. -/
def stackOf (made : Created) : Set UInt32 :=
  if made.task = boot.kernel.task then boot.kernelStack else Span made.stackArea 4096

/-- The state in which the kernel task is made and becomes current, on any processor
that `init_paging` has given the page directory. -/
def start (cpu : Cpu) : Tasks :=
  { createKernelTask boot.pageDirectory boot.kernel
      { cpu := { cpu with cr3 := boot.pageDirectory }
        previousTask := 0
        currentTask := 0
        nextAvailablePid := 0
        created := []
        calls := [] } with
    currentTask := boot.kernel.task }

end Boot

/-- What a run is made of: the current task executes, makes a task, or switches to one,
`elapsed` ticks after the switch before. -/
inductive Event where
  | executes
  | creates (made : Created)
  | switches (other : TaskRef) (elapsed : UInt32)

/-- The current task leaves alone the stacks of other tasks and, in every record, the
two fields that the stub reads. -/
structure LeavesAlone (boot : Boot) (s : Tasks) (mem : Bytes) : Prop where
  records : ∀ made ∈ s.created, ∀ address ∈ Span (Process.kernelStackTop made.task) 8,
    mem address = s.cpu.mem address
  otherStacks : ∀ made ∈ s.created, made.task ≠ s.currentTask → ∀ address ∈ boot.stackOf made,
    mem address = s.cpu.mem address

/-- The blocks of a new task are apart from each other and from all that is in use. -/
structure Fresh (boot : Boot) (s : Tasks) (made : Created) : Prop where
  blocks : Disjoint (Span made.task processSize) (Span made.stackArea 4096)
  kernelStack : Disjoint boot.kernelStack made.region
  others : ∀ earlier ∈ s.created, Disjoint earlier.region made.region

/-- One step of a run. A task switches from its own stack, where the argument, the return
address and the four registers have room. -/
inductive Step (boot : Boot) (s : Tasks) : Event → Tasks → Prop where
  | executes {cpu : Cpu} (directory : cpu.cr3 = s.cpu.cr3)
      (alone : LeavesAlone boot s cpu.mem) : Step boot s .executes { s with cpu := cpu }
  | creates {made : Created} (function : made.startEip ≠ 0) (fresh : Fresh boot s made) :
      Step boot s (.creates made) (createKernelTask boot.pageDirectory made s)
  | switches {current other : Created} {elapsed : UInt32} (running : current ∈ s.created)
      (is_current : current.task = s.currentTask) (made : other ∈ s.created)
      (room : Span (s.cpu.general .esp - 24) 24 ⊆ boot.stackOf current) :
      Step boot s (.switches other.task elapsed) (switchToTask other.task elapsed s)

/-! ## The invariant -/

/-- The processor is where the task's call of the stub left it: after the call, with the
registers it had there. -/
structure Resumes (call after : Cpu) : Prop where
  ebx : after.general .ebx = call.general .ebx
  esi : after.general .esi = call.general .esi
  edi : after.general .edi = call.general .edi
  ebp : after.general .ebp = call.general .ebp
  esp : after.general .esp = call.general .esp
  eip : after.eip = call.eip

/-- The processor starts the function of a new task on an empty stack. -/
structure Starts (made : Created) (after : Cpu) : Prop where
  eip : after.eip = made.startEip
  esp : after.general .esp = made.stackArea + 4096

/-- What a task goes on with: its last call of the stub, or its function if it made none. -/
def Continues (made : Created) : Option Cpu → Cpu → Prop
  | some call => Resumes call
  | none => Starts made

/-- The stack that a task left, or got from `create_kernel_task`, holds what it goes on
with. -/
structure Suspended (boot : Boot) (s : Tasks) (made : Created) : Prop where
  onStack : Span (s.cpu.mem.load32 (Process.kernelStackTop made.task)) 20 ⊆ boot.stackOf made
  continues : ∀ {after}, Restored s.cpu.mem
    (s.cpu.mem.load32 (Process.kernelStackTop made.task)) after →
      Continues made (s.lastCall made.task) after

/-- What holds in every state of a run. -/
structure Consistent (boot : Boot) (s : Tasks) : Prop where
  kernel : boot.kernel ∈ s.created
  running : ∃ made ∈ s.created, made.task = s.currentTask
  callers : ∀ call ∈ s.calls, ∃ made ∈ s.created, made.task = call.1
  directory : s.cpu.cr3 = boot.pageDirectory
  directories : ∀ made ∈ s.created,
    s.cpu.mem.load32 (Process.pageDirectory made.task) = boot.pageDirectory
  blocks : ∀ made ∈ s.created, Disjoint (Span made.task processSize) (Span made.stackArea 4096)
  kernelStack : ∀ made ∈ s.created, Disjoint boot.kernelStack made.region
  apart : ∀ made ∈ s.created, ∀ other ∈ s.created, made ≠ other →
    Disjoint made.region other.region
  suspended : ∀ made ∈ s.created, made.task ≠ s.currentTask → Suspended boot s made

/-! ## Making a task -/

section Created

variable {mem : Bytes} {made : Created} {pageDirectory pid : UInt32} {address : UInt32}

theorem zeroed_of_notMem {block : UInt32} {size : Nat} (outside : address ∉ Span block size) :
    zeroed mem block size address = mem address := by
  unfold zeroed
  apply Bytes.write_of_notMem
  rwa [List.length_replicate]

theorem recordMem_of_notMem (outside : address ∉ made.region) :
    recordMem pageDirectory pid made mem address = mem address := by
  have inRecord : ∀ (field : UInt32), field.toNat + 4 ≤ processSize →
      address ∉ Span (made.task + field) 4 :=
    fun field fits inside => outside (.inl (field_subset fits inside))
  have outsidePid : address ∉ Span made.task 4 := by
    intro inside
    exact outside (.inl (Span.mono (by decide) inside))
  have outsideName : address ∉ Span (made.task + 4) 5 := by
    intro inside
    exact outside (.inl (Span.shift_subset (by decide) inside))
  simp only [recordMem, Process.state, Process.nextTask, Process.pageDirectory,
    Process.kernelStackTop, Process.taskName, Process.pid]
  rw [Bytes.store32_of_notMem (inRecord _ (by decide)),
    Bytes.store32_of_notMem (inRecord _ (by decide)),
    Bytes.store32_of_notMem (inRecord _ (by decide)),
    Bytes.store32_of_notMem (inRecord _ (by decide)),
    zeroed_of_notMem fun inside => outside (.inr inside),
    Bytes.write_of_notMem outsideName, Bytes.store32_of_notMem outsidePid,
    zeroed_of_notMem fun inside => outside (.inl inside)]

theorem recordMem_kernelStackTop :
    (recordMem pageDirectory pid made mem).load32 (Process.kernelStackTop made.task) =
      made.stackArea + 4092 := by
  simp (disch := decide) only [recordMem, Process.state, Process.nextTask, Process.pageDirectory,
    Process.kernelStackTop, load32_other_field, Bytes.load32_store32]
  rfl

theorem recordMem_pageDirectory :
    (recordMem pageDirectory pid made mem).load32 (Process.pageDirectory made.task) =
      pageDirectory := by
  simp (disch := decide) only [recordMem, Process.state, Process.nextTask, Process.pageDirectory,
    Process.kernelStackTop, load32_other_field, Bytes.load32_store32]

/-- The last word of a stack area lies apart from the fields of the record. -/
theorem field_apart_top (blocks : Disjoint (Span made.task processSize) (Span made.stackArea 4096))
    {field : UInt32} (inside : field.toNat + 4 ≤ processSize) :
    Disjoint (Span (made.task + field) 4) (Span (made.stackArea + 4092) 4) :=
  Set.disjoint_of_subset (field_subset inside) (Span.shift_subset (by decide)) blocks

theorem createdMem_of_notMem (outside : address ∉ made.region) :
    createdMem pageDirectory pid made mem address = mem address := by
  have outsideTop : address ∉ Span (made.stackArea + 4092) 4 := by
    intro inside
    exact outside (.inr (Span.shift_subset (by decide) inside))
  have outsideField : address ∉ Span (Process.kernelStackTop made.task) 4 := by
    intro inside
    exact outside (.inl (field_subset (by decide) inside))
  rw [createdMem]
  by_cases function : made.startEip = 0
  · rw [if_neg (not_not.mpr function), recordMem_of_notMem outside]
  · rw [if_pos function, stackMem, Bytes.store32_of_notMem outsideField, recordMem_kernelStackTop,
      Bytes.store32_of_notMem outsideTop, recordMem_of_notMem outside]

theorem createdMem_pageDirectory
    (blocks : Disjoint (Span made.task processSize) (Span made.stackArea 4096)) :
    (createdMem pageDirectory pid made mem).load32 (Process.pageDirectory made.task) =
      pageDirectory := by
  rw [createdMem]
  by_cases function : made.startEip = 0
  · rw [if_neg (not_not.mpr function), recordMem_pageDirectory]
  · rw [if_pos function, stackMem, Process.kernelStackTop, Process.pageDirectory,
      load32_other_field (by decide) (by decide) (by decide), ← Process.kernelStackTop,
      recordMem_kernelStackTop, Bytes.load32_store32_of_disjoint (field_apart_top blocks (by decide)),
      ← Process.pageDirectory, recordMem_pageDirectory]

/-- A task that has a function gets room for four registers below it. -/
theorem createdMem_kernelStackTop (function : made.startEip ≠ 0)
    (blocks : Disjoint (Span made.task processSize) (Span made.stackArea 4096)) :
    (createdMem pageDirectory pid made mem).load32 (Process.kernelStackTop made.task) =
      made.stackArea + 4076 := by
  have room : made.stackArea + 4092 - 4 * 4 = made.stackArea + 4076 := by grind
  have apart := field_apart_top blocks (by decide : (24 : UInt32).toNat + 4 ≤ processSize)
  rw [createdMem, if_pos function, stackMem, Bytes.load32_store32, recordMem_kernelStackTop,
    Process.kernelStackTop, Bytes.load32_store32_of_disjoint apart, ← Process.kernelStackTop,
    recordMem_kernelStackTop, room]

/-- The function of a new task lies in the last word of its stack area. -/
theorem createdMem_top (function : made.startEip ≠ 0)
    (blocks : Disjoint (Span made.task processSize) (Span made.stackArea 4096)) :
    (createdMem pageDirectory pid made mem).load32 (made.stackArea + 4092) = made.startEip := by
  have apart := field_apart_top blocks (by decide : (24 : UInt32).toNat + 4 ≤ processSize)
  rw [createdMem, if_pos function, stackMem, Process.kernelStackTop,
    Bytes.load32_store32_of_disjoint apart.symm, ← Process.kernelStackTop,
    recordMem_kernelStackTop, Bytes.load32_store32]

end Created

/-! ## The invariant -/

section Fields

variable {address : UInt32} {task : TaskRef}

/-- The two fields that the stub reads lie in the record. -/
theorem mem_record (inside : address ∈ Span (Process.kernelStackTop task) 8) :
    address ∈ Span task processSize :=
  Span.shift_subset (by decide) inside

theorem pageDirectory_mem_fields (inside : address ∈ Span (Process.pageDirectory task) 4) :
    address ∈ Span (Process.kernelStackTop task) 8 := by
  have start : Process.pageDirectory task = Process.kernelStackTop task + 4 := by
    rw [Process.pageDirectory, Process.kernelStackTop, UInt32.add_assoc]
    rfl
  rw [start] at inside
  exact Span.shift_subset (by decide) inside

end Fields

section Invariant

variable {boot : Boot} {s after : Tasks} {made other current : Created} {mem mem' : Bytes}
  {top : UInt32} {c call : Cpu}

theorem Restored.congr (restored : Restored mem' top c)
    (same : ∀ address ∈ Span top 20, mem' address = mem address) : Restored mem top c := by
  have word : ∀ (offset : UInt32), offset.toNat + 4 ≤ 20 →
      mem'.load32 (top + offset) = mem.load32 (top + offset) :=
    fun offset fits => load32_field_congr fits same
  have first : mem'.load32 top = mem.load32 top :=
    Bytes.load32_congr fun address inside => same address (Span.mono (by decide) inside)
  constructor
  · rw [restored.ebp, first]
  · rw [restored.edi, word 4 (by decide)]
  · rw [restored.esi, word 8 (by decide)]
  · rw [restored.ebx, word 12 (by decide)]
  · rw [restored.eip, word 16 (by decide)]
  · exact restored.esp

/-- A task whose registers lie on the stack goes on as it was at its call. -/
theorem Restored.resumes {rest : List UInt32} (restored : Restored mem top c)
    (stack : StackAt mem top (call.general .ebp :: call.general .edi :: call.general .esi ::
      call.general .ebx :: call.eip :: rest)) (esp : top + 20 = call.general .esp) :
    Resumes call c := by
  simp only [StackAt.cons_iff, UInt32.add_assoc, UInt32.reduceAdd] at stack
  obtain ⟨ebp, edi, esi, ebx, eip, _⟩ := stack
  constructor
  · rw [restored.ebx, ebx]
  · rw [restored.esi, esi]
  · rw [restored.edi, edi]
  · rw [restored.ebp, ebp]
  · rw [restored.esp, esp]
  · rw [restored.eip, eip]

/-- A suspended task stays so while its stack and the fields of its record are left
alone and it makes no call. -/
theorem Suspended.congr (suspended : Suspended boot s made)
    (fields : ∀ address ∈ Span (Process.kernelStackTop made.task) 8,
      after.cpu.mem address = s.cpu.mem address)
    (stack : ∀ address ∈ boot.stackOf made, after.cpu.mem address = s.cpu.mem address)
    (calls : after.lastCall made.task = s.lastCall made.task) : Suspended boot after made := by
  have top : after.cpu.mem.load32 (Process.kernelStackTop made.task) =
      s.cpu.mem.load32 (Process.kernelStackTop made.task) :=
    Bytes.load32_congr fun address inside => fields address (Span.mono (by decide) inside)
  constructor
  · rw [top]
    exact suspended.onStack
  · intro c restored
    rw [top] at restored
    rw [calls]
    exact suspended.continues (restored.congr fun address inside =>
      stack address (suspended.onStack inside))

namespace Consistent

/-- A record belongs to one task. -/
theorem eq_of_task (consistent : Consistent boot s) (isMade : made ∈ s.created)
    (otherMade : other ∈ s.created) (same : made.task = other.task) : made = other := by
  by_contra different
  have apart := consistent.apart made isMade other otherMade different
  have inRecord : ∀ task : TaskRef, task ∈ Span task processSize :=
    fun _ => Span.start_mem (by decide)
  refine Set.disjoint_left.mp apart (.inl (inRecord made.task)) (.inl ?_)
  rw [same]
  exact inRecord other.task

/-- No stack overlaps a record. -/
theorem stackOf_disjoint_record (consistent : Consistent boot s) (isMade : made ∈ s.created)
    (otherMade : other ∈ s.created) :
    Disjoint (boot.stackOf made) (Span other.task processSize) := by
  rw [Boot.stackOf]
  by_cases isKernel : made.task = boot.kernel.task
  · rw [if_pos isKernel]
    exact (consistent.kernelStack other otherMade).mono_right fun _ => .inl
  · rw [if_neg isKernel]
    by_cases same : made = other
    · subst same
      exact (consistent.blocks made isMade).symm
    · exact (consistent.apart made isMade other otherMade same).mono (fun _ => .inr) fun _ => .inl

/-- No two stacks overlap. -/
theorem stackOf_disjoint (consistent : Consistent boot s) (isMade : made ∈ s.created)
    (otherMade : other ∈ s.created) (different : made.task ≠ other.task) :
    Disjoint (boot.stackOf made) (boot.stackOf other) := by
  have regions : Disjoint made.region other.region :=
    consistent.apart made isMade other otherMade fun same => different (congrArg _ same)
  rw [Boot.stackOf, Boot.stackOf]
  by_cases isKernel : made.task = boot.kernel.task
  · rw [if_pos isKernel, if_neg fun otherKernel => different (isKernel.trans otherKernel.symm)]
    exact (consistent.kernelStack other otherMade).mono_right fun _ => .inr
  · rw [if_neg isKernel]
    by_cases otherKernel : other.task = boot.kernel.task
    · rw [if_pos otherKernel]
      exact (consistent.kernelStack made isMade).symm.mono_left fun _ => .inr
    · rw [if_neg otherKernel]
      exact regions.mono (fun _ => .inr) fun _ => .inr

/-- What the current task does keeps the invariant. -/
theorem executes (consistent : Consistent boot s) (directory : c.cr3 = s.cpu.cr3)
    (alone : LeavesAlone boot s c.mem) : Consistent boot { s with cpu := c } where
  kernel := consistent.kernel
  running := consistent.running
  callers := consistent.callers
  directory := directory.trans consistent.directory
  directories := by
    intro made isMade
    rw [← consistent.directories made isMade]
    exact Bytes.load32_congr fun address inside =>
      alone.records made isMade address (pageDirectory_mem_fields inside)
  blocks := consistent.blocks
  kernelStack := consistent.kernelStack
  apart := consistent.apart
  suspended := fun made isMade waits =>
    (consistent.suspended made isMade waits).congr (alone.records made isMade)
      (alone.otherStacks made isMade waits) rfl

/-- Memory that is in use lies apart from the blocks of a new task. -/
theorem fresh_outside {address : UInt32} (fresh : Fresh boot s made) (otherMade : other ∈ s.created)
    (inside : address ∈ boot.stackOf other ∪ Span other.task processSize) :
    address ∉ made.region := by
  have regions := fresh.others other otherMade
  rcases inside with inStack | inRecord
  · rw [Boot.stackOf] at inStack
    split at inStack
    · exact Set.disjoint_left.mp fresh.kernelStack inStack
    · exact Set.disjoint_left.mp regions (.inr inStack)
  · exact Set.disjoint_left.mp regions (.inl inRecord)

/-- A task that is made is new. -/
theorem fresh_task (fresh : Fresh boot s made) (otherMade : other ∈ s.created) :
    other.task ≠ made.task := by
  intro same
  have inRecord : other.task ∈ Span other.task processSize := Span.start_mem (by decide)
  have inNew : other.task ∈ made.region := by
    rw [same] at inRecord ⊢
    exact .inl inRecord
  exact fresh_outside fresh otherMade (.inr inRecord) inNew

/-- A task that never called the stub has no last call. -/
theorem lastCall_fresh (consistent : Consistent boot s) (fresh : Fresh boot s made) :
    s.lastCall made.task = none := by
  rw [Tasks.lastCall, List.find?_eq_none.mpr]
  · rfl
  · intro call isCall
    obtain ⟨caller, callerMade, same⟩ := consistent.callers call isCall
    have different := fresh_task fresh callerMade
    rw [same] at different
    simpa using different

/-- A new task is suspended before its function. -/
theorem created_suspended (consistent : Consistent boot s) (function : made.startEip ≠ 0)
    (fresh : Fresh boot s made) :
    Suspended boot (createKernelTask boot.pageDirectory made s) made := by
  have notKernel : made.task ≠ boot.kernel.task := (fresh_task fresh consistent.kernel).symm
  have noCall : (createKernelTask boot.pageDirectory made s).lastCall made.task = none :=
    consistent.lastCall_fresh fresh
  have top : (createKernelTask boot.pageDirectory made s).cpu.mem.load32
      (Process.kernelStackTop made.task) = made.stackArea + 4076 :=
    createdMem_kernelStackTop function fresh.blocks
  have start : (createKernelTask boot.pageDirectory made s).cpu.mem.load32
      (made.stackArea + 4092) = made.startEip :=
    createdMem_top function fresh.blocks
  have slot : made.stackArea + 4076 + 16 = made.stackArea + 4092 := by grind
  constructor
  · rw [top, Boot.stackOf, if_neg notKernel]
    exact Span.shift_subset (by decide)
  · intro c restored
    rw [top] at restored
    rw [noCall]
    constructor
    · rw [restored.eip, slot, start]
    · rw [restored.esp]
      grind

/-- Making a task keeps the invariant. -/
theorem creates (consistent : Consistent boot s) (function : made.startEip ≠ 0)
    (fresh : Fresh boot s made) :
    Consistent boot (createKernelTask boot.pageDirectory made s) := by
  have kept : ∀ other ∈ s.created, ∀ address ∈ boot.stackOf other ∪ Span other.task processSize,
      (createKernelTask boot.pageDirectory made s).cpu.mem address = s.cpu.mem address :=
    fun other otherMade address inside => createdMem_of_notMem (fresh_outside fresh otherMade inside)
  constructor
  · exact List.mem_cons_of_mem _ consistent.kernel
  · obtain ⟨current, currentMade, running⟩ := consistent.running
    exact ⟨current, List.mem_cons_of_mem _ currentMade, running⟩
  · intro call isCall
    obtain ⟨caller, callerMade, same⟩ := consistent.callers call isCall
    exact ⟨caller, List.mem_cons_of_mem _ callerMade, same⟩
  · exact consistent.directory
  · intro other member
    rcases List.mem_cons.mp member with rfl | otherMade
    · exact createdMem_pageDirectory fresh.blocks
    · refine (Bytes.load32_congr fun address inside => ?_).trans
        (consistent.directories other otherMade)
      exact kept other otherMade address (.inr (mem_record (pageDirectory_mem_fields inside)))
  · intro other member
    rcases List.mem_cons.mp member with rfl | otherMade
    · exact fresh.blocks
    · exact consistent.blocks other otherMade
  · intro other member
    rcases List.mem_cons.mp member with rfl | otherMade
    · exact fresh.kernelStack
    · exact consistent.kernelStack other otherMade
  · intro left leftMember right rightMember different
    rcases List.mem_cons.mp leftMember with rfl | leftMade
    · rcases List.mem_cons.mp rightMember with rfl | rightMade
      · exact absurd rfl different
      · exact (fresh.others right rightMade).symm
    · rcases List.mem_cons.mp rightMember with rfl | rightMade
      · exact fresh.others left leftMade
      · exact consistent.apart left leftMade right rightMade different
  · intro other member waits
    rcases List.mem_cons.mp member with rfl | otherMade
    · exact consistent.created_suspended function fresh
    · refine (consistent.suspended other otherMade waits).congr ?_ ?_ rfl
      · exact fun address inside => kept other otherMade address (.inr (mem_record inside))
      · exact fun address inside => kept other otherMade address (.inl inside)

section Switched

variable {elapsed : UInt32} (consistent : Consistent boot s) (currentMade : current ∈ s.created)
  (running : current.task = s.currentTask)
  (room : Span (s.cpu.general .esp - 24) 24 ⊆ boot.stackOf current)
include consistent currentMade room

/-- What is pushed for the switch lies apart from every record. -/
theorem room_apart (isMade : made ∈ s.created) :
    Disjoint (Span (s.cpu.general .esp - 24) 24) (Span made.task processSize) :=
  (consistent.stackOf_disjoint_record currentMade isMade).mono_left room

include running

variable (other elapsed)

/-- The other task goes on from its stack pointer. -/
theorem switched :
    (switchToTask other.task elapsed s).cpu.mem = switchedMem other.task elapsed s ∧
      Restored (switchedMem other.task elapsed s)
        ((switchedMem other.task elapsed s).load32 (Process.kernelStackTop other.task))
        (switchToTask other.task elapsed s).cpu ∧
      (switchToTask other.task elapsed s).cpu.cr3 =
        (switchedMem other.task elapsed s).load32 (Process.pageDirectory other.task) := by
  apply switchToTask_run
  have records := consistent.room_apart currentMade room currentMade
  rw [← running]
  exact records.mono_right (field_subset (by decide))

/-- Other tasks keep their stacks and records. -/
theorem switched_elsewhere {address : UInt32} (isMade : made ∈ s.created)
    (waits : made.task ≠ s.currentTask)
    (inside : address ∈ boot.stackOf made ∪ Span made.task processSize) :
    switchedMem other.task elapsed s address = s.cpu.mem address := by
  have different : made.task ≠ current.task := by rwa [running]
  have notRecord : address ∉ Span s.currentTask processSize := by
    rw [← running]
    rcases inside with inStack | inRecord
    · exact Set.disjoint_left.mp (consistent.stackOf_disjoint_record isMade currentMade) inStack
    · have regions := consistent.apart made isMade current currentMade
        fun same => different (congrArg _ same)
      exact fun inCurrent => Set.disjoint_left.mp regions (.inl inRecord) (.inl inCurrent)
  apply switchedMem_of_notMem
  · exact fun inField => notRecord (field_subset (by decide) inField)
  · exact fun inField => notRecord (field_subset (by decide) inField)
  · rcases inside with inStack | inRecord
    · exact fun pushed => Set.disjoint_left.mp
        (consistent.stackOf_disjoint isMade currentMade different) inStack (room pushed)
    · exact fun pushed => Set.disjoint_left.mp
        (consistent.room_apart currentMade room isMade) pushed inRecord

/-- The stack of the task that gives way holds its call. -/
theorem switched_current : Suspended boot (switchToTask other.task elapsed s) current := by
  obtain ⟨mem, -, -⟩ := consistent.switched other elapsed currentMade running room
  have records := consistent.room_apart currentMade room currentMade
  have apart : Disjoint (Span (s.cpu.general .esp - 24) 24) (Span (s.currentTask + 0x18) 4) := by
    rw [← running]
    exact records.mono_right (field_subset (by decide))
  have top : (switchedMem other.task elapsed s).load32 (Process.kernelStackTop current.task) =
      s.cpu.general .esp - 24 := by
    rw [running]
    exact saved_kernelStackTop
  have call : (switchToTask other.task elapsed s).lastCall current.task =
      some ((updateTime elapsed s).cpu.push other.task) := by
    rw [running]
    simp [Tasks.lastCall, switchToTask, callStub, updateTime]
  constructor
  · rw [mem, top]
    exact fun address inside => room (Span.mono (by decide) inside)
  · intro c restored
    rw [mem, top] at restored
    rw [call]
    have stack : StackAt (switchedMem other.task elapsed s) (s.cpu.general .esp - 24) _ :=
      saved_stack apart
    refine restored.resumes stack ?_
    rw [Cpu.push_esp]
    change s.cpu.general .esp - 24 + 20 = s.cpu.general .esp - 4
    grind

/-- After a switch the stack of every task holds what it goes on with. -/
theorem switched_suspended (isMade : made ∈ s.created) :
    Suspended boot (switchToTask other.task elapsed s) made := by
  by_cases isCurrent : made.task = s.currentTask
  · have same := consistent.eq_of_task isMade currentMade (isCurrent.trans running.symm)
    subst same
    exact consistent.switched_current other elapsed currentMade running room
  · obtain ⟨mem, -, -⟩ := consistent.switched other elapsed currentMade running room
    have kept : ∀ {address : UInt32}, address ∈ boot.stackOf made ∪ Span made.task processSize →
        switchedMem other.task elapsed s address = s.cpu.mem address :=
      consistent.switched_elsewhere other elapsed currentMade running room isMade isCurrent
    refine (consistent.suspended made isMade isCurrent).congr ?_ ?_ ?_
    · intro address inside
      rw [mem]
      exact kept (.inr (mem_record inside))
    · intro address inside
      rw [mem]
      exact kept (.inl inside)
    · have notCaller : s.currentTask ≠ made.task := fun same => isCurrent same.symm
      simp [Tasks.lastCall, switchToTask, callStub, updateTime, notCaller]

/-- Every task keeps its page directory. -/
theorem switched_directories (isMade : made ∈ s.created) :
    (switchedMem other.task elapsed s).load32 (Process.pageDirectory made.task) =
      boot.pageDirectory := by
  refine (Bytes.load32_congr fun address inside => ?_).trans (consistent.directories made isMade)
  have inRecord := mem_record (pageDirectory_mem_fields inside)
  by_cases isCurrent : made.task = s.currentTask
  · rw [isCurrent] at inside
    apply switchedMem_of_notMem
    · exact Set.disjoint_left.mp (Span.shift_disjoint (by decide) (by decide)).symm inside
    · exact Set.disjoint_left.mp (Span.shift_disjoint (by decide) (by decide)) inside
    · exact Set.disjoint_right.mp (consistent.room_apart currentMade room isMade) inRecord
  · exact consistent.switched_elsewhere other elapsed currentMade running room isMade isCurrent
      (.inr inRecord)

/-- A switch keeps the invariant. -/
theorem switches (otherMade : other ∈ s.created) :
    Consistent boot (switchToTask other.task elapsed s) := by
  obtain ⟨mem, -, cr3⟩ := consistent.switched other elapsed currentMade running room
  have directories : ∀ made ∈ s.created,
      (switchedMem other.task elapsed s).load32 (Process.pageDirectory made.task) =
        boot.pageDirectory :=
    fun _ isMade => consistent.switched_directories other elapsed currentMade running room isMade
  constructor
  · exact consistent.kernel
  · exact ⟨other, otherMade, rfl⟩
  · intro call isCall
    rcases List.mem_cons.mp isCall with rfl | earlier
    · exact ⟨current, currentMade, running⟩
    · exact consistent.callers call earlier
  · rw [cr3]
    exact directories other otherMade
  · intro made isMade
    rw [mem]
    exact directories made isMade
  · exact consistent.blocks
  · exact consistent.kernelStack
  · exact consistent.apart
  · intro made isMade _
    exact consistent.switched_suspended other elapsed currentMade running room isMade

/-- The other task goes on as it must. -/
theorem switched_continues (otherMade : other ∈ s.created) :
    Continues other ((switchToTask other.task elapsed s).lastCall other.task)
      (switchToTask other.task elapsed s).cpu := by
  obtain ⟨mem, restored, -⟩ := consistent.switched other elapsed currentMade running room
  have suspended := consistent.switched_suspended other elapsed currentMade running room otherMade
  rw [← mem] at restored
  exact suspended.continues restored

end Switched

/-- The kernel task runs on the stack of `boot.asm` when tasking starts. -/
theorem start (boot : Boot) (cpu : Cpu) : Consistent boot (boot.start cpu) := by
  have only : ∀ {made : Created}, made ∈ (boot.start cpu).created → made = boot.kernel :=
    fun member => List.mem_singleton.mp member
  constructor
  · exact List.mem_singleton.mpr rfl
  · exact ⟨boot.kernel, List.mem_singleton.mpr rfl, rfl⟩
  · intro call isCall
    cases isCall
  · rfl
  · intro made isMade
    rw [only isMade]
    exact createdMem_pageDirectory boot.kernel_blocks
  · intro made isMade
    rw [only isMade]
    exact boot.kernel_blocks
  · intro made isMade
    rw [only isMade]
    exact boot.kernel_apart
  · intro left leftMade right rightMade different
    exact absurd ((only leftMade).trans (only rightMade).symm) different
  · intro made isMade waits
    rw [only isMade] at waits
    exact absurd rfl waits

/-- Every step keeps the invariant. -/
theorem step {event : Event} (consistent : Consistent boot s) (taken : Step boot s event after) :
    Consistent boot after := by
  cases taken with
  | executes directory alone => exact consistent.executes directory alone
  | creates function fresh => exact consistent.creates function fresh
  | switches currentMade running otherMade room =>
      exact consistent.switches _ _ currentMade running room otherMade

end Consistent

end Invariant

/-! ## Which tasks have run -/

/-- The task has run: it is the initial one, or there was a switch to it. -/
def Ran (boot : Boot) (events : List Event) (task : TaskRef) : Prop :=
  task = boot.kernel.task ∨ ∃ elapsed, .switches task elapsed ∈ events

/-- The calls of the stub tell which tasks have run. -/
structure Recorded (boot : Boot) (events : List Event) (s : Tasks) : Prop where
  consistent : Consistent boot s
  running : Ran boot events s.currentTask
  made : ∀ task, Ran boot events task → ∃ made ∈ s.created, made.task = task
  called : ∀ made ∈ s.created, made.task ≠ s.currentTask →
    (s.lastCall made.task ≠ none ↔ Ran boot events made.task)

section History

variable {boot : Boot} {s after : Tasks} {events : List Event} {task : TaskRef}

theorem ran_snoc {event : Event} :
    Ran boot (events ++ [event]) task ↔
      Ran boot events task ∨ ∃ elapsed, event = .switches task elapsed := by
  simp only [Ran, List.mem_append, List.mem_singleton, exists_or, or_assoc, eq_comm]

theorem ran_snoc_switches {other : TaskRef} {elapsed : UInt32} :
    Ran boot (events ++ [.switches other elapsed]) task ↔ Ran boot events task ∨ task = other := by
  rw [ran_snoc]
  simp [eq_comm]

namespace Recorded

theorem start (boot : Boot) (cpu : Cpu) : Recorded boot [] (boot.start cpu) where
  consistent := .start boot cpu
  running := .inl rfl
  made := by
    rintro task (rfl | ⟨_, member⟩)
    · exact ⟨boot.kernel, List.mem_singleton.mpr rfl, rfl⟩
    · cases member
  called := by
    intro made isMade waits
    rw [List.mem_singleton.mp isMade] at waits
    exact absurd rfl waits

/-- After a switch the tasks with a call behind them are those that ran before it. -/
theorem switched_called {made : Created} (other : TaskRef) (elapsed : UInt32)
    (recorded : Recorded boot events s) (isMade : made ∈ s.created) :
    (switchToTask other elapsed s).lastCall made.task ≠ none ↔ Ran boot events made.task := by
  by_cases isCurrent : made.task = s.currentTask
  · have ran := recorded.running
    rw [← isCurrent] at ran
    simp [Tasks.lastCall, switchToTask, callStub, updateTime, isCurrent.symm, ran]
  · have notCaller : s.currentTask ≠ made.task := fun same => isCurrent same.symm
    have same : (switchToTask other elapsed s).lastCall made.task = s.lastCall made.task := by
      simp [Tasks.lastCall, switchToTask, callStub, updateTime, notCaller]
    rw [same]
    exact recorded.called made isMade isCurrent

theorem step {event : Event} (recorded : Recorded boot events s)
    (taken : Step boot s event after) : Recorded boot (events ++ [event]) after := by
  have consistent := recorded.consistent.step taken
  cases taken with
  | executes directory alone =>
      have same : ∀ {task : TaskRef}, Ran boot (events ++ [.executes]) task ↔
          Ran boot events task := by
        simp [ran_snoc]
      refine ⟨consistent, same.mpr recorded.running, fun task ran => ?_, fun made isMade waits => ?_⟩
      · exact recorded.made task (same.mp ran)
      · rw [same]
        exact recorded.called made isMade waits
  | @creates new function fresh =>
      have same : ∀ {task : TaskRef}, Ran boot (events ++ [.creates new]) task ↔
          Ran boot events task := by
        simp [ran_snoc]
      refine ⟨consistent, same.mpr recorded.running, fun task ran => ?_, fun made member waits => ?_⟩
      · obtain ⟨earlier, earlierMade, isTask⟩ := recorded.made task (same.mp ran)
        exact ⟨earlier, List.mem_cons_of_mem _ earlierMade, isTask⟩
      · rw [same]
        rcases List.mem_cons.mp member with rfl | isMade
        · have noCall := recorded.consistent.lastCall_fresh fresh
          refine ⟨fun called => absurd noCall called, fun ran => ?_⟩
          obtain ⟨earlier, earlierMade, isTask⟩ := recorded.made made.task ran
          exact absurd isTask (Consistent.fresh_task fresh earlierMade)
        · exact recorded.called made isMade waits
  | @switches current other elapsed currentMade running otherMade room =>
      have more : ∀ {task : TaskRef}, Ran boot (events ++ [.switches other.task elapsed]) task ↔
          Ran boot events task ∨ task = other.task := ran_snoc_switches
      refine ⟨consistent, more.mpr (.inr rfl), fun task ran => ?_, fun made isMade waits => ?_⟩
      · rcases more.mp ran with before | rfl
        · exact recorded.made task before
        · exact ⟨other, otherMade, rfl⟩
      · have notOther : made.task ≠ other.task := waits
        rw [more, or_iff_left notOther]
        exact recorded.switched_called other.task elapsed isMade

theorem run {cpu : Cpu} (run : Reaches (Step boot) (boot.start cpu) events s) :
    Recorded boot events s := by
  induction run with
  | refl => exact .start boot cpu
  | snoc _ taken ih => exact ih.step taken

end Recorded

end History

/-- In every run, a task switched to for the first time starts its function at the end
of its stack area, and one that ran before goes on after its last call of the stub. -/
theorem switch_resumes {boot : Boot} {cpu : Cpu} {events : List Event} {s after : Tasks}
    {other : TaskRef} {elapsed : UInt32}
    (run : Reaches (Step boot) (boot.start cpu) events s)
    (switched : Step boot s (.switches other elapsed) after) :
    (¬ Ran boot events other → ∀ made ∈ s.created, made.task = other → Starts made after.cpu) ∧
    (Ran boot events other →
      ∃ call, after.lastCall other = some call ∧ Resumes call after.cpu) := by
  have recorded := Recorded.run run
  cases switched with
  | @switches current other _ currentMade running otherMade room =>
      have continues := recorded.consistent.switched_continues other elapsed currentMade running
        room otherMade
      have called := recorded.switched_called other.task elapsed otherMade
      constructor
      · intro first made isMade same
        have noCall : (switchToTask other.task elapsed s).lastCall other.task = none := by
          by_contra someCall
          exact first (called.mp someCall)
        rw [noCall] at continues
        rw [recorded.consistent.eq_of_task isMade otherMade same]
        exact continues
      · intro ran
        obtain ⟨call, isCall⟩ := Option.ne_none_iff_exists'.mp (called.mpr ran)
        rw [isCall] at continues
        exact ⟨call, isCall, continues⟩

/-- The kernel stack below the kernel's end, and the first blocks of the heap. -/
def Boot.sample : Boot where
  pageDirectory := 0x00200000
  kernelStackBottom := 0x002FC000
  kernel := ⟨0x0F000000, 0x0F001000, 0⟩
  kernel_startEip := rfl
  kernel_blocks := Span.disjoint_of_le (by decide) (by decide)
  kernel_apart := Set.disjoint_union_right.mpr
    ⟨Span.disjoint_of_le (by decide) (by decide), Span.disjoint_of_le (by decide) (by decide)⟩

/-- A task made next, for a function of the kernel. -/
def sampleTask : Created := ⟨0x0F002000, 0x0F003000, 0x00101000⟩

/-- A processor on the kernel stack. -/
def sampleCpu : Cpu where
  general := fun _ => 0x002FF000
  segment := fun _ => 0x10
  cs := 0x08
  eip := 0x00100000
  eflags := 0x202
  cr3 := 0x00200000
  mem := fun _ => 0

theorem switch_resumes_new_task :
    ∃ s after, Step Boot.sample s (.switches sampleTask.task 0) after ∧
      Starts sampleTask after.cpu := by
  have fresh : Fresh Boot.sample (Boot.sample.start sampleCpu) sampleTask := by
    refine ⟨Span.disjoint_of_le (by decide) (by decide), ?_, ?_⟩
    · exact Set.disjoint_union_right.mpr
        ⟨Span.disjoint_of_le (by decide) (by decide), Span.disjoint_of_le (by decide) (by decide)⟩
    · intro earlier member
      rw [List.mem_singleton.mp member]
      refine Set.disjoint_union_left.mpr ⟨?_, ?_⟩ <;>
        exact Set.disjoint_union_right.mpr
          ⟨Span.disjoint_of_le (by decide) (by decide), Span.disjoint_of_le (by decide) (by decide)⟩
  have made : Reaches (Step Boot.sample) (Boot.sample.start sampleCpu) [.creates sampleTask]
      (createKernelTask Boot.sample.pageDirectory sampleTask (Boot.sample.start sampleCpu)) :=
    .snoc .refl (.creates (by decide) fresh)
  have isMade : sampleTask ∈ (createKernelTask Boot.sample.pageDirectory sampleTask
      (Boot.sample.start sampleCpu)).created := List.mem_cons_self
  have room : Span ((0x002FF000 : UInt32) - 24) 24 ⊆ Boot.sample.stackOf Boot.sample.kernel := by
    have inside : (0x002FF000 : UInt32) - 24 = 0x002FC000 + 0x2FE8 := rfl
    rw [Boot.stackOf, if_pos rfl, inside]
    exact Span.shift_subset (by decide)
  have switched : Step Boot.sample (createKernelTask Boot.sample.pageDirectory sampleTask
      (Boot.sample.start sampleCpu)) (.switches sampleTask.task 0) _ :=
    .switches (List.mem_cons_of_mem _ (List.mem_singleton.mpr rfl)) rfl isMade room
  refine ⟨_, _, switched, (switch_resumes made switched).1 ?_ sampleTask isMade rfl⟩
  rintro (isKernel | ⟨_, member⟩)
  · exact absurd isKernel (by decide)
  · cases List.mem_singleton.mp member

end TorchOS.Switching
