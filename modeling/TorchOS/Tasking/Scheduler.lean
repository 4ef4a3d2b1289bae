import TorchOS.Machine
import Mathlib.Logic.Function.Basic

/-!
# The scheduler of `tasking.c` and the timer it reads

Tasks are records reached through pointers: a `TaskRef` is the address of a
`process_t`, and a pointer that may be `NULL` is an `Option TaskRef`. A call that
switches tasks is modelled up to the switch: what follows it runs only when some
task switches back.
-/

namespace TorchOS.Tasking

open Base Base.Program

/-- The address of a `process_t`. -/
abbrev TaskRef := UInt32

/-- `RUNNING`, `READY_TO_RUN`, `BLOCKED` and `TERMINATED` -/
inductive TaskState where
  | running
  | readyToRun
  | blocked
  | terminated
  deriving DecidableEq

/-- `process_t`, without the stack pointer and page directory that only
`switch_to_task_stub` reads. -/
structure Process where
  pid : UInt32
  taskName : String
  nextTask : Option TaskRef
  state : TaskState
  timeUsed : UInt32

/-- `list_t` -/
structure TaskList where
  head : Option TaskRef
  tail : Option TaskRef
  deriving DecidableEq

/-- The lists `tasking.c` declares. -/
inductive Queue where
  | readyToRun
  | blocked
  | waiting
  | terminated
  deriving DecidableEq

/-- The process records and the globals of `tasking.c` and `timer.c`. `messages`
lists the tick counts at which `timer_callback` printed its message. -/
structure Scheduler where
  process : TaskRef → Process
  previousTask : Option TaskRef
  currentTask : Option TaskRef
  queues : Queue → TaskList
  lastTime : UInt32
  nextAvailablePid : UInt32
  ticks : UInt32
  messages : List UInt32

/-- Code of `tasking.c` and `timer.c`. -/
abbrev Code := Program Halt Scheduler

namespace Scheduler

/-- The `next_task` pointers. -/
def next (s : Scheduler) (task : TaskRef) : Option TaskRef := (s.process task).nextTask

/-- Change one process record. -/
def modify (task : TaskRef) (change : Process → Process) (s : Scheduler) : Scheduler :=
  { s with process := Function.update s.process task (change (s.process task)) }

def setNextTask (task : TaskRef) (target : Option TaskRef) : Scheduler → Scheduler :=
  modify task fun process => { process with nextTask := target }

def setState (task : TaskRef) (state : TaskState) : Scheduler → Scheduler :=
  modify task fun process => { process with state := state }

def addTime (task : TaskRef) (elapsed : UInt32) : Scheduler → Scheduler :=
  modify task fun process => { process with timeUsed := process.timeUsed + elapsed }

/-- Change one list. -/
def setQueue (queue : Queue) (list : TaskList) (s : Scheduler) : Scheduler :=
  { s with queues := Function.update s.queues queue list }

end Scheduler

/-! ## `timer.c` -/

/-- `TIMER_FREQUENCY` -/
def timerFrequency : UInt32 := 1000

/-- `read_timer` -/
def readTimer : Code UInt32 := read Scheduler.ticks

/-- `elapsed_time`: the wrapped case is computed in 64 bits and truncated. -/
def elapsedTime (start finish : UInt32) : UInt32 :=
  if finish ≥ start then finish - start
  else (0xFFFFFFFFFFFFFFFF - start.toUInt64 + finish.toUInt64).toUInt32

/-- `timer_callback` -/
def timerCallback : Code Unit :=
  update fun s =>
    { s with
      ticks := s.ticks + 1
      messages := if (s.ticks + 1) % timerFrequency = 0 then s.messages ++ [s.ticks + 1]
        else s.messages }

/-! ## `tasking.c` -/

/-- Use a pointer to reach the field at `offset`; through `NULL` that faults. -/
def deref (pointer : Option TaskRef) (offset : UInt32) : Code TaskRef :=
  match pointer with
  | some task => pure task
  | none => halt (.pageFault offset)

/-- `enqueue_task` -/
def enqueueTask (queue : Queue) (proc : TaskRef) : Code Unit := do
  let list ← read fun s => s.queues queue
  if list.head = none then
    update (Scheduler.setQueue queue { head := some proc, tail := some proc })
  else
    let tail ← deref list.tail 0x20
    update (Scheduler.setNextTask tail (some proc))
    update (Scheduler.setNextTask proc none)
    update (Scheduler.setQueue queue { list with tail := some proc })

/-- `update_time` -/
def updateTime : Code Unit := do
  let currentTime ← readTimer
  let lastTime ← read Scheduler.lastTime
  update fun s => { s with lastTime := currentTime }
  let current ← deref (← read Scheduler.currentTask) 0x28
  update (Scheduler.addTime current (elapsedTime lastTime currentTime))

/-- `switch_to_task`; the stub reads the new task's stack pointer. -/
def switchToTask (other : Option TaskRef) : Code Unit := do
  updateTime
  update fun s => { s with previousTask := s.currentTask, currentTask := other }
  let _ ← deref other 0x18
  pure ()

/-- The branch of `schedule` that switches from `current` to `nextTask`. -/
def scheduleNext (current nextTask : TaskRef) : Code Unit := do
  let list ← read fun s => s.queues .readyToRun
  update (Scheduler.setQueue .readyToRun { list with head := some nextTask })
  update (Scheduler.setState current .readyToRun)
  enqueueTask .readyToRun current
  switchToTask (some nextTask)

/-- `schedule` -/
def schedule : Code Unit := do
  let current ← deref (← read Scheduler.currentTask) 0x20
  match ← read fun s => s.next current with
  | none => pure ()
  | some nextTask => scheduleNext current nextTask

/-- `terminate_task`, up to the switch; the panic after it is reached only if a
terminated task is switched back to. -/
def terminateTask : Code Unit := do
  let current ← deref (← read Scheduler.currentTask) 0x00
  haltIf ((← read fun s => (s.process current).pid) = 0)
    (.panic "Attempt to terminate the kernel task!")
  let nextTask ← read fun s => s.next current
  let list ← read fun s => s.queues .readyToRun
  update (Scheduler.setQueue .readyToRun { list with head := nextTask })
  update (Scheduler.setState current .terminated)
  enqueueTask .terminated current
  switchToTask nextTask

/-- `create_kernel_task`, where `halloc` returned the zeroed record at `task`. The
name asked for is not used: every task is called `name`. -/
def createKernelTask (_name : String) (task : TaskRef) : Code TaskRef := do
  let pid ← read Scheduler.nextAvailablePid
  update fun s => { s with nextAvailablePid := pid + 1 }
  update (Scheduler.modify task fun _ =>
    { pid := pid, taskName := "name", nextTask := none, state := .readyToRun, timeUsed := 0 })
  pure task

/-- The start of `init_tasking`: the kernel task is made, becomes the current task
and is enqueued first. -/
def startTasking (kernel : TaskRef) : Code Unit := do
  let kernelTask ← createKernelTask "kernel" kernel
  update fun s => { s with currentTask := some kernelTask }
  enqueueTask .readyToRun kernelTask

/-! ## What each function does when it returns -/

namespace Scheduler

variable (s : Scheduler) (task : TaskRef)

@[simp] theorem next_setNextTask (target : Option TaskRef) :
    (s.setNextTask task target).next = Function.update s.next task target := by
  funext other
  by_cases same : other = task
  · subst same
    simp [next, setNextTask, modify]
  · simp [next, setNextTask, modify, same]

@[simp] theorem next_setState (state : TaskState) : (s.setState task state).next = s.next := by
  funext other
  by_cases same : other = task
  · subst same
    simp [next, setState, modify]
  · simp [next, setState, modify, same]

@[simp] theorem next_addTime (elapsed : UInt32) : (s.addTime task elapsed).next = s.next := by
  funext other
  by_cases same : other = task
  · subst same
    simp [next, addTime, modify]
  · simp [next, addTime, modify, same]

@[simp] theorem next_setQueue (queue : Queue) (list : TaskList) :
    (s.setQueue queue list).next = s.next := rfl

/-- The state after a task is linked behind the last of a list. -/
def appended (queue : Queue) (tail proc : TaskRef) : Scheduler :=
  ((s.setNextTask tail (some proc)).setNextTask proc none).setQueue queue
    { s.queues queue with tail := some proc }

/-- The state after the time since the last switch is charged to the current task,
and another task becomes current. -/
def switched (current other : TaskRef) : Scheduler :=
  { s.addTime current (elapsedTime s.lastTime s.ticks) with
    lastTime := s.ticks
    previousTask := some current
    currentTask := some other }

@[simp] theorem next_appended (queue : Queue) (tail proc : TaskRef) :
    (s.appended queue tail proc).next =
      Function.update (Function.update s.next tail (some proc)) proc none := by
  simp [appended]

@[simp] theorem next_switched (current other : TaskRef) :
    (s.switched current other).next = s.next :=
  next_addTime s current _

end Scheduler

section Returns

variable {s : Scheduler} {queue : Queue} {proc current tail nextTask : TaskRef}

theorem deref_some (task : TaskRef) (offset : UInt32) (s : Scheduler) :
    deref (some task) offset s = .ok task s := rfl

theorem enqueueTask_empty (empty : (s.queues queue).head = none) :
    enqueueTask queue proc s =
      .ok () (s.setQueue queue { head := some proc, tail := some proc }) := by
  refine (bind_of_ok (read_run _ s)).trans ?_
  rw [if_pos empty]
  rfl

theorem enqueueTask_append (nonempty : (s.queues queue).head ≠ none)
    (last : (s.queues queue).tail = some tail) :
    enqueueTask queue proc s = .ok () (s.appended queue tail proc) := by
  refine (bind_of_ok (read_run _ s)).trans ?_
  rw [if_neg nonempty, last, bind_of_ok (deref_some _ _ s)]
  rfl

theorem switchToTask_run (running : s.currentTask = some current) :
    switchToTask (some nextTask) s = .ok () (s.switched current nextTask) := by
  obtain ⟨process, previousTask, currentTask, queues, lastTime, pid, ticks, messages⟩ := s
  cases running
  rfl

theorem schedule_alone (running : s.currentTask = some current) (alone : s.next current = none) :
    schedule s = .ok () s := by
  refine (bind_of_ok (read_run _ s)).trans ?_
  rw [running, bind_of_ok (deref_some _ _ s), bind_of_ok (read_run _ s), alone]
  rfl

/-- The state `schedule` leaves when it moves the current task behind `tail` and
switches to `nextTask`. -/
def scheduled (s : Scheduler) (current nextTask tail : TaskRef) : Scheduler :=
  (((s.setQueue .readyToRun { s.queues .readyToRun with head := some nextTask }).setState current
    .readyToRun).appended .readyToRun tail current).switched current nextTask

theorem schedule_run (running : s.currentTask = some current)
    (follows : s.next current = some nextTask)
    (last : (s.queues .readyToRun).tail = some tail) :
    schedule s = .ok () (scheduled s current nextTask tail) := by
  refine (bind_of_ok (read_run _ s)).trans ?_
  rw [running, bind_of_ok (deref_some _ _ s), bind_of_ok (read_run _ s), follows]
  refine (bind_of_ok (read_run _ s)).trans ((bind_of_ok (update_run _ s)).trans ?_)
  refine (bind_of_ok (update_run _ _)).trans ?_
  have nonempty : (((s.setQueue .readyToRun { s.queues .readyToRun with
      head := some nextTask }).setState current .readyToRun).queues .readyToRun).head ≠ none := by
    simp [Scheduler.setState, Scheduler.modify, Scheduler.setQueue]
  have lastKept : (((s.setQueue .readyToRun { s.queues .readyToRun with
      head := some nextTask }).setState current .readyToRun).queues .readyToRun).tail =
      some tail := by
    simp [Scheduler.setState, Scheduler.modify, Scheduler.setQueue, last]
  rw [bind_of_ok (enqueueTask_append nonempty lastKept)]
  exact switchToTask_run running

/-- The state before `terminate_task` enqueues the current task. -/
def retired (s : Scheduler) (current : TaskRef) : Scheduler :=
  (s.setQueue .readyToRun { s.queues .readyToRun with head := s.next current }).setState current
    .terminated

theorem terminateTask_run {enqueued : Scheduler} (running : s.currentTask = some current)
    (user : (s.process current).pid ≠ 0) (follows : s.next current = some nextTask)
    (placed : enqueueTask .terminated current (retired s current) = .ok () enqueued)
    (stillRunning : enqueued.currentTask = some current) :
    terminateTask s = .ok () (enqueued.switched current nextTask) := by
  refine (bind_of_ok (read_run _ s)).trans ?_
  rw [running, bind_of_ok (deref_some _ _ s), bind_of_ok (read_run _ s)]
  have passes : (haltIf (decide ((s.process current).pid = 0))
      (.panic "Attempt to terminate the kernel task!") : Code Unit) s = .ok () s :=
    haltIf_ok_iff.mpr ⟨decide_eq_false user, rfl⟩
  rw [bind_of_ok passes, bind_of_ok (read_run _ s), bind_of_ok (read_run _ s),
    bind_of_ok (update_run _ s), bind_of_ok (update_run _ _)]
  refine (bind_of_ok placed).trans ?_
  rw [follows]
  exact switchToTask_run stillRunning

/-- The record `create_kernel_task` makes. -/
def newProcess (pid : UInt32) : Process where
  pid := pid
  taskName := "name"
  nextTask := none
  state := .readyToRun
  timeUsed := 0

theorem createKernelTask_run (name : String) (task : TaskRef) (s : Scheduler) :
    createKernelTask name task s =
      .ok task (({ s with nextAvailablePid := s.nextAvailablePid + 1 } : Scheduler).modify task
        fun _ => newProcess s.nextAvailablePid) := rfl

end Returns

/-! ## What enqueueing leaves alone -/

/-- Neither the tasks' identities and times nor the clocks differ. -/
structure SameAccounts (before after : Scheduler) : Prop where
  pid : ∀ task, (after.process task).pid = (before.process task).pid
  timeUsed : ∀ task, (after.process task).timeUsed = (before.process task).timeUsed
  currentTask : after.currentTask = before.currentTask
  ticks : after.ticks = before.ticks
  lastTime : after.lastTime = before.lastTime

theorem SameAccounts.refl (s : Scheduler) : SameAccounts s s :=
  ⟨fun _ => rfl, fun _ => rfl, rfl, rfl, rfl⟩

theorem SameAccounts.trans {a b c : Scheduler} (first : SameAccounts a b)
    (second : SameAccounts b c) : SameAccounts a c where
  pid task := (second.pid task).trans (first.pid task)
  timeUsed task := (second.timeUsed task).trans (first.timeUsed task)
  currentTask := second.currentTask.trans first.currentTask
  ticks := second.ticks.trans first.ticks
  lastTime := second.lastTime.trans first.lastTime

/-- Changing other fields of a record. -/
theorem sameAccounts_modify (s : Scheduler) (task : TaskRef) {change : Process → Process}
    (pid : ∀ process, (change process).pid = process.pid)
    (timeUsed : ∀ process, (change process).timeUsed = process.timeUsed) :
    SameAccounts s (s.modify task change) := by
  constructor
  · intro other
    by_cases same : other = task
    · subst same
      simp [Scheduler.modify, pid]
    · simp [Scheduler.modify, same]
  · intro other
    by_cases same : other = task
    · subst same
      simp [Scheduler.modify, timeUsed]
    · simp [Scheduler.modify, same]
  · rfl
  · rfl
  · rfl

theorem sameAccounts_setNextTask (s : Scheduler) (task : TaskRef) (target : Option TaskRef) :
    SameAccounts s (s.setNextTask task target) :=
  sameAccounts_modify s task (fun _ => rfl) fun _ => rfl

theorem sameAccounts_setState (s : Scheduler) (task : TaskRef) (state : TaskState) :
    SameAccounts s (s.setState task state) :=
  sameAccounts_modify s task (fun _ => rfl) fun _ => rfl

theorem sameAccounts_setQueue (s : Scheduler) (queue : Queue) (list : TaskList) :
    SameAccounts s (s.setQueue queue list) :=
  ⟨fun _ => rfl, fun _ => rfl, rfl, rfl, rfl⟩

theorem deref_ok_iff {pointer : Option TaskRef} {offset : UInt32} {task : TaskRef}
    {s after : Scheduler} :
    deref pointer offset s = .ok task after ↔ pointer = some task ∧ s = after := by
  cases pointer <;> simp [deref]

/-- `enqueue_task` touches pointers only. -/
theorem enqueueTask_sameAccounts {s after : Scheduler} {queue : Queue} {proc : TaskRef}
    (returned : enqueueTask queue proc s = .ok () after) : SameAccounts s after := by
  rw [enqueueTask, bind_of_ok (read_run _ s)] at returned
  split at returned
  · cases returned
    exact sameAccounts_setQueue s queue _
  · obtain ⟨tail, _, reached, rest⟩ := bind_ok_iff.mp returned
    obtain ⟨_, rfl⟩ := deref_ok_iff.mp reached
    rw [bind_of_ok (update_run _ _), bind_of_ok (update_run _ _)] at rest
    cases rest
    exact (sameAccounts_setNextTask s tail _).trans
      ((sameAccounts_setNextTask _ proc none).trans (sameAccounts_setQueue _ queue _))

/-- `switch_to_task` returns only when there is a current task and one to switch to. -/
theorem switchToTask_ok {s after : Scheduler} {other : Option TaskRef}
    (returned : switchToTask other s = .ok () after) :
    ∃ current nextTask, s.currentTask = some current ∧ other = some nextTask ∧
      after = s.switched current nextTask := by
  cases running : s.currentTask with
  | none =>
      obtain ⟨process, previousTask, _, queues, lastTime, pid, ticks, messages⟩ := s
      cases running
      cases returned
  | some current =>
      cases other with
      | none =>
          obtain ⟨process, previousTask, _, queues, lastTime, pid, ticks, messages⟩ := s
          cases running
          cases returned
      | some nextTask =>
          rw [switchToTask_run running] at returned
          cases returned
          exact ⟨current, nextTask, rfl, rfl, rfl⟩

/-- `schedule` does nothing when the current task is alone, and otherwise only moves
pointers before it switches. -/
theorem schedule_ok {s after : Scheduler} (returned : schedule s = .ok () after) :
    ∃ current, s.currentTask = some current ∧
      (s.next current = none ∧ after = s ∨
        ∃ nextTask middle, s.next current = some nextTask ∧ SameAccounts s middle ∧
          after = middle.switched current nextTask) := by
  rw [schedule, bind_of_ok (read_run _ s), bind_ok_iff] at returned
  obtain ⟨current, _, reached, rest⟩ := returned
  obtain ⟨running, rfl⟩ := deref_ok_iff.mp reached
  refine ⟨current, running, ?_⟩
  rw [bind_of_ok (read_run _ _)] at rest
  cases follows : s.next current with
  | none =>
      rw [follows] at rest
      cases rest
      exact .inl ⟨rfl, rfl⟩
  | some nextTask =>
      rw [follows] at rest
      change scheduleNext current nextTask s = _ at rest
      rw [scheduleNext, bind_of_ok (read_run _ _), bind_of_ok (update_run _ _),
        bind_of_ok (update_run _ _), bind_ok_iff] at rest
      obtain ⟨_, middle, enqueued, switched⟩ := rest
      have same := (sameAccounts_setQueue s .readyToRun _).trans
        ((sameAccounts_setState _ current .readyToRun).trans (enqueueTask_sameAccounts enqueued))
      obtain ⟨task, target, stillRunning, target_eq, rfl⟩ := switchToTask_ok switched
      rw [same.currentTask, running] at stillRunning
      cases stillRunning
      cases target_eq
      exact .inr ⟨nextTask, middle, rfl, same, rfl⟩

/-- `terminate_task` by a user task moves pointers and then switches. -/
theorem terminateTask_ok {s after : Scheduler} (returned : terminateTask s = .ok () after) :
    ∃ current nextTask middle, s.currentTask = some current ∧ (s.process current).pid ≠ 0 ∧
      SameAccounts s middle ∧ after = middle.switched current nextTask := by
  rw [terminateTask, bind_of_ok (read_run _ s), bind_ok_iff] at returned
  obtain ⟨current, _, reached, rest⟩ := returned
  obtain ⟨running, rfl⟩ := deref_ok_iff.mp reached
  rw [bind_of_ok (read_run _ _), bind_ok_iff] at rest
  obtain ⟨_, _, check, rest⟩ := rest
  obtain ⟨user, rfl⟩ := haltIf_ok_iff.mp check
  rw [bind_of_ok (read_run _ _), bind_of_ok (read_run _ _), bind_of_ok (update_run _ _),
    bind_of_ok (update_run _ _), bind_ok_iff] at rest
  obtain ⟨_, middle, enqueued, switched⟩ := rest
  have same := (sameAccounts_setQueue s .readyToRun _).trans
    ((sameAccounts_setState _ current .terminated).trans (enqueueTask_sameAccounts enqueued))
  obtain ⟨task, nextTask, stillRunning, _, rfl⟩ := switchToTask_ok switched
  rw [same.currentTask, running] at stillRunning
  cases stillRunning
  exact ⟨current, nextTask, middle, running, of_decide_eq_false user, same, rfl⟩

@[simp] theorem pid_switched (s : Scheduler) (current other task : TaskRef) :
    ((s.switched current other).process task).pid = (s.process task).pid := by
  by_cases same : task = current
  · subst same
    simp [Scheduler.switched, Scheduler.addTime, Scheduler.modify]
  · simp [Scheduler.switched, Scheduler.addTime, Scheduler.modify, same]

theorem schedule_pid {s after : Scheduler} (returned : schedule s = .ok () after)
    (task : TaskRef) : (after.process task).pid = (s.process task).pid := by
  obtain ⟨current, _, ⟨_, rfl⟩ | ⟨nextTask, middle, _, same, rfl⟩⟩ := schedule_ok returned
  · rfl
  · rw [pid_switched, same.pid]

theorem terminateTask_pid {s after : Scheduler} (returned : terminateTask s = .ok () after)
    (task : TaskRef) : (after.process task).pid = (s.process task).pid := by
  obtain ⟨current, nextTask, middle, _, _, same, rfl⟩ := terminateTask_ok returned
  rw [pid_switched, same.pid]

end TorchOS.Tasking
