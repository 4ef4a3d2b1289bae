import TorchOS.Tasking.Scheduler
import TorchOS.Base.Chain
import Mathlib.Data.List.Rotate

/-!
# The run queue over whole runs

What the scheduler is for is two lists: the tasks ready to run, the current one
first, and the terminated ones. `Represents` says that the pointers and records
spell out such lists; every event keeps that, so it holds in every run.
-/

namespace TorchOS.Tasking

open Base Base.Program

/-! ## Lists as lists -/

/-- The tasks ready to run, the current one first, and those that have terminated. -/
@[ext] structure Queues where
  ready : List TaskRef
  dead : List TaskRef

/-- The pointers and records spell out the two lists. A terminated list of one task
is the exception: the task still points to the next ready one. -/
structure Listed (s : Scheduler) (lists : Queues) : Prop where
  ready : Chain s.next (s.queues .readyToRun).head lists.ready
  readyTail : (s.queues .readyToRun).tail = lists.ready.getLast?
  deadHead : (s.queues .terminated).head = lists.dead.head?
  deadTail : (s.queues .terminated).tail = lists.dead.getLast?
  deadChain : lists.dead.length ≠ 1 → Chain s.next (s.queues .terminated).head lists.dead
  deadAlone : ∀ task, lists.dead = [task] → s.next task ≠ none
  apart : ∀ task ∈ lists.ready, task ∉ lists.dead

/-- The lists are spelled out, and the current task is the first ready one. -/
structure Represents (s : Scheduler) (lists : Queues) : Prop extends Listed s lists where
  running : s.currentTask = lists.ready.head?

section Operations

variable {s after : Scheduler} {ready dead rest : List TaskRef} {task current nextTask : TaskRef}

/-- Only the pointers matter. -/
theorem Listed.congr {lists : Queues} (listed : Listed s lists) (next : after.next = s.next)
    (queues : after.queues = s.queues) : Listed after lists := by
  obtain ⟨readyChain, readyTail, deadHead, deadTail, deadChain, deadAlone, apart⟩ := listed
  constructor
  · rwa [next, queues]
  · rwa [queues]
  · rwa [queues]
  · rwa [queues]
  · rwa [next, queues]
  · rwa [next]
  · exact apart

/-- A record that no list uses may change. -/
theorem Listed.modify (listed : Listed s ⟨ready, dead⟩) (notReady : task ∉ ready)
    (notDead : task ∉ dead) (change : Process → Process) :
    Listed (s.modify task change) ⟨ready, dead⟩ := by
  have same : ∀ other, other ≠ task → (s.modify task change).next other = s.next other := by
    intro other different
    simp [Scheduler.next, Scheduler.modify, different]
  have notSame : ∀ other ∈ ready, other ≠ task := fun _ member same => notReady (same ▸ member)
  have notSameDead : ∀ other ∈ dead, other ≠ task := fun _ member same => notDead (same ▸ member)
  constructor
  · exact listed.ready.congr fun other member => same other (notSame other member)
  · exact listed.readyTail
  · exact listed.deadHead
  · exact listed.deadTail
  · intro several
    exact (listed.deadChain several).congr fun other member =>
      same other (notSameDead other member)
  · rintro other rfl
    rw [same other (notSameDead other List.mem_cons_self)]
    exact listed.deadAlone other rfl
  · exact listed.apart

/-- Linking a task behind the last ready one appends it to the ready list. -/
theorem Listed.append (listed : Listed s ⟨rest ++ [current], dead⟩)
    (notReady : task ∉ rest ++ [current]) (notDead : task ∉ dead) :
    enqueueTask .readyToRun task s = .ok () (s.appended .readyToRun current task) ∧
      Listed (s.appended .readyToRun current task) ⟨rest ++ [current] ++ [task], dead⟩ := by
  have lastDead : current ∉ dead := listed.apart current (by simp)
  have same : ∀ other ∈ dead, (s.appended .readyToRun current task).next other = s.next other := by
    intro other member
    have notTask : other ≠ task := fun same => notDead (same ▸ member)
    have notLast : other ≠ current := fun same => lastDead (same ▸ member)
    rw [Scheduler.next_appended, Function.update_of_ne notTask, Function.update_of_ne notLast]
  have last : (s.queues .readyToRun).tail = some current := by
    rw [listed.readyTail]
    simp
  have nonempty : (s.queues .readyToRun).head ≠ none := by
    rw [listed.ready.head_eq]
    simp
  refine ⟨enqueueTask_append nonempty last, ?_⟩
  constructor
  · rw [Scheduler.next_appended]
    exact listed.ready.snoc notReady
  · simp [Scheduler.appended, Scheduler.setQueue]
  · exact listed.deadHead
  · exact listed.deadTail
  · intro several
    exact (listed.deadChain several).congr same
  · rintro other rfl
    rw [same other List.mem_cons_self]
    exact listed.deadAlone other rfl
  · intro other member
    rcases List.mem_append.mp member with before | new
    · exact listed.apart other before
    · rw [List.mem_singleton.mp new]
      exact notDead

/-- Taking the first ready task off the list. -/
theorem Listed.dropFirst (listed : Listed s ⟨current :: nextTask :: rest, dead⟩) :
    s.next current = some nextTask ∧
      Listed (s.setQueue .readyToRun { s.queues .readyToRun with head := some nextTask })
        ⟨nextTask :: rest, dead⟩ := by
  have tail := listed.ready.2
  refine ⟨tail.1, ?_⟩
  constructor
  · exact ⟨by simp [Scheduler.setQueue], tail.2⟩
  · have last := listed.readyTail
    simp only [List.getLast?_cons_cons] at last
    simpa [Scheduler.setQueue] using last
  · exact listed.deadHead
  · exact listed.deadTail
  · exact listed.deadChain
  · exact listed.deadAlone
  · exact fun other member => listed.apart other (List.mem_cons_of_mem _ member)

/-- Enqueueing a task on the terminated list: its `next_task` is reset only when
another task is there already. -/
theorem Listed.retire (listed : Listed s ⟨ready, dead⟩) (notReady : task ∉ ready)
    (notDead : task ∉ dead) (follows : s.next task ≠ none) :
    ∃ after, enqueueTask .terminated task s = .ok () after ∧
      Listed after ⟨ready, dead ++ [task]⟩ ∧ after.currentTask = s.currentTask := by
  rcases List.eq_nil_or_concat' dead with rfl | ⟨before, last, rfl⟩
  · refine ⟨_, enqueueTask_empty (by rw [listed.deadHead]; rfl), ?_, rfl⟩
    constructor
    · exact listed.ready
    · exact listed.readyTail
    · simp [Scheduler.setQueue]
    · simp [Scheduler.setQueue]
    · intro several
      exact absurd rfl several
    · intro other alone
      cases alone
      exact follows
    · intro other member
      simp only [List.nil_append, List.mem_singleton]
      exact fun same => notReady (same ▸ member)
  · have nonempty : (s.queues .terminated).head ≠ none := by
      rw [listed.deadHead]
      simp
    have tail : (s.queues .terminated).tail = some last := by
      rw [listed.deadTail]
      simp
    have lastReady : last ∉ ready := fun member => listed.apart last member (by simp)
    have head : ((s.appended .terminated last task).queues .terminated).head =
        (s.queues .terminated).head := by
      simp [Scheduler.appended, Scheduler.setQueue]
    refine ⟨_, enqueueTask_append nonempty tail, ?_, rfl⟩
    constructor
    · refine listed.ready.congr fun other member => ?_
      have notTask : other ≠ task := fun same => notReady (same ▸ member)
      have notLast : other ≠ last := fun same => lastReady (same ▸ member)
      rw [Scheduler.next_appended, Function.update_of_ne notTask, Function.update_of_ne notLast]
    · exact listed.readyTail
    · rw [head, listed.deadHead]
      cases before <;> rfl
    · simp [Scheduler.appended, Scheduler.setQueue]
    · intro _
      rw [head, Scheduler.next_appended]
      cases before with
      | nil =>
          have different : last ≠ task := fun same => notDead (by simp [same])
          refine ⟨listed.deadHead, ?_, Function.update_self ..⟩
          rw [Function.update_of_ne different, Function.update_self]
      | cons first before =>
          exact (listed.deadChain (by simp)).snoc notDead
    · intro other alone
      have lengths := congrArg List.length alone
      simp at lengths
    · intro other member
      have notTask : other ≠ task := fun same => notReady (same ▸ member)
      have notDeadYet := listed.apart other member
      simp [notTask] at notDeadYet ⊢
      exact notDeadYet

/-- `enqueue_task` on the ready list appends a task that is on neither list. -/
theorem Represents.enqueue (represents : Represents s ⟨ready, dead⟩) (nonempty : ready ≠ [])
    (notReady : task ∉ ready) (notDead : task ∉ dead) :
    ∃ after, enqueueTask .readyToRun task s = .ok () after ∧
      Represents after ⟨ready ++ [task], dead⟩ := by
  rcases List.eq_nil_or_concat' ready with rfl | ⟨before, last, rfl⟩
  · exact absurd rfl nonempty
  · obtain ⟨run, listed⟩ := represents.toListed.append notReady notDead
    refine ⟨_, run, listed, represents.running.trans ?_⟩
    cases before <;> rfl

/-- `schedule` moves the current task from the front of the ready list to its back. -/
theorem Represents.schedule (represents : Represents s ⟨ready, dead⟩) (nonempty : ready ≠ []) :
    ∃ after, Tasking.schedule s = .ok () after ∧ Represents after ⟨ready.rotate 1, dead⟩ := by
  cases ready with
  | nil => exact absurd rfl nonempty
  | cons current others =>
      have running : s.currentTask = some current := represents.running
      cases others with
      | nil =>
          refine ⟨s, schedule_alone running represents.ready.2, ?_⟩
          rwa [List.rotate_singleton]
      | cons nextTask rest =>
          have once := represents.ready.nodup
          obtain ⟨follows, dropped⟩ := represents.toListed.dropFirst
          obtain ⟨before, last, shape⟩ : ∃ before last, nextTask :: rest = before ++ [last] :=
            (List.eq_nil_or_concat' (nextTask :: rest)).resolve_left (List.cons_ne_nil _ _)
          have notReady : current ∉ before ++ [last] := shape ▸ (List.nodup_cons.mp once).1
          have notDead : current ∉ dead := represents.apart current List.mem_cons_self
          have tail : (s.queues .readyToRun).tail = some last := by
            rw [represents.readyTail, List.getLast?_cons_cons, shape]
            simp
          have marked : Listed ((s.setQueue .readyToRun { s.queues .readyToRun with
              head := some nextTask }).setState current .readyToRun) ⟨before ++ [last], dead⟩ :=
            (shape ▸ dropped).congr (Scheduler.next_setState _ _ _) rfl
          obtain ⟨_, appended⟩ := marked.append notReady notDead
          refine ⟨_, schedule_run running follows tail, ?_, ?_⟩
          · rw [List.rotate_cons_succ, List.rotate_zero, shape]
            exact appended.congr (Scheduler.next_switched _ _ _) rfl
          · rw [List.rotate_cons_succ, List.rotate_zero]
            rfl

/-- `terminate_task` moves the current task from the ready list to the terminated one. -/
theorem Represents.terminate (represents : Represents s ⟨current :: nextTask :: rest, dead⟩)
    (user : (s.process current).pid ≠ 0) :
    ∃ after, terminateTask s = .ok () after ∧
      Represents after ⟨nextTask :: rest, dead ++ [current]⟩ := by
  have once := represents.ready.nodup
  obtain ⟨follows, dropped⟩ := represents.toListed.dropFirst
  have notReady : current ∉ nextTask :: rest := (List.nodup_cons.mp once).1
  have notDead : current ∉ dead := represents.apart current List.mem_cons_self
  have marked : Listed (retired s current) ⟨nextTask :: rest, dead⟩ := by
    refine dropped.congr ?_ ?_
    · simp [retired]
    · simp [retired, Scheduler.setState, Scheduler.modify, Scheduler.setQueue, follows]
  have stillFollows : (retired s current).next current ≠ none := by
    simp [retired, follows]
  obtain ⟨enqueued, placed, listed, kept⟩ := marked.retire notReady notDead stillFollows
  have stillRunning : enqueued.currentTask = some current := kept.trans represents.running
  refine ⟨_, terminateTask_run represents.running user follows placed stillRunning, ?_, rfl⟩
  exact listed.congr (Scheduler.next_switched _ _ _) rfl

end Operations

/-! ## Runs -/

/-- What happens to the scheduler: a timer interrupt while a task is current, a task
made with a name at an address, a task enqueued as ready, and the current task
giving way or ending. -/
inductive Event where
  | tick (current : TaskRef)
  | create (task : TaskRef) (name : String)
  | enqueue (task : TaskRef)
  | schedule (current : TaskRef)
  | terminate (current : TaskRef)

namespace Event

/-- The code an event runs. -/
def run : Event → Code Unit
  | .tick _ => timerCallback
  | .create task name => do
      let _ ← createKernelTask name task
      pure ()
  | .enqueue task => enqueueTask .readyToRun task
  | .schedule _ => Tasking.schedule
  | .terminate _ => terminateTask

theorem create_run (task : TaskRef) (name : String) (s : Scheduler) :
    (Event.create task name).run s =
      .ok () (({ s with nextAvailablePid := s.nextAvailablePid + 1 } : Scheduler).modify task
        fun _ => newProcess s.nextAvailablePid) := by
  rw [run, bind_of_ok (createKernelTask_run name task s), pure_run]

def created : Event → Option TaskRef
  | .create task _ => some task
  | _ => none

def enqueued : Event → Option TaskRef
  | .enqueue task => some task
  | _ => none

def terminated : Event → Option TaskRef
  | .terminate current => some current
  | _ => none

end Event

/-- The tasks made so far, in order. -/
def created (events : List Event) : List TaskRef := events.filterMap Event.created

/-- The tasks enqueued so far besides the kernel task, in order. -/
def enqueued (events : List Event) : List TaskRef := events.filterMap Event.enqueued

/-- The tasks terminated so far, in order. -/
def terminated (events : List Event) : List TaskRef := events.filterMap Event.terminated

/-- How `init_tasking` finds the machine: what memory holds where records will be,
the tick count, and the address of the record made first. -/
structure Boot where
  process : TaskRef → Process
  ticks : UInt32
  kernel : TaskRef

/-- The globals before `init_tasking`. -/
def Boot.scheduler (boot : Boot) : Scheduler where
  process := boot.process
  previousTask := none
  currentTask := none
  queues := fun _ => { head := none, tail := none }
  lastTime := 0
  nextAvailablePid := 0
  ticks := boot.ticks
  messages := []

/-- Which events can come next: the tasks named in ticks, yields and terminations are
current, a new record is at an unused address, and a task is enqueued once. -/
def Enabled (boot : Boot) (events : List Event) (s : Scheduler) : Event → Prop
  | .tick current => s.currentTask = some current
  | .create task _ => task ≠ boot.kernel ∧ task ∉ created events
  | .enqueue task => task ∈ created events ∧ task ∉ enqueued events
  | .schedule current => s.currentTask = some current
  | .terminate current => s.currentTask = some current

/-- A run from the start of `init_tasking`, with the events so far. -/
inductive Run (boot : Boot) : List Event → Scheduler → Prop where
  | start {s : Scheduler} (started : startTasking boot.kernel boot.scheduler = .ok () s) :
      Run boot [] s
  | step {events : List Event} {s after : Scheduler} {event : Event} (run : Run boot events s)
      (enabled : Enabled boot events s event) (returned : event.run s = .ok () after) :
      Run boot (events ++ [event]) after

namespace Queues

/-- What an event does to the lists. -/
def apply (lists : Queues) : Event → Queues
  | .tick _ => lists
  | .create _ _ => lists
  | .enqueue task => { lists with ready := lists.ready ++ [task] }
  | .schedule _ => { lists with ready := lists.ready.rotate 1 }
  | .terminate current => { ready := lists.ready.tail, dead := lists.dead ++ [current] }

/-- The lists after some events, from the kernel task alone. -/
def after (boot : Boot) (events : List Event) : Queues :=
  events.foldl apply { ready := [boot.kernel], dead := [] }

@[simp] theorem after_nil (boot : Boot) :
    after boot [] = { ready := [boot.kernel], dead := [] } := rfl

@[simp] theorem after_snoc (boot : Boot) (events : List Event) (event : Event) :
    after boot (events ++ [event]) = (after boot events).apply event := by
  simp [after, List.foldl_append]

end Queues

section Traces

variable (events : List Event) (event : Event)

@[simp] theorem created_snoc :
    created (events ++ [event]) = created events ++ event.created.toList := by
  cases event <;> simp [created, Event.created]

@[simp] theorem enqueued_snoc :
    enqueued (events ++ [event]) = enqueued events ++ event.enqueued.toList := by
  cases event <;> simp [enqueued, Event.enqueued]

@[simp] theorem terminated_snoc :
    terminated (events ++ [event]) = terminated events ++ event.terminated.toList := by
  cases event <;> simp [terminated, Event.terminated]

end Traces

/-- What a run keeps: its lists are spelled out; the ready tasks are the kernel task
and the enqueued ones, less those that have terminated; and the kernel task, which
alone has its record from the start, never terminates. -/
structure Scheduled (boot : Boot) (events : List Event) (s : Scheduler) : Prop where
  represents : Represents s (Queues.after boot events)
  dead : (Queues.after boot events).dead = terminated events
  ready : ∀ task, task ∈ (Queues.after boot events).ready ↔
    (task = boot.kernel ∨ task ∈ enqueued events) ∧ task ∉ terminated events
  wasEnqueued : ∀ task ∈ terminated events, task ∈ enqueued events
  wasCreated : ∀ task ∈ enqueued events, task ∈ created events
  notKernel : boot.kernel ∉ created events
  kernelPid : (s.process boot.kernel).pid = 0

namespace Scheduled

variable {boot : Boot} {events : List Event} {s after : Scheduler}

theorem kernel_ready (scheduled : Scheduled boot events s) :
    boot.kernel ∈ (Queues.after boot events).ready := by
  refine (scheduled.ready _).mpr ⟨.inl rfl, fun ended => ?_⟩
  exact scheduled.notKernel (scheduled.wasCreated _ (scheduled.wasEnqueued _ ended))

theorem ready_ne_nil (scheduled : Scheduled boot events s) :
    (Queues.after boot events).ready ≠ [] :=
  List.ne_nil_of_mem scheduled.kernel_ready

/-- A user task that is current is followed by another ready task. -/
theorem user_followed (scheduled : Scheduled boot events s) {current : TaskRef}
    (running : s.currentTask = some current) (user : (s.process current).pid ≠ 0) :
    ∃ nextTask rest, (Queues.after boot events).ready = current :: nextTask :: rest := by
  have member := scheduled.kernel_ready
  have first := scheduled.represents.running
  cases shape : (Queues.after boot events).ready with
  | nil => exact absurd shape scheduled.ready_ne_nil
  | cons task others =>
      rw [shape, running] at first
      cases first
      cases others with
      | cons nextTask rest => exact ⟨nextTask, rest, rfl⟩
      | nil =>
          rw [shape, List.mem_singleton] at member
          rw [← member] at user
          exact absurd scheduled.kernelPid user

/-- A task on neither list: one that was never enqueued. -/
theorem unlisted (scheduled : Scheduled boot events s) {task : TaskRef}
    (notKernel : task ≠ boot.kernel) (notEnqueued : task ∉ enqueued events) :
    task ∉ (Queues.after boot events).ready ∧ task ∉ (Queues.after boot events).dead := by
  constructor
  · rw [scheduled.ready]
    rintro ⟨kernel | member, _⟩
    · exact notKernel kernel
    · exact notEnqueued member
  · rw [scheduled.dead]
    exact fun member => notEnqueued (scheduled.wasEnqueued task member)

/-- The lists, and with them everything but the records, after an event that makes,
enqueues and ends no task and leaves the members alone. -/
theorem quiet (scheduled : Scheduled boot events s) {event : Event}
    (noTask : event.created = none) (noEntry : event.enqueued = none)
    (noEnd : event.terminated = none)
    (represents : Represents after ((Queues.after boot events).apply event))
    (dead : ((Queues.after boot events).apply event).dead = (Queues.after boot events).dead)
    (ready : ∀ task, task ∈ ((Queues.after boot events).apply event).ready ↔
      task ∈ (Queues.after boot events).ready)
    (kernelPid : (after.process boot.kernel).pid = 0) :
    Scheduled boot (events ++ [event]) after := by
  have sameCreated : created (events ++ [event]) = created events := by simp [noTask]
  have sameEnqueued : enqueued (events ++ [event]) = enqueued events := by simp [noEntry]
  have sameTerminated : terminated (events ++ [event]) = terminated events := by simp [noEnd]
  rw [← Queues.after_snoc] at represents dead ready
  constructor
  · exact represents
  · rw [dead, sameTerminated]
    exact scheduled.dead
  · intro task
    rw [ready, sameEnqueued, sameTerminated]
    exact scheduled.ready task
  · rw [sameEnqueued, sameTerminated]
    exact scheduled.wasEnqueued
  · rw [sameCreated, sameEnqueued]
    exact scheduled.wasCreated
  · rw [sameCreated]
    exact scheduled.notKernel
  · exact kernelPid

theorem tick (scheduled : Scheduled boot events s) {current : TaskRef}
    (returned : timerCallback s = .ok () after) :
    Scheduled boot (events ++ [.tick current]) after := by
  cases returned
  refine scheduled.quiet rfl rfl rfl ⟨?_, scheduled.represents.running⟩ rfl (fun _ => Iff.rfl)
    scheduled.kernelPid
  exact scheduled.represents.toListed.congr rfl rfl

theorem create (scheduled : Scheduled boot events s) {task : TaskRef} {name : String}
    (notKernel : task ≠ boot.kernel) (fresh : task ∉ created events)
    (returned : (Event.create task name).run s = .ok () after) :
    Scheduled boot (events ++ [.create task name]) after := by
  have notEnqueued : task ∉ enqueued events := fun member =>
    fresh (scheduled.wasCreated task member)
  obtain ⟨notReady, notDead⟩ := scheduled.unlisted notKernel notEnqueued
  cases (Event.create_run task name s).symm.trans returned
  constructor
  · rw [Queues.after_snoc]
    have renumbered : Listed { s with nextAvailablePid := s.nextAvailablePid + 1 }
        (Queues.after boot events) := scheduled.represents.toListed.congr rfl rfl
    exact ⟨renumbered.modify notReady notDead _, scheduled.represents.running⟩
  · simpa [Queues.apply, Event.terminated] using scheduled.dead
  · simpa [Queues.apply, Event.terminated, Event.enqueued] using scheduled.ready
  · simpa [Event.terminated, Event.enqueued] using scheduled.wasEnqueued
  · intro other member
    simp only [enqueued_snoc, Event.enqueued, Option.toList_none, List.append_nil] at member
    simp [scheduled.wasCreated other member]
  · simp [Event.created, scheduled.notKernel, Ne.symm notKernel]
  · simpa [Scheduler.modify, Ne.symm notKernel] using scheduled.kernelPid

theorem enqueue (scheduled : Scheduled boot events s) {task : TaskRef}
    (wasCreated : task ∈ created events) (fresh : task ∉ enqueued events)
    (returned : enqueueTask .readyToRun task s = .ok () after) :
    Scheduled boot (events ++ [.enqueue task]) after := by
  have notKernel : task ≠ boot.kernel := by
    rintro rfl
    exact scheduled.notKernel wasCreated
  have notTerminated : task ∉ terminated events := fun ended =>
    fresh (scheduled.wasEnqueued task ended)
  obtain ⟨notReady, notDead⟩ := scheduled.unlisted notKernel fresh
  obtain ⟨result, run, represents⟩ :=
    scheduled.represents.enqueue scheduled.ready_ne_nil notReady notDead
  have same := enqueueTask_sameAccounts returned
  rw [returned] at run
  cases run
  constructor
  · rw [Queues.after_snoc]
    exact represents
  · simpa [Queues.apply, Event.terminated] using scheduled.dead
  · intro other
    have before := scheduled.ready other
    simp only [Queues.after_snoc, Queues.apply, List.mem_append, List.mem_singleton, before,
      enqueued_snoc, terminated_snoc, Event.enqueued, Event.terminated, Option.toList_some,
      Option.toList_none, List.append_nil]
    constructor
    · rintro (⟨member, alive⟩ | rfl)
      · exact ⟨member.imp_right .inl, alive⟩
      · exact ⟨.inr (.inr rfl), notTerminated⟩
    · rintro ⟨kernel | member | rfl, alive⟩
      · exact .inl ⟨.inl kernel, alive⟩
      · exact .inl ⟨.inr member, alive⟩
      · exact .inr rfl
  · intro other ended
    simp only [terminated_snoc, Event.terminated, Option.toList_none, List.append_nil] at ended
    simp [scheduled.wasEnqueued other ended]
  · intro other member
    simp only [enqueued_snoc, Event.enqueued, Option.toList_some, List.mem_append,
      List.mem_singleton] at member
    simp only [created_snoc, Event.created, Option.toList_none, List.append_nil]
    rcases member with before | rfl
    · exact scheduled.wasCreated other before
    · exact wasCreated
  · simpa [Event.created] using scheduled.notKernel
  · exact (same.pid _).trans scheduled.kernelPid

theorem schedule (scheduled : Scheduled boot events s) {current : TaskRef}
    (returned : Tasking.schedule s = .ok () after) :
    Scheduled boot (events ++ [.schedule current]) after := by
  obtain ⟨result, run, represents⟩ :=
    scheduled.represents.schedule scheduled.ready_ne_nil
  have kernelPid := (schedule_pid returned boot.kernel).trans scheduled.kernelPid
  rw [returned] at run
  cases run
  exact scheduled.quiet rfl rfl rfl represents rfl (fun _ => List.mem_rotate) kernelPid

theorem terminate (scheduled : Scheduled boot events s) {current : TaskRef}
    (running : s.currentTask = some current) (returned : terminateTask s = .ok () after) :
    Scheduled boot (events ++ [.terminate current]) after := by
  obtain ⟨task, _, _, stillRunning, user, _, _⟩ := terminateTask_ok returned
  rw [running] at stillRunning
  cases stillRunning
  obtain ⟨nextTask, rest, shape⟩ := scheduled.user_followed running user
  have lists : Queues.after boot events =
      { ready := current :: nextTask :: rest, dead := terminated events } :=
    Queues.ext shape scheduled.dead
  have before : Represents s { ready := current :: nextTask :: rest, dead := terminated events } :=
    lists ▸ scheduled.represents
  have once := before.ready.nodup
  obtain ⟨result, run, represents⟩ := before.terminate user
  have kernelPid := (terminateTask_pid returned boot.kernel).trans scheduled.kernelPid
  rw [returned] at run
  cases run
  have wasReady := scheduled.ready
  rw [shape] at wasReady
  have notKernel : current ≠ boot.kernel := fun same => user (same ▸ scheduled.kernelPid)
  have isEnqueued : current ∈ enqueued events :=
    ((wasReady current).mp List.mem_cons_self).1.resolve_left notKernel
  constructor
  · rw [Queues.after_snoc, lists]
    exact represents
  · simp [Queues.apply, Event.terminated, lists]
  · intro other
    simp only [Queues.after_snoc, Queues.apply, shape, List.tail_cons, enqueued_snoc,
      terminated_snoc, Event.enqueued, Event.terminated, Option.toList_none, Option.toList_some,
      List.append_nil, List.mem_append, List.mem_singleton, not_or]
    rw [← and_assoc, ← wasReady other]
    constructor
    · intro member
      refine ⟨List.mem_cons_of_mem _ member, ?_⟩
      rintro rfl
      exact (List.nodup_cons.mp once).1 member
    · rintro ⟨member, different⟩
      exact (List.mem_cons.mp member).resolve_left different
  · intro other ended
    simp only [terminated_snoc, Event.terminated, Option.toList_some, List.mem_append,
      List.mem_singleton] at ended
    simp only [enqueued_snoc, Event.enqueued, Option.toList_none, List.append_nil]
    rcases ended with earlier | rfl
    · exact scheduled.wasEnqueued other earlier
    · exact isEnqueued
  · simpa [Event.created, Event.enqueued] using scheduled.wasCreated
  · simpa [Event.created] using scheduled.notKernel
  · exact kernelPid

end Scheduled

/-- The state `init_tasking` has made once the kernel task is enqueued. -/
theorem start_scheduled {boot : Boot} {s : Scheduler}
    (started : startTasking boot.kernel boot.scheduler = .ok () s) : Scheduled boot [] s := by
  cases started
  constructor
  · constructor
    · constructor
      · simp [Boot.scheduler, Scheduler.setQueue, Scheduler.modify, Scheduler.next]
      · simp [Boot.scheduler, Scheduler.setQueue, Scheduler.modify]
      · simp [Boot.scheduler, Scheduler.setQueue, Scheduler.modify]
      · simp [Boot.scheduler, Scheduler.setQueue, Scheduler.modify]
      · simp [Boot.scheduler, Scheduler.setQueue, Scheduler.modify]
      · simp
      · simp
    · rfl
  · rfl
  · simp [enqueued, terminated]
  · simp [terminated]
  · simp [enqueued]
  · simp [created]
  · simp [Boot.scheduler, Scheduler.setQueue, Scheduler.modify]

/-- Every run keeps the lists. -/
theorem run_scheduled {boot : Boot} {events : List Event} {s : Scheduler}
    (run : Run boot events s) : Scheduled boot events s := by
  induction run with
  | start started => exact start_scheduled started
  | @step events s after event run enabled returned ih =>
      cases event with
      | tick current => exact ih.tick returned
      | create task name => exact ih.create enabled.1 enabled.2 returned
      | enqueue task => exact ih.enqueue enabled.1 enabled.2 returned
      | schedule current => exact ih.schedule returned
      | terminate current => exact ih.terminate enabled returned

/-! ## The two lists as pointers spell them -/

/-- `tasks` is the ready list: its pointers end, its ends are where the list says,
its first is current, and it holds what was enqueued and has not terminated. -/
structure ProperReadyList (boot : Boot) (events : List Event) (s : Scheduler)
    (tasks : List TaskRef) : Prop where
  listed : Chain s.next (s.queues .readyToRun).head tasks
  nodup : tasks.Nodup
  last : (s.queues .readyToRun).tail = tasks.getLast?
  first : s.currentTask = tasks.head?
  members : ∀ task, task ∈ tasks ↔
    (task = boot.kernel ∨ task ∈ enqueued events) ∧ task ∉ terminated events

/-- The pointers of the terminated list lead through the tasks in the order they
terminated, end, and share no task with the ready list. -/
structure ProperTerminatedList (events : List Event) (s : Scheduler) : Prop where
  listed : Chain s.next (s.queues .terminated).head (terminated events)
  last : (s.queues .terminated).tail = (terminated events).getLast?
  apart : ∀ tasks, Chain s.next (s.queues .readyToRun).head tasks →
    ∀ task ∈ tasks, task ∉ terminated events

section Lists

variable {boot : Boot} {events : List Event} {s : Scheduler}

/-- In every state of every run the ready list is proper and holds the kernel task;
`schedule` returns there, and so does `terminate_task` when called by a user task,
which another ready task follows. -/
theorem readyList_proper (run : Run boot events s) :
    ∃ tasks, ProperReadyList boot events s tasks ∧ boot.kernel ∈ tasks ∧
      (∃ after, schedule s = .ok () after) ∧
      ∀ current, s.currentTask = some current → (s.process current).pid ≠ 0 →
        s.next current ≠ none ∧ ∃ after, terminateTask s = .ok () after := by
  have scheduled := run_scheduled run
  have represents := scheduled.represents
  refine ⟨(Queues.after boot events).ready, ?_, scheduled.kernel_ready, ?_, ?_⟩
  · constructor
    · exact represents.ready
    · exact represents.ready.nodup
    · exact represents.readyTail
    · exact represents.running
    · exact scheduled.ready
  · obtain ⟨after, returned, _⟩ := represents.schedule scheduled.ready_ne_nil
    exact ⟨after, returned⟩
  · intro current running user
    obtain ⟨nextTask, rest, shape⟩ := scheduled.user_followed running user
    have lists : Queues.after boot events =
        { ready := current :: nextTask :: rest, dead := terminated events } :=
      Queues.ext shape scheduled.dead
    rw [lists] at represents
    obtain ⟨after, returned, _⟩ := represents.terminate user
    refine ⟨?_, after, returned⟩
    rw [represents.toListed.dropFirst.1]
    exact Option.some_ne_none nextTask

/-- In a state of a run the terminated list is proper exactly when the tasks
terminated so far are not one: a lone terminated task still points to the ready one
after it. -/
theorem terminatedList_proper_iff (run : Run boot events s) :
    ProperTerminatedList events s ↔ (terminated events).length ≠ 1 := by
  have scheduled := run_scheduled run
  have represents := scheduled.represents
  have dead := scheduled.dead
  constructor
  · intro proper alone
    obtain ⟨task, only⟩ := List.length_eq_one_iff.mp alone
    have listed := proper.listed
    rw [only] at listed
    exact represents.deadAlone task (dead.trans only) listed.2
  · intro several
    rw [← dead] at several
    constructor
    · exact dead ▸ represents.deadChain several
    · exact dead ▸ represents.deadTail
    · intro tasks listed task member
      rw [listed.unique represents.ready] at member
      exact dead ▸ represents.apart task member

end Lists

/-- A boot that puts the kernel task's record at the start of the heap. -/
def Boot.sample : Boot where
  process := fun _ => newProcess 0
  ticks := 0
  kernel := 0x0F000000

/-- A task is made and enqueued, gets its turn, and terminates. -/
def oneTermination : List Event :=
  [.create 0x0F001000 "task1", .enqueue 0x0F001000, .schedule 0x0F000000,
    .terminate 0x0F001000]

theorem oneTermination_runs : ∃ s, Run Boot.sample oneTermination s := by
  have started : Run Boot.sample [] _ := .start rfl
  have made : Run Boot.sample [.create 0x0F001000 "task1"] _ :=
    started.step ⟨by decide, by decide⟩ rfl
  have queued : Run Boot.sample [.create 0x0F001000 "task1", .enqueue 0x0F001000] _ :=
    made.step ⟨by decide, by decide⟩ rfl
  have switched : Run Boot.sample [.create 0x0F001000 "task1", .enqueue 0x0F001000,
      .schedule 0x0F000000] _ := queued.step rfl rfl
  exact ⟨_, switched.step rfl rfl⟩

theorem readyList_proper_one_termination :
    ∃ s, Run Boot.sample oneTermination s ∧
      ∃ tasks, ProperReadyList Boot.sample oneTermination s tasks ∧
        Boot.sample.kernel ∈ tasks := by
  obtain ⟨s, run⟩ := oneTermination_runs
  obtain ⟨tasks, proper, kernel, _⟩ := readyList_proper run
  exact ⟨s, run, tasks, proper, kernel⟩

theorem terminatedList_proper_iff_one_termination :
    ∃ s, Run Boot.sample oneTermination s ∧
      (ProperTerminatedList oneTermination s ↔ (terminated oneTermination).length ≠ 1) := by
  obtain ⟨s, run⟩ := oneTermination_runs
  exact ⟨s, run, terminatedList_proper_iff run⟩

/-- After the first termination the terminated list does not end. -/
theorem terminatedList_improper :
    ∃ s, Run Boot.sample oneTermination s ∧ ¬ ProperTerminatedList oneTermination s := by
  obtain ⟨s, run⟩ := oneTermination_runs
  refine ⟨s, run, fun proper => ?_⟩
  have scheduled := run_scheduled run
  have listed : s.next 0x0F001000 = none := proper.listed.2
  exact scheduled.represents.deadAlone 0x0F001000 scheduled.dead listed

end TorchOS.Tasking
