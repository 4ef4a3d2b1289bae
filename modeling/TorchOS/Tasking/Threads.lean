import TorchOS.Tasking.RunQueue
import TorchOS.Base.Rotation
import TorchOS.Base.Run

/-!
# Tasks that run code

A task is its record and the code it runs. What it does between two calls of the
scheduler stays on its own stack, so it goes on where it left off: `place` says where.
The pointers and records are then one way to keep the queue of a rotation, whatever
code the tasks run and whenever the timer interrupts them.
-/

namespace TorchOS.Tasking

open Base Base.Program

/-! ## Process numbers -/

/-- No process changes its number, and none is made. -/
structure SamePids (before after : Scheduler) : Prop where
  pid : ∀ task, (after.process task).pid = (before.process task).pid
  next : after.nextAvailablePid = before.nextAvailablePid

namespace SamePids

theorem refl (s : Scheduler) : SamePids s s := ⟨fun _ => rfl, rfl⟩

theorem trans (a b c : Scheduler) (first : SamePids a b) (second : SamePids b c) :
    SamePids a c :=
  ⟨fun task => (second.pid task).trans (first.pid task), second.next.trans first.next⟩

/-- Changing other fields of a record. -/
theorem modify (s : Scheduler) (task : TaskRef) {change : Process → Process}
    (pid : ∀ process, (change process).pid = process.pid) : SamePids s (s.modify task change) := by
  refine ⟨fun other => ?_, rfl⟩
  by_cases same : other = task
  · subst same
    simp [Scheduler.modify, pid]
  · simp [Scheduler.modify, same]

theorem read {α : Type} (view : Scheduler → α) :
    Respects SamePids (Program.read view : Code α) := refl

theorem setNextTask (task : TaskRef) (target : Option TaskRef) :
    Respects SamePids (update (Scheduler.setNextTask task target) : Code Unit) := by
  intro s
  rw [update_run, final_ok, Scheduler.setNextTask]
  exact modify s task fun _ => rfl

theorem setState (task : TaskRef) (state : TaskState) :
    Respects SamePids (update (Scheduler.setState task state) : Code Unit) := by
  intro s
  rw [update_run, final_ok, Scheduler.setState]
  exact modify s task fun _ => rfl

theorem addTime (task : TaskRef) (elapsed : UInt32) :
    Respects SamePids (update (Scheduler.addTime task elapsed) : Code Unit) := by
  intro s
  rw [update_run, final_ok, Scheduler.addTime]
  exact modify s task fun _ => rfl

theorem setQueue (queue : Queue) (list : TaskList) :
    Respects SamePids (update (Scheduler.setQueue queue list) : Code Unit) :=
  fun _ => ⟨fun _ => rfl, rfl⟩

theorem deref (pointer : Option TaskRef) (offset : UInt32) :
    Respects SamePids (deref pointer offset) := by
  cases pointer with
  | none => exact refl
  | some task => exact refl

theorem enqueueTask (queue : Queue) (proc : TaskRef) :
    Respects SamePids (enqueueTask queue proc) := by
  refine Respects.bind trans (read _) fun list => ?_
  split
  · exact setQueue _ _
  · refine Respects.bind trans (deref _ _) fun tail => ?_
    refine Respects.bind trans (setNextTask _ _) fun _ => ?_
    refine Respects.bind trans (setNextTask _ _) fun _ => ?_
    exact setQueue _ _

theorem updateTime : Respects SamePids updateTime := by
  refine Respects.bind trans (read _) fun currentTime => ?_
  refine Respects.bind trans (read _) fun lastTime => ?_
  refine Respects.bind trans (fun s => ⟨fun _ => rfl, rfl⟩) fun _ => ?_
  refine Respects.bind trans (read _) fun current => ?_
  exact Respects.bind trans (deref _ _) fun task => addTime _ _

theorem switchToTask (other : Option TaskRef) : Respects SamePids (switchToTask other) := by
  refine Respects.bind trans updateTime fun _ => ?_
  refine Respects.bind trans (fun s => ⟨fun _ => rfl, rfl⟩) fun _ => ?_
  exact Respects.bind trans (deref _ _) fun _ => refl

theorem schedule : Respects SamePids schedule := by
  refine Respects.bind trans (read _) fun running => ?_
  refine Respects.bind trans (deref _ _) fun current => ?_
  refine Respects.bind trans (read _) fun follows => ?_
  cases follows with
  | none => exact refl
  | some nextTask =>
      refine Respects.bind trans (read _) fun list => ?_
      refine Respects.bind trans (setQueue _ _) fun _ => ?_
      refine Respects.bind trans (setState _ _) fun _ => ?_
      exact Respects.bind trans (enqueueTask _ _) fun _ => switchToTask _

theorem terminateTask : Respects SamePids terminateTask := by
  refine Respects.bind trans (read _) fun running => ?_
  refine Respects.bind trans (deref _ _) fun current => ?_
  refine Respects.bind trans (read _) fun pid => ?_
  have checked : Respects SamePids (haltIf (decide (pid = 0))
      (.panic "Attempt to terminate the kernel task!") : Code Unit) := by
    cases decide (pid = 0) <;> exact refl
  refine Respects.bind trans checked fun _ => ?_
  refine Respects.bind trans (read _) fun nextTask => ?_
  refine Respects.bind trans (read _) fun list => ?_
  refine Respects.bind trans (setQueue _ _) fun _ => ?_
  refine Respects.bind trans (setState _ _) fun _ => ?_
  exact Respects.bind trans (enqueueTask _ _) fun _ => switchToTask _

end SamePids

/-- Processes are numbered in the order they were made, modulo 2^32. -/
structure Numbered (boot : Boot) (events : List Event) (s : Scheduler) : Prop where
  pid : ∀ index task, (boot.kernel :: created events)[index]? = some task →
    (s.process task).pid = UInt32.ofNat index
  next : s.nextAvailablePid = UInt32.ofNat ((created events).length + 1)

theorem Numbered.keep {boot : Boot} {events : List Event} {event : Event} {s after : Scheduler}
    (numbered : Numbered boot events s) (noTask : event.created = none)
    (same : SamePids s after) : Numbered boot (events ++ [event]) after := by
  have sameCreated : created (events ++ [event]) = created events := by simp [noTask]
  constructor
  · intro index task found
    rw [sameCreated] at found
    rw [same.pid]
    exact numbered.pid index task found
  · rw [same.next, sameCreated]
    exact numbered.next

theorem Numbered.create {boot : Boot} {events : List Event} {s after : Scheduler} {task : TaskRef}
    {name : String} (numbered : Numbered boot events s) (notKernel : task ≠ boot.kernel)
    (fresh : task ∉ created events) (returned : (Event.create task name).run s = .ok () after) :
    Numbered boot (events ++ [.create task name]) after := by
  cases (Event.create_run task name s).symm.trans returned
  have grown : created (events ++ [.create task name]) = created events ++ [task] := by
    simp [Event.created]
  constructor
  · intro index other found
    rw [grown, ← List.cons_append, List.getElem?_append] at found
    split at found
    next earlier =>
      have known := List.mem_of_getElem? found
      have different : other ≠ task := by
        rintro rfl
        simp [notKernel, fresh] at known
      simpa [Scheduler.modify, different] using numbered.pid index other found
    next new =>
      have last : index = (boot.kernel :: created events).length := by
        have bound := (List.getElem?_eq_some_iff.mp found).1
        rw [List.length_singleton] at bound
        omega
      subst last
      simp only [Nat.sub_self, List.getElem?_cons_zero, Option.some.injEq] at found
      subst found
      simpa [Scheduler.modify, newProcess] using numbered.next
  · rw [grown]
    simp [Scheduler.modify, numbered.next, UInt32.ofNat_add]

theorem run_numbered {boot : Boot} {events : List Event} {s : Scheduler}
    (run : Run boot events s) : Numbered boot events s := by
  induction run with
  | start started =>
      cases started
      constructor
      · intro index task found
        cases index with
        | zero =>
            cases found
            simp [Boot.scheduler, Scheduler.setQueue, Scheduler.modify]
        | succ index => simp [created] at found
      · rfl
  | @step events s after event run enabled returned ih =>
      cases event with
      | tick current =>
          cases returned
          exact ih.keep rfl ⟨fun _ => rfl, rfl⟩
      | create task name => exact ih.create enabled.1 enabled.2 returned
      | enqueue task => exact ih.keep rfl ((SamePids.enqueueTask _ _).of_ok returned)
      | schedule current => exact ih.keep rfl (SamePids.schedule.of_ok returned)
      | terminate current => exact ih.keep rfl (SamePids.terminateTask.of_ok returned)

/-- `terminate_task` returns to a user task's successor. -/
theorem Scheduled.terminates {boot : Boot} {events : List Event} {s : Scheduler}
    {current : TaskRef} (scheduled : Scheduled boot events s)
    (running : s.currentTask = some current) (user : (s.process current).pid ≠ 0) :
    ∃ after, terminateTask s = .ok () after := by
  obtain ⟨nextTask, rest, shape⟩ := scheduled.user_followed running user
  have represents := scheduled.represents
  have lists : Queues.after boot events =
      { ready := current :: nextTask :: rest, dead := terminated events } :=
    Queues.ext shape scheduled.dead
  rw [lists] at represents
  obtain ⟨after, returned, _⟩ := represents.terminate user
  exact ⟨after, returned⟩

/-! ## Code -/

/-- The scheduler, the place each task goes on from, and what the tasks have printed,
each output with the running task's `time_used` at that moment. -/
structure Threads (ρ ω : Type) where
  scheduler : Scheduler
  place : TaskRef → ρ
  printed : List (ω × UInt32)

namespace Threads

variable {ρ ω : Type}

/-- A call of code of `tasking.c` or `timer.c`. -/
def onScheduler {α : Type} (code : Code α) : Program Halt (Threads ρ ω) α := fun t =>
  match code t.scheduler with
  | .ok value scheduler => .ok value { t with scheduler := scheduler }
  | .error reason scheduler => .error reason { t with scheduler := scheduler }

/-- A task prints. -/
def print (task : TaskRef) (output : ω) (t : Threads ρ ω) : Threads ρ ω :=
  { t with printed := t.printed ++ [(output, (t.scheduler.process task).timeUsed)] }

/-- A task will go on from another place. -/
def setPlace (task : TaskRef) (next : ρ) (t : Threads ρ ω) : Threads ρ ω :=
  { t with place := Function.update t.place task next }

/-- The running task, which `current_task` points to, goes on: it prints, calls
`schedule` or calls `terminate_task`. -/
def act (program : ρ → Act ρ ω) : Program Halt (Threads ρ ω) Unit := do
  let current ← onScheduler (deref (← read fun t => t.scheduler.currentTask) 0)
  match program (← read fun t => t.place current) with
  | .print output next =>
      update (print current output)
      update (setPlace current next)
  | .giveWay next =>
      update (setPlace current next)
      onScheduler schedule
  | .finish => onScheduler terminateTask

/-- A timer interrupt, or the running task going on. -/
inductive Beat where
  | tick
  | act

/-- The code of a beat. -/
def Beat.run (program : ρ → Act ρ ω) : Beat → Program Halt (Threads ρ ω) Unit
  | .tick => onScheduler timerCallback
  | .act => Threads.act program

/-- Whether a beat is one of the running task. -/
def Beat.isAct : Beat → Bool
  | .tick => false
  | .act => true

/-- How often tasks went on. -/
def acts (beats : List Beat) : Nat := beats.countP Beat.isAct

/-- A beat that does not halt. -/
def Beats (program : ρ → Act ρ ω) (t : Threads ρ ω) (beat : Beat) (after : Threads ρ ω) : Prop :=
  beat.run program t = .ok () after

/-- The tasks start at their first instruction. -/
def start (s : Scheduler) (place : TaskRef → ρ) : Threads ρ ω := ⟨s, place, []⟩

end Threads

/-! ## Making the tasks -/

/-- Whether an event is a timer interrupt. -/
def Event.isTick : Event → Bool
  | .tick _ => true
  | _ => false

/-- Tasks made and enqueued one after the other, each at an address and with a name. -/
def setup (made : List (TaskRef × String)) : List Event :=
  made.flatMap fun task => [.create task.1 task.2, .enqueue task.1]

/-- What `init_tasking` leaves once it has made and enqueued these tasks, whenever the
timer interrupted it. -/
def Prepared (boot : Boot) (made : List (TaskRef × String)) (s : Scheduler) : Prop :=
  ∃ events, Run boot events s ∧ (events.filter fun event => !event.isTick) = setup made

section Setup

variable {boot : Boot} {events : List Event} {made : List (TaskRef × String)} {s : Scheduler}

theorem Event.eq_tick {event : Event} (ticks : event.isTick = true) :
    ∃ current, event = .tick current := by
  cases event <;> simp [Event.isTick] at ticks ⊢

/-- Timer interrupts leave the lists alone. -/
theorem Queues.after_filter (boot : Boot) (events : List Event) :
    Queues.after boot (events.filter fun event => !event.isTick) = Queues.after boot events := by
  induction events using List.reverseRecOn with
  | nil => rfl
  | append_singleton events event ih =>
      rw [List.filter_append, Queues.after_snoc]
      cases ticks : event.isTick with
      | true =>
          obtain ⟨current, rfl⟩ := Event.eq_tick ticks
          simp [ticks, ih, Queues.apply]
      | false => simp [ticks, ih]

theorem created_cons (event : Event) (events : List Event) :
    created (event :: events) = event.created.toList ++ created events := by
  cases event <;> simp [created, Event.created, List.filterMap_cons]

theorem created_filter (events : List Event) :
    created (events.filter fun event => !event.isTick) = created events := by
  induction events with
  | nil => rfl
  | cons event events ih =>
      cases ticks : event.isTick with
      | true =>
          obtain ⟨current, rfl⟩ := Event.eq_tick ticks
          simpa [ticks, created_cons, Event.created] using ih
      | false => simp [ticks, created_cons, ih]

theorem Queues.after_setup (boot : Boot) (made : List (TaskRef × String)) :
    Queues.after boot (setup made) = { ready := boot.kernel :: made.map Prod.fst, dead := [] } := by
  induction made using List.reverseRecOn with
  | nil => rfl
  | append_singleton made task ih =>
      have grown : setup (made ++ [task]) =
          setup made ++ [.create task.1 task.2] ++ [.enqueue task.1] := by
        simp [setup]
      rw [grown, Queues.after_snoc, Queues.after_snoc, ih]
      simp [Queues.apply]

theorem created_setup (made : List (TaskRef × String)) :
    created (setup made) = made.map Prod.fst := by
  induction made with
  | nil => rfl
  | cons task made ih =>
      simp only [setup] at ih
      simp [created_cons, setup, Event.created, ih]

end Setup

/-! ## A rotation on pointers -/

open Threads

section Rotates

variable {ρ ω : Type} {program : ρ → Act ρ ω} {boot : Boot} {t after : Threads ρ ω}
  {r : Rotation TaskRef ρ ω}

/-- The state is that of a rotation: what was printed, the ready list as its pointers
spell it, the running task, and the places of the ready tasks. -/
structure Mirrors (t : Threads ρ ω) (r : Rotation TaskRef ρ ω) : Prop where
  printed : t.printed.map Prod.fst = r.printed
  listed : Chain t.scheduler.next (t.scheduler.queues .readyToRun).head (r.queue.map Prod.fst)
  running : t.scheduler.currentTask = (r.queue.map Prod.fst).head?
  places : ∀ entry ∈ r.queue, t.place entry.1 = entry.2

/-- What a run of beats keeps: it is a run of the scheduler whose ready tasks are the
queue of the rotation. -/
structure Follows (boot : Boot) (t : Threads ρ ω) (r : Rotation TaskRef ρ ω) : Prop where
  run : ∃ events, Run boot events t.scheduler ∧
    (Queues.after boot events).ready = r.queue.map Prod.fst
  printed : t.printed.map Prod.fst = r.printed
  places : ∀ entry ∈ r.queue, t.place entry.1 = entry.2

theorem Follows.mirrors (follows : Follows boot t r) : Mirrors t r := by
  obtain ⟨⟨events, run, ready⟩, printed, places⟩ := follows
  have represents := (run_scheduled run).represents
  exact ⟨printed, ready ▸ represents.ready, ready ▸ represents.running, places⟩

/-- The queue of a run is not empty: the kernel task is on it. -/
theorem Follows.queue_cons (follows : Follows boot t r) :
    ∃ task place rest, r.queue = (task, place) :: rest ∧
      t.scheduler.currentTask = some task ∧ t.place task = place ∧ ∀ entry ∈ rest, entry.1 ≠ task := by
  obtain ⟨⟨events, run, ready⟩, _, places⟩ := follows
  have scheduled := run_scheduled run
  have running := scheduled.represents.running
  have once := scheduled.represents.ready.nodup
  cases queue : r.queue with
  | nil =>
      rw [queue] at ready
      exact absurd ready scheduled.ready_ne_nil
  | cons entry rest =>
      rw [ready, queue] at running once
      refine ⟨entry.1, entry.2, rest, rfl, running, places entry (by simp [queue]), ?_⟩
      intro other member same
      refine (List.nodup_cons.mp once).1 ?_
      rw [← same]
      exact List.mem_map_of_mem member

end Rotates

section Acts

variable {ρ ω : Type} {program : ρ → Act ρ ω} {boot : Boot} {t after : Threads ρ ω}
  {r : Rotation TaskRef ρ ω} {s : Scheduler} {task : TaskRef} {next : ρ} {output : ω}

theorem onScheduler_ok {α : Type} {code : Code α} {value : α}
    (returned : code t.scheduler = .ok value s) :
    onScheduler code t = .ok value { t with scheduler := s } := by
  simp [onScheduler, returned]

theorem onScheduler_error {α : Type} {code : Code α} {reason : Halt}
    (halted : code t.scheduler = .error reason s) :
    onScheduler code t = .error reason { t with scheduler := s } := by
  simp [onScheduler, halted]

/-- What the running task does is what its code says at its place. -/
theorem act_run (running : t.scheduler.currentTask = some task) :
    act program t =
      (match program (t.place task) with
      | .print output next => do
          update (print task output)
          update (setPlace task next)
      | .giveWay next => do
          update (setPlace task next)
          onScheduler schedule
      | .finish => onScheduler terminateTask : Program Halt (Threads ρ ω) Unit) t := by
  have found : onScheduler (deref t.scheduler.currentTask 0) t = .ok task t := by
    rw [running, onScheduler_ok (deref_some task 0 _)]
  refine (bind_of_ok (read_run _ t)).trans ((bind_of_ok found).trans ?_)
  refine (bind_of_ok (read_run _ t)).trans ?_
  rfl

theorem act_print (running : t.scheduler.currentTask = some task)
    (acts : program (t.place task) = .print output next) :
    act program t = .ok () (setPlace task next (print task output t)) := by
  rw [act_run running, acts]
  rfl

theorem act_giveWay (running : t.scheduler.currentTask = some task)
    (acts : program (t.place task) = .giveWay next) :
    act program t = onScheduler schedule (setPlace task next t) := by
  rw [act_run running, acts]
  rfl

theorem act_finish (running : t.scheduler.currentTask = some task)
    (acts : program (t.place task) = .finish) :
    act program t = onScheduler terminateTask t := by
  rw [act_run running, acts]

theorem terminateTask_kernel (running : s.currentTask = some task)
    (kernel : (s.process task).pid = 0) :
    terminateTask s = .error (.panic "Attempt to terminate the kernel task!") s := by
  refine (bind_of_ok (read_run _ s)).trans ?_
  rw [running, bind_of_ok (deref_some _ _ s), bind_of_ok (read_run _ s), kernel]
  rfl

/-- The places of the tasks that do not act. -/
theorem places_setPlace {rest : List (TaskRef × ρ)} {place : TaskRef → ρ}
    (places : ∀ entry ∈ rest, place entry.1 = entry.2)
    (others : ∀ entry ∈ rest, entry.1 ≠ task) :
    ∀ entry ∈ rest, Function.update place task next entry.1 = entry.2 := by
  intro entry member
  rw [Function.update_of_ne (others entry member)]
  exact places entry member

/-- A timer interrupt changes nothing of a rotation. -/
theorem Follows.tick (follows : Follows boot t r) (taken : Beats program t .tick after) :
    Follows boot after r := by
  obtain ⟨task, place, rest, queue, running, _⟩ := follows.queue_cons
  obtain ⟨⟨events, run, ready⟩, printed, places⟩ := follows
  have ticked : timerCallback t.scheduler = .ok () _ := rfl
  have returned := (onScheduler_ok ticked).symm.trans taken
  cases returned
  have on : Run boot (events ++ [.tick task]) _ := run.step running ticked
  refine ⟨⟨events ++ [.tick task], on, ?_⟩, printed, places⟩
  rw [Queues.after_snoc]
  exact ready

/-- When the running task goes on, so does the first routine of the rotation. -/
theorem Follows.act (follows : Follows boot t r) (taken : Beats program t .act after) :
    Follows boot after (Rotation.step program r) := by
  obtain ⟨task, place, rest, queue, running, here, others⟩ := follows.queue_cons
  obtain ⟨⟨events, run, ready⟩, printed, places⟩ := follows
  obtain ⟨queue', printed'⟩ := r
  change queue' = _ at queue
  subst queue
  have waiting : ∀ entry ∈ rest, t.place entry.1 = entry.2 :=
    fun entry member => places entry (List.mem_cons_of_mem _ member)
  change Threads.act program t = .ok () after at taken
  cases acts : program place with
  | print output next =>
      rw [act_print running (by rwa [here])] at taken
      cases taken
      rw [Rotation.step_print acts]
      refine ⟨⟨events, run, ready⟩, ?_, ?_⟩
      · simpa [setPlace, Threads.print] using printed
      · rw [List.forall_mem_cons]
        exact ⟨Function.update_self .., places_setPlace waiting others⟩
  | giveWay next =>
      rw [act_giveWay running (by rwa [here])] at taken
      obtain ⟨after', returned, _⟩ :=
        (run_scheduled run).represents.schedule (run_scheduled run).ready_ne_nil
      have switched : onScheduler schedule (setPlace task next t) = .ok () _ :=
        onScheduler_ok (t := setPlace task next t) returned
      cases switched.symm.trans taken
      rw [Rotation.step_giveWay acts]
      have on : Run boot (events ++ [.schedule task]) _ := run.step running returned
      refine ⟨⟨events ++ [.schedule task], on, ?_⟩, printed, ?_⟩
      · rw [Queues.after_snoc]
        simp [Queues.apply, ready]
      · intro entry member
        rcases List.mem_append.mp member with waits | last
        · exact places_setPlace waiting others entry waits
        · rw [List.mem_singleton.mp last]
          exact Function.update_self ..
  | finish =>
      rw [act_finish running (by rwa [here])] at taken
      cases returned : terminateTask t.scheduler with
      | error reason s =>
          rw [onScheduler_error returned] at taken
          cases taken
      | ok value s =>
          rw [onScheduler_ok returned] at taken
          cases taken
          rw [Rotation.step_finish acts]
          have on : Run boot (events ++ [.terminate task]) _ := run.step running returned
          refine ⟨⟨events ++ [.terminate task], on, ?_⟩, printed, waiting⟩
          rw [Queues.after_snoc]
          simp [Queues.apply, ready]

theorem Follows.beat {beat : Beat} (follows : Follows boot t r)
    (taken : Beats program t beat after) :
    Follows boot after (if beat.isAct then Rotation.step program r else r) := by
  cases beat with
  | tick => exact follows.tick taken
  | act => exact follows.act taken

/-- Along a run the rotation goes one step on for every beat of a task. -/
theorem Follows.beats {start : Threads ρ ω} {beats : List Beat} (follows : Follows boot start r)
    (run : Reaches (Beats program) start beats t) :
    Follows boot t ((Rotation.step program)^[acts beats] r) := by
  induction run with
  | refl => exact follows
  | @snoc beats state after beat run taken ih =>
      have next := ih.beat taken
      rw [acts, List.countP_append, List.countP_singleton, ← acts, Nat.add_comm,
        Function.iterate_add_apply]
      cases beat with
      | tick => exact next
      | act => exact next

/-- Nothing stops the tasks, except that the kernel task must not end. -/
theorem Follows.act_returns_iff (follows : Follows boot t r) :
    (∃ after, Beats program t .act after) ↔
      ∀ task, t.scheduler.currentTask = some task → program (t.place task) = .finish →
        (t.scheduler.process task).pid ≠ 0 := by
  obtain ⟨task, place, rest, queue, running, here, others⟩ := follows.queue_cons
  obtain ⟨⟨events, run, ready⟩, printed, places⟩ := follows
  constructor
  · rintro ⟨after, taken⟩ other same finishes kernel
    change Threads.act program t = .ok () after at taken
    rw [act_finish same finishes, onScheduler_error (terminateTask_kernel same kernel)] at taken
    cases taken
  · intro user
    cases acts : program (t.place task) with
    | print output next => exact ⟨_, act_print running acts⟩
    | giveWay next =>
        obtain ⟨s, returned, _⟩ :=
          (run_scheduled run).represents.schedule (run_scheduled run).ready_ne_nil
        have switched : onScheduler schedule (setPlace task next t) = .ok () _ :=
          onScheduler_ok (t := setPlace task next t) returned
        exact ⟨_, (act_giveWay running acts).trans switched⟩
    | finish =>
        obtain ⟨s, returned⟩ := (run_scheduled run).terminates running (user task running acts)
        exact ⟨_, (act_finish running acts).trans (onScheduler_ok returned)⟩

theorem onScheduler_samePids {code : Code Unit} (respects : Respects SamePids code)
    (returned : onScheduler code t = .ok () after) : SamePids t.scheduler after.scheduler := by
  cases ran : code t.scheduler with
  | error reason s =>
      rw [onScheduler_error ran] at returned
      cases returned
  | ok value s =>
      rw [onScheduler_ok ran] at returned
      cases returned
      exact respects.of_ok ran

theorem timerCallback_samePids : Respects SamePids timerCallback := fun _ => ⟨fun _ => rfl, rfl⟩

/-- Beats change no process number. -/
theorem beat_samePids {beat : Beat} (taken : Beats program t beat after) :
    SamePids t.scheduler after.scheduler := by
  cases beat with
  | tick => exact onScheduler_samePids timerCallback_samePids taken
  | act =>
      change Threads.act program t = .ok () after at taken
      cases running : t.scheduler.currentTask with
      | none =>
          rw [Threads.act, bind_of_ok (read_run _ t), running] at taken
          cases taken
      | some task =>
          cases acts : program (t.place task) with
          | print output next =>
              rw [act_print running acts] at taken
              cases taken
              exact .refl _
          | giveWay next =>
              rw [act_giveWay running acts] at taken
              exact onScheduler_samePids (t := setPlace task next t) SamePids.schedule taken
          | finish =>
              rw [act_finish running acts] at taken
              exact onScheduler_samePids SamePids.terminateTask taken

theorem beats_samePids {start : Threads ρ ω} {beats : List Beat}
    (run : Reaches (Beats program) start beats t) : SamePids start.scheduler t.scheduler := by
  induction run with
  | refl => exact .refl _
  | snoc _ taken ih => exact SamePids.trans _ _ _ ih (beat_samePids taken)

end Acts

/-! ## Runs from `init_tasking` -/

/-- The rotation that a kernel task and the tasks made after it start. -/
def startRotation {ρ ω : Type} (boot : Boot) (made : List (TaskRef × String))
    (place : TaskRef → ρ) : Rotation TaskRef ρ ω :=
  ⟨(boot.kernel :: made.map Prod.fst).map fun task => (task, place task), []⟩

section Prepared

variable {ρ ω : Type} {boot : Boot} {made : List (TaskRef × String)} {s : Scheduler}

theorem Prepared.follows (prepared : Prepared boot made s) (place : TaskRef → ρ) :
    Follows boot (start s place : Threads ρ ω) (startRotation boot made place) := by
  obtain ⟨events, run, made⟩ := prepared
  refine ⟨⟨events, run, ?_⟩, rfl, ?_⟩
  · rw [← Queues.after_filter, made, Queues.after_setup]
    simp [startRotation, Function.comp_def]
  · intro entry member
    obtain ⟨task, _, rfl⟩ := List.mem_map.mp member
    rfl

theorem Prepared.pid (prepared : Prepared boot made s) {index : Nat} {task : TaskRef}
    (found : (boot.kernel :: made.map Prod.fst)[index]? = some task) :
    (s.process task).pid = UInt32.ofNat index := by
  obtain ⟨events, run, made⟩ := prepared
  refine (run_numbered run).pid index task ?_
  rwa [← created_filter, made, created_setup]

/-- No two tasks share a record. -/
theorem Prepared.nodup (prepared : Prepared boot made s) :
    (boot.kernel :: made.map Prod.fst).Nodup := by
  obtain ⟨events, run, made⟩ := prepared
  have once := (run_scheduled run).represents.ready.nodup
  rwa [← Queues.after_filter, made, Queues.after_setup] at once

end Prepared

/-- Whatever code the tasks run and whenever the timer interrupts them, the pointers and
records keep a rotation of that code: what is printed, who runs, the ready list and
where each task goes on. A task can always go on, except that `terminate_task` panics
in a task with process number 0. -/
theorem threads_rotate {ρ ω : Type} {program : ρ → Act ρ ω} {boot : Boot}
    {made : List (TaskRef × String)} {s : Scheduler} {place : TaskRef → ρ} {beats : List Beat}
    {t : Threads ρ ω} (prepared : Prepared boot made s)
    (run : Reaches (Beats program) (start s place) beats t) :
    Mirrors t ((Rotation.step program)^[acts beats] (startRotation boot made place)) ∧
      ((∃ after, Beats program t .act after) ↔
        ∀ task, t.scheduler.currentTask = some task → program (t.place task) = .finish →
          (t.scheduler.process task).pid ≠ 0) := by
  have follows := (prepared.follows place).beats run
  exact ⟨follows.mirrors, follows.act_returns_iff⟩

end TorchOS.Tasking
