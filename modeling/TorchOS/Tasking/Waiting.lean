import TorchOS.Tasking.RunQueue

/-!
# How long a ready task waits

Every `schedule` and every termination moves each waiting task one place forward,
and nothing else moves it: new tasks join behind it. So a task at position `k` of
the ready list becomes current at the `k`-th of them.
-/

namespace TorchOS.Tasking

open Base Base.Program

/-- What happens after a run, from its last state on. -/
inductive Continues (boot : Boot) (events : List Event) (s : Scheduler) :
    List Event → Scheduler → Prop where
  | refl : Continues boot events s [] s
  | step {more : List Event} {reached after : Scheduler} {event : Event}
      (prior : Continues boot events s more reached)
      (enabled : Enabled boot (events ++ more) reached event)
      (returned : event.run reached = .ok () after) :
      Continues boot events s (more ++ [event]) after

theorem Continues.run {boot : Boot} {events more : List Event} {s after : Scheduler}
    (continues : Continues boot events s more after) (run : Run boot events s) :
    Run boot (events ++ more) after := by
  induction continues with
  | refl => simpa using run
  | step _ enabled returned ih =>
      rw [← List.append_assoc]
      exact ih.step enabled returned

/-- Whether an event passes the processor on: the current task gives way or ends. -/
def Event.passesOn : Event → Bool
  | .schedule _ => true
  | .terminate _ => true
  | _ => false

/-- How many times the processor was passed on. -/
def turns (events : List Event) : Nat := events.countP Event.passesOn

@[simp] theorem turns_nil : turns [] = 0 := rfl

theorem turns_snoc (events : List Event) (event : Event) :
    turns (events ++ [event]) = turns events + if event.passesOn then 1 else 0 := by
  simp [turns, List.countP_append, List.countP_singleton]

/-- An event that passes the processor on moves every waiting task one place forward,
and any other event leaves it in its place. -/
theorem Queues.advances {lists : Queues} {position : Nat} {task : TaskRef} {event : Event}
    (waiting : lists.ready[position]? = some task)
    (behind : (if event.passesOn then 1 else 0) ≤ position) :
    (lists.apply event).ready[position - if event.passesOn then 1 else 0]? = some task := by
  cases event with
  | tick current => exact waiting
  | create made name => exact waiting
  | enqueue added =>
      have inside : position < lists.ready.length := (List.getElem?_eq_some_iff.mp waiting).1
      exact (List.getElem?_append_left inside).trans waiting
  | schedule current =>
      have inside : position < lists.ready.length := (List.getElem?_eq_some_iff.mp waiting).1
      have later : 1 ≤ position := behind
      simp only [Queues.apply, Event.passesOn, if_true]
      rw [List.getElem?_rotate (by omega), ← waiting, Nat.sub_add_cancel later,
        Nat.mod_eq_of_lt inside]
  | terminate current =>
      have later : 1 ≤ position := behind
      simp only [Queues.apply, Event.passesOn, if_true, List.getElem?_tail]
      rwa [Nat.sub_add_cancel later]

section Waiting

variable {boot : Boot} {events more : List Event} {s after : Scheduler}

/-- As long as its turn has not come, a waiting task is as far forward as there were
turns. -/
theorem Continues.position (continues : Continues boot events s more after) {position : Nat}
    {task : TaskRef} (waiting : (Queues.after boot events).ready[position]? = some task)
    (soFar : turns more ≤ position) :
    (Queues.after boot (events ++ more)).ready[position - turns more]? = some task := by
  induction continues with
  | refl => simpa using waiting
  | @step more reached after event prior enabled returned ih =>
      rw [turns_snoc] at soFar
      have moved := (Queues.advances (ih (by omega)) (by omega) :
        ((Queues.after boot (events ++ more)).apply event).ready[_]? = some task)
      rw [← List.append_assoc, Queues.after_snoc, turns_snoc, ← Nat.sub_sub]
      exact moved

/-- In a list without repetition only the task at the front is current. -/
theorem current_iff_front (run : Run boot events s) {position : Nat} {task : TaskRef}
    (waiting : (Queues.after boot events).ready[position]? = some task) :
    s.currentTask = some task ↔ position = 0 := by
  have represents := (run_scheduled run).represents
  rw [represents.running, List.head?_eq_getElem?]
  constructor
  · intro front
    have inside : position < (Queues.after boot events).ready.length :=
      (List.getElem?_eq_some_iff.mp waiting).1
    exact (List.getElem?_inj inside represents.ready.nodup).mp (waiting.trans front.symm)
  · rintro rfl
    exact waiting

end Waiting

/-! ## A round of the ready list -/

/-- Call `schedule` again and again, and note which task is current after each call. -/
def scheduleTimes : Nat → Code (List (Option TaskRef))
  | 0 => pure []
  | count + 1 => do
      schedule
      let current ← read Scheduler.currentTask
      let others ← scheduleTimes count
      pure (current :: others)

theorem scheduleTimes_run {s : Scheduler} {ready dead : List TaskRef} (nonempty : ready ≠ [])
    (represents : Represents s ⟨ready, dead⟩) (count : Nat) :
    ∃ after, scheduleTimes count s =
        .ok ((List.range count).map fun index => (ready.rotate (index + 1)).head?) after ∧
      Represents after ⟨ready.rotate count, dead⟩ := by
  induction count generalizing s ready with
  | zero => exact ⟨s, rfl, by rwa [List.rotate_zero]⟩
  | succ count ih =>
      obtain ⟨next, returned, once⟩ := represents.schedule nonempty
      have stillNonempty : ready.rotate 1 ≠ [] := by simpa using nonempty
      obtain ⟨after, others, restored⟩ := ih stillNonempty once
      refine ⟨after, ?_, ?_⟩
      · rw [scheduleTimes, bind_of_ok returned, bind_of_ok (read_run _ next), bind_of_ok others]
        simp [pure_run, List.range_succ_eq_map, once.running, List.rotate_rotate,
          Nat.add_comm 1]
      · rwa [List.rotate_rotate, Nat.add_comm] at restored

/-- The fronts of a list as it is rotated once around are its elements. -/
theorem map_head_rotate (ready : List TaskRef) :
    ((List.range ready.length).map fun index => (ready.rotate (index + 1)).head?) =
      (ready.rotate 1).map some := by
  apply List.ext_getElem
  · simp
  · intro index inside _
    have short : index < ready.length := by simpa using inside
    have positive : 0 < ready.length := by omega
    simp [List.head?_eq_getElem?, List.getElem?_rotate positive, List.getElem_rotate,
      Nat.mod_lt _ positive]

/-- Exact bounded waiting: the task at position `k` of the ready list becomes current
at the `k`-th time the processor is passed on, and not before, whatever is created
and enqueued meanwhile; and as many calls of `schedule` as there are ready tasks run
each of them once and restore the list. -/
theorem waits_exactly {boot : Boot} {events : List Event} {s : Scheduler} {tasks : List TaskRef}
    (run : Run boot events s) (listed : Chain s.next (s.queues .readyToRun).head tasks) :
    s.currentTask = tasks[0]? ∧
      (∀ (position : Nat) (task : TaskRef), tasks[position]? = some task →
        ∀ (more : List Event) (after : Scheduler), Continues boot events s more after →
          turns more ≤ position → (after.currentTask = some task ↔ turns more = position)) ∧
      ∃ (ran : List (Option TaskRef)) (after : Scheduler),
        scheduleTimes tasks.length s = .ok ran after ∧
        ran = (tasks.rotate 1).map some ∧
        (∀ task ∈ tasks, ran.count (some task) = 1) ∧
        Chain after.next (after.queues .readyToRun).head tasks ∧
        (after.queues .readyToRun).tail = (s.queues .readyToRun).tail ∧
        after.currentTask = s.currentTask := by
  have scheduled := run_scheduled run
  have represents := scheduled.represents
  have same : tasks = (Queues.after boot events).ready := listed.unique represents.ready
  subst same
  refine ⟨?_, ?_, ?_⟩
  · rw [represents.running, List.head?_eq_getElem?]
  · intro position task waiting more after continues soFar
    have moved := continues.position waiting soFar
    rw [current_iff_front (continues.run run) moved]
    omega
  · obtain ⟨after, returned, restored⟩ :=
      scheduleTimes_run scheduled.ready_ne_nil represents (Queues.after boot events).ready.length
    rw [map_head_rotate] at returned
    rw [List.rotate_length] at restored
    refine ⟨_, after, returned, rfl, ?_, restored.ready, ?_, ?_⟩
    · intro task member
      have once : ((Queues.after boot events).ready.rotate 1).Nodup :=
        List.nodup_rotate.mpr represents.ready.nodup
      exact List.count_eq_one_of_mem (once.map (Option.some_injective _)) (by simpa using member)
    · rw [restored.readyTail, represents.readyTail]
    · rw [restored.running, represents.running]

/-- The kernel task and one more are ready. -/
def twoReady : List Event := [.create 0x0F001000 "task1", .enqueue 0x0F001000]

theorem twoReady_runs : ∃ s, Run Boot.sample twoReady s := by
  have started : Run Boot.sample [] _ := .start rfl
  have made : Run Boot.sample [.create 0x0F001000 "task1"] _ :=
    started.step ⟨by decide, by decide⟩ rfl
  exact ⟨_, made.step ⟨by decide, by decide⟩ rfl⟩

theorem waits_exactly_two_ready :
    ∃ s after, Run Boot.sample twoReady s ∧
      Continues Boot.sample twoReady s [.schedule 0x0F000000] after ∧
      after.currentTask = some 0x0F001000 := by
  obtain ⟨s, run⟩ := twoReady_runs
  have scheduled := run_scheduled run
  have represents := scheduled.represents
  obtain ⟨after, returned, _⟩ := represents.schedule scheduled.ready_ne_nil
  have enabled : Enabled Boot.sample (twoReady ++ []) s (.schedule 0x0F000000) :=
    represents.running
  have continues : Continues Boot.sample twoReady s [.schedule 0x0F000000] after :=
    .step .refl enabled returned
  refine ⟨s, after, run, continues, ?_⟩
  obtain ⟨_, waits, _⟩ := waits_exactly run represents.ready
  exact (waits 1 0x0F001000 rfl _ after continues le_rfl).mpr rfl

end TorchOS.Tasking
