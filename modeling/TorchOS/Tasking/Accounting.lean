import TorchOS.Tasking.RunQueue
import Mathlib.Algebra.BigOperators.Group.Finset.Basic
import Mathlib.Data.UInt

/-!
# Ticks and the tasks they are charged to

Between two switches the ticks since the last one are owed to the current task, and
`update_time` charges them at the switch. Counting modulo 2^32 nothing is lost while
the tick counter does not fall behind the time of the last switch; when it has
wrapped past it, `elapsed_time` charges one tick too few.
-/

namespace TorchOS.Tasking

open Base Base.Program

/-! ## `elapsed_time` -/

theorem elapsedTime_of_le {start finish : UInt32} (ordered : start ≤ finish) :
    elapsedTime start finish = finish - start :=
  if_pos ordered

/-- The wrapped case is one short. -/
theorem elapsedTime_of_lt {start finish : UInt32} (wrapped : finish < start) :
    elapsedTime start finish = finish - start - 1 := by
  have later : ¬ finish ≥ start := by
    rw [ge_iff_le, UInt32.not_le]
    exact wrapped
  have startWide := start.toNat_lt
  have finishWide := finish.toNat_lt
  rw [UInt32.lt_iff_toNat_lt] at wrapped
  have full : (0xFFFFFFFFFFFFFFFF : UInt64).toNat = 2 ^ 64 - 1 := rfl
  have one : (1 : UInt32).toNat = 1 := rfl
  rw [elapsedTime, if_neg later, ← UInt32.toNat_inj]
  rw [UInt64.toNat_toUInt32, UInt64.toNat_add, UInt64.toNat_sub, UInt32.toNat_toUInt64,
    UInt32.toNat_toUInt64, full, UInt32.toNat_sub, UInt32.toNat_sub, one]
  omega

/-! ## Ticks of a run -/

def Event.ticked : Event → Option TaskRef
  | .tick current => some current
  | _ => none

/-- The tasks that were current at the timer interrupts so far. -/
def ticked (events : List Event) : List TaskRef := events.filterMap Event.ticked

/-- The timer interrupts delivered while a task was current. -/
def ticksOf (events : List Event) (task : TaskRef) : Nat := (ticked events).count task

@[simp] theorem ticked_snoc (events : List Event) (event : Event) :
    ticked (events ++ [event]) = ticked events ++ event.ticked.toList := by
  cases event <;> simp [ticked, Event.ticked]

/-- The tasks of a run: the kernel task and those made since. -/
def tasks (boot : Boot) (events : List Event) : List TaskRef := boot.kernel :: created events

/-- Every task's time is the number of interrupts delivered while it was current,
modulo 2^32, and the times add up to all interrupts. -/
structure TimesExact (boot : Boot) (events : List Event) (s : Scheduler) : Prop where
  each : ∀ task ∈ tasks boot events,
    (s.process task).timeUsed = UInt32.ofNat (ticksOf events task)
  total : ((tasks boot events).map fun task => (s.process task).timeUsed).sum =
    UInt32.ofNat (ticked events).length

/-- The ticks since the last switch, which the current task is not charged for yet. -/
def owed (s : Scheduler) (task : TaskRef) : UInt32 :=
  if s.currentTask = some task then s.ticks - s.lastTime else 0

/-- With what it is owed, every task's time is exact. -/
def Balanced (boot : Boot) (events : List Event) (s : Scheduler) : Prop :=
  ∀ task ∈ tasks boot events,
    (s.process task).timeUsed + owed s task = UInt32.ofNat (ticksOf events task)

section Steps

variable {boot : Boot} {events : List Event} {s after : Scheduler} {current : TaskRef}

theorem run_tasks_nodup (run : Run boot events s) : (tasks boot events).Nodup := by
  induction run with
  | start started => simp [tasks, created]
  | @step events s after event run enabled returned ih =>
      cases event with
      | create task name =>
          obtain ⟨notKernel, fresh⟩ := enabled
          obtain ⟨kernelFresh, once⟩ := List.nodup_cons.mp ih
          simp only [tasks, created_snoc, Event.created, Option.toList_some, List.nodup_cons,
            List.mem_append, List.mem_singleton, not_or]
          refine ⟨⟨kernelFresh, Ne.symm notKernel⟩, ?_⟩
          exact List.nodup_append'.mpr ⟨once, List.nodup_singleton _, by simpa using fresh⟩
      | _ => simpa [tasks, Event.created] using ih

/-- The current task of a run is one of its tasks. -/
theorem run_current_mem (run : Run boot events s) (running : s.currentTask = some current) :
    current ∈ tasks boot events := by
  have scheduled := run_scheduled run
  have first := scheduled.represents.running
  rw [running] at first
  have member := List.mem_of_head? first.symm
  rcases ((scheduled.ready current).mp member).1 with kernel | isEnqueued
  · exact kernel ▸ List.mem_cons_self
  · exact List.mem_cons_of_mem _ (scheduled.wasCreated current isEnqueued)

theorem run_ticked_mem (run : Run boot events s) : ∀ task ∈ ticked events,
    task ∈ tasks boot events := by
  induction run with
  | start started => simp [ticked]
  | @step events s after event run enabled returned ih =>
      intro task member
      have grown : ∀ other ∈ tasks boot events, other ∈ tasks boot (events ++ [event]) := by
        intro other known
        rcases List.mem_cons.mp known with kernel | made
        · exact kernel ▸ List.mem_cons_self
        · exact List.mem_cons_of_mem _ (by simp [made])
      rw [ticked_snoc, List.mem_append] at member
      rcases member with earlier | now
      · exact grown task (ih task earlier)
      · cases event with
        | tick current =>
            simp only [Event.ticked, Option.toList_some, List.mem_singleton] at now
            subst now
            exact grown task (run_current_mem run enabled)
        | _ => simp [Event.ticked] at now

/-- Counting every task's ticks counts all of them. -/
theorem sum_ticksOf (run : Run boot events s) :
    ((tasks boot events).map fun task => ticksOf events task).sum = (ticked events).length := by
  have once := run_tasks_nodup run
  have known := run_ticked_mem run
  rw [← List.sum_toFinset _ once, ← List.sum_toFinset_count_eq_length]
  symm
  apply Finset.sum_subset
  · intro task member
    exact List.mem_toFinset.mpr (known task (List.mem_toFinset.mp member))
  · intro task _ absent
    exact List.count_eq_zero.mpr fun member => absent (List.mem_toFinset.mpr member)

theorem ofNat_sum (counts : List Nat) :
    (counts.map UInt32.ofNat).sum = UInt32.ofNat counts.sum := by
  induction counts with
  | nil => rfl
  | cons count rest ih =>
      rw [List.map_cons, List.sum_cons, List.sum_cons, ih, UInt32.ofNat_add]

/-- Exact times of the single tasks add up. -/
theorem timesExact_of_each (run : Run boot events s)
    (each : ∀ task ∈ tasks boot events,
      (after.process task).timeUsed = UInt32.ofNat (ticksOf events task)) :
    TimesExact boot events after := by
  refine ⟨each, ?_⟩
  rw [List.map_congr_left each, ← sum_ticksOf run, ← ofNat_sum, List.map_map]
  rfl

end Steps

/-! ## Switches -/

/-- A step of a run that switches tasks, with the events up to and including it. -/
inductive SwitchStep (boot : Boot) : List Event → Scheduler → Scheduler → Prop where
  | yields {events : List Event} {before after : Scheduler} {current : TaskRef}
      (run : Run boot events before) (running : before.currentTask = some current)
      (followed : before.next current ≠ none) (returned : schedule before = .ok () after) :
      SwitchStep boot (events ++ [.schedule current]) before after
  | ends {events : List Event} {before after : Scheduler} {current : TaskRef}
      (run : Run boot events before) (running : before.currentTask = some current)
      (returned : terminateTask before = .ok () after) :
      SwitchStep boot (events ++ [.terminate current]) before after

/-- Times are exact after every switch of a run. -/
def Conserves (boot : Boot) (events : List Event) : Prop :=
  ∀ past before after, past <+: events → SwitchStep boot past before after →
    TimesExact boot past after

/-- Every switch of a run is made before the tick counter falls behind the time of the
previous one. -/
def InOrder (boot : Boot) (events : List Event) : Prop :=
  ∀ past before after, past <+: events → SwitchStep boot past before after →
    before.lastTime ≤ before.ticks

section Switches

variable {boot : Boot} {events : List Event} {s before after : Scheduler}
  {current nextTask : TaskRef}

/-- What a switch step does: the lists apart, it charges the current task. -/
theorem SwitchStep.charges (step : SwitchStep boot events before after) :
    ∃ past event current nextTask middle, events = past ++ [event] ∧ Run boot past before ∧
      Run boot events after ∧ Event.ticked event = none ∧ Event.created event = none ∧
      before.currentTask = some current ∧ SameAccounts before middle ∧
      after = middle.switched current nextTask := by
  cases step with
  | @yields past _ _ current run running followed returned =>
      obtain ⟨task, stillRunning, ⟨alone, _⟩ | ⟨nextTask, middle, _, same, switched⟩⟩ :=
        schedule_ok returned
      · rw [running] at stillRunning
        cases stillRunning
        exact absurd alone followed
      · exact ⟨past, _, task, nextTask, middle, rfl, run, run.step running returned, rfl, rfl,
          stillRunning, same, switched⟩
  | @ends past _ _ current run running returned =>
      obtain ⟨task, nextTask, middle, stillRunning, _, same, switched⟩ := terminateTask_ok returned
      exact ⟨past, _, task, nextTask, middle, rfl, run, run.step running returned, rfl, rfl,
        stillRunning, same, switched⟩

theorem timeUsed_switched (s : Scheduler) (task : TaskRef) :
    ((s.switched current nextTask).process task).timeUsed =
      (s.process task).timeUsed +
        if task = current then elapsedTime s.lastTime s.ticks else 0 := by
  by_cases same : task = current
  · subst same
    simp [Scheduler.switched, Scheduler.addTime, Scheduler.modify]
  · simp [Scheduler.switched, Scheduler.addTime, Scheduler.modify, same]

theorem owed_switched (s : Scheduler) (task : TaskRef) :
    owed (s.switched current nextTask) task = 0 := by
  have settled : s.ticks - s.ticks = 0 := UInt32.sub_self _
  unfold owed
  split
  · exact settled
  · rfl

/-- From balanced times a switch leaves exact ones exactly when the tick counter has
not fallen behind. -/
theorem SwitchStep.exact_iff (step : SwitchStep boot events before after)
    (balanced : ∀ past event, events = past ++ [event] → Balanced boot past before) :
    TimesExact boot events after ↔ before.lastTime ≤ before.ticks := by
  obtain ⟨past, event, current, nextTask, middle, rfl, run, runAfter, noTick, noTask, running,
    same, rfl⟩ := step.charges
  have balance := balanced past event rfl
  have sameTasks : tasks boot (past ++ [event]) = tasks boot past := by
    simp [tasks, noTask]
  have sameTicks : ∀ task, ticksOf (past ++ [event]) task = ticksOf past task := by
    intro task
    simp [ticksOf, noTick]
  have charged : ∀ task, ((middle.switched current nextTask).process task).timeUsed =
      (before.process task).timeUsed +
        if task = current then elapsedTime before.lastTime before.ticks else 0 := by
    intro task
    rw [timeUsed_switched, same.timeUsed, same.lastTime, same.ticks]
  constructor
  · intro claimedAll
    by_contra wrapped
    have known := run_current_mem run running
    have claimed := claimedAll.each current (sameTasks ▸ known)
    have due := balance current known
    rw [charged, if_pos rfl, elapsedTime_of_lt (UInt32.not_le.mp wrapped), sameTicks, ← due, owed,
      if_pos running] at claimed
    grind
  · intro ordered
    refine timesExact_of_each runAfter fun task known => ?_
    rw [sameTasks] at known
    have due := balance task known
    rw [charged, sameTicks, ← due, owed, running]
    by_cases isCurrent : task = current
    · subst isCurrent
      rw [if_pos rfl, if_pos rfl, elapsedTime_of_le ordered]
    · rw [if_neg isCurrent, if_neg fun same => isCurrent (Option.some.inj same).symm]

theorem InOrder.of_prefix {past : List Event} (ordered : InOrder boot events)
    (earlier : past <+: events) : InOrder boot past :=
  fun first before after shorter => ordered first before after (shorter.trans earlier)

theorem Conserves.of_prefix {past : List Event} (conserves : Conserves boot events)
    (earlier : past <+: events) : Conserves boot past :=
  fun first before after shorter => conserves first before after (shorter.trans earlier)

/-- After a switch nothing is owed. -/
theorem SwitchStep.balanced (step : SwitchStep boot events before after)
    (times : TimesExact boot events after) : Balanced boot events after := by
  obtain ⟨_, _, _, _, _, _, _, _, _, _, _, _, rfl⟩ := step.charges
  intro task known
  rw [owed_switched, UInt32.add_zero]
  exact times.each task known

/-- Events that touch neither times nor clocks keep the balance. -/
theorem Balanced.quiet {event : Event} (balanced : Balanced boot events s)
    (noTick : event.ticked = none) (noTask : event.created = none) (same : SameAccounts s after) :
    Balanced boot (events ++ [event]) after := by
  intro task known
  have sameTasks : tasks boot (events ++ [event]) = tasks boot events := by
    simp [tasks, noTask]
  have sameTicks : ticksOf (events ++ [event]) task = ticksOf events task := by
    simp [ticksOf, noTick]
  rw [sameTasks] at known
  rw [sameTicks, ← balanced task known, same.timeUsed, owed, owed, same.currentTask, same.ticks,
    same.lastTime]

theorem Balanced.tick (balanced : Balanced boot events s) (running : s.currentTask = some current)
    (returned : timerCallback s = .ok () after) :
    Balanced boot (events ++ [.tick current]) after := by
  cases returned
  intro task known
  have sameTasks : tasks boot (events ++ [.tick current]) = tasks boot events := by
    simp [tasks, Event.created]
  rw [sameTasks] at known
  have due := balanced task known
  simp only [owed, running] at due ⊢
  by_cases isCurrent : current = task
  · subst isCurrent
    rw [if_pos rfl] at due ⊢
    have counted : ticksOf (events ++ [.tick current]) current = ticksOf events current + 1 := by
      simp [ticksOf, Event.ticked]
    rw [counted, UInt32.ofNat_add, ← due]
    have later : s.ticks + 1 - s.lastTime = s.ticks - s.lastTime + 1 := by grind
    rw [later, ← UInt32.add_assoc]
    rfl
  · have different : ¬ some current = some task := fun same => isCurrent (Option.some.inj same)
    rw [if_neg different] at due ⊢
    have counted : ticksOf (events ++ [.tick current]) task = ticksOf events task := by
      simp [ticksOf, Event.ticked, isCurrent]
    rw [counted, ← due]

theorem Balanced.create {task : TaskRef} {name : String} (balanced : Balanced boot events s)
    (run : Run boot events s) (notKernel : task ≠ boot.kernel) (fresh : task ∉ created events)
    (returned : (Event.create task name).run s = .ok () after) :
    Balanced boot (events ++ [.create task name]) after := by
  cases (Event.create_run task name s).symm.trans returned
  have unknown : task ∉ tasks boot events := by
    simp [tasks, notKernel, fresh]
  have sameTicks : ∀ other, ticksOf (events ++ [.create task name]) other =
      ticksOf events other := by
    intro other
    simp [ticksOf, Event.ticked]
  intro other known
  rw [sameTicks]
  by_cases new : other = task
  · subst new
    have never : ticksOf events other = 0 :=
      List.count_eq_zero.mpr fun member => unknown (run_ticked_mem run other member)
    have notRunning : ¬ s.currentTask = some other := fun running =>
      unknown (run_current_mem run running)
    rw [never]
    simp [owed, Scheduler.modify, newProcess, notRunning]
  · have before : other ∈ tasks boot events := by
      rcases List.mem_cons.mp known with kernel | made
      · exact kernel ▸ List.mem_cons_self
      · rw [created_snoc, List.mem_append] at made
        refine List.mem_cons_of_mem _ (made.resolve_right ?_)
        simpa [Event.created] using new
    rw [← balanced other before]
    refine congrArg₂ (· + ·) ?_ rfl
    simp [Scheduler.modify, new]

/-- An event of a run counts a tick, makes a record, switches tasks or leaves the accounts
alone. -/
theorem step_accounts {event : Event} (run : Run boot events s)
    (enabled : Enabled boot events s event) (returned : event.run s = .ok () after) :
    (∃ current, event = .tick current) ∨ (∃ task name, event = .create task name) ∨
      SwitchStep boot (events ++ [event]) s after ∨
      (event.ticked = none ∧ event.created = none ∧ SameAccounts s after) := by
  cases event with
  | tick current => exact .inl ⟨current, rfl⟩
  | create task name => exact .inr (.inl ⟨task, name, rfl⟩)
  | enqueue task =>
      exact .inr (.inr (.inr ⟨rfl, rfl, enqueueTask_sameAccounts returned⟩))
  | terminate current => exact .inr (.inr (.inl (.ends run enabled returned)))
  | schedule current =>
      obtain ⟨task, running, ⟨alone, rfl⟩ | ⟨nextTask, middle, follows, _, _⟩⟩ :=
        schedule_ok returned
      · exact .inr (.inr (.inr ⟨rfl, rfl, .refl _⟩))
      · refine .inr (.inr (.inl (.yields run enabled ?_ returned)))
        have same : some task = some current := running.symm.trans enabled
        cases same
        rw [follows]
        exact Option.some_ne_none nextTask

/-- In a run whose switches are in order, times and debts stay balanced. -/
theorem run_balanced (zero : boot.ticks = 0) (run : Run boot events s)
    (ordered : InOrder boot events) : Balanced boot events s := by
  induction run with
  | start started =>
      cases started
      intro task known
      simp only [tasks, created, List.filterMap_nil, List.mem_singleton] at known
      subst known
      simp [owed, Boot.scheduler, Scheduler.setQueue, Scheduler.modify, zero, ticksOf, ticked]
  | @step events s after event run enabled returned ih =>
      have balanced := ih (ordered.of_prefix (List.prefix_append _ _))
      rcases step_accounts run enabled returned with
        ⟨current, rfl⟩ | ⟨task, name, rfl⟩ | step | ⟨noTick, noTask, same⟩
      · exact balanced.tick enabled returned
      · exact balanced.create run enabled.1 enabled.2 returned
      · refine step.balanced ((step.exact_iff ?_).mpr (ordered _ _ _ List.prefix_rfl step))
        intro past other same
        rwa [← (List.append_inj' same rfl).1]
      · exact balanced.quiet noTick noTask same

/-- The ticks are the interrupts modulo 2^32, and the time of the last switch was their
count at some time. -/
theorem run_clocks (zero : boot.ticks = 0) (run : Run boot events s) :
    s.ticks = UInt32.ofNat (ticked events).length ∧
      ∃ count ≤ (ticked events).length, s.lastTime = UInt32.ofNat count := by
  induction run with
  | start started =>
      cases started
      exact ⟨zero, 0, Nat.le_refl _, rfl⟩
  | @step events s after event run enabled returned ih =>
      obtain ⟨ticks, count, earlier, last⟩ := ih
      rw [ticked_snoc]
      rcases step_accounts run enabled returned with
        ⟨current, rfl⟩ | ⟨task, name, rfl⟩ | step | ⟨noTick, -, same⟩
      · cases returned
        refine ⟨?_, count, ?_, last⟩
        · rw [List.length_append, UInt32.ofNat_add, ← ticks]
          rfl
        · rw [List.length_append]
          omega
      · cases (Event.create_run task name s).symm.trans returned
        simp only [Event.ticked, Option.toList_none, List.append_nil]
        exact ⟨ticks, count, earlier, last⟩
      · obtain ⟨_, other, _, _, _, shape, _, _, noTick, _, _, same, rfl⟩ := step.charges
        obtain rfl : event = other := List.singleton_inj.mp (List.append_inj' shape rfl).2
        rw [noTick]
        simp only [Option.toList_none, List.append_nil]
        exact ⟨same.ticks.trans ticks, _, Nat.le_refl _, same.ticks.trans ticks⟩
      · rw [noTick]
        simp only [Option.toList_none, List.append_nil]
        exact ⟨same.ticks.trans ticks, count, earlier, same.lastTime.trans last⟩

/-- Before the counter wraps, every switch is in order. -/
theorem inOrder_of_few (zero : boot.ticks = 0) (few : (ticked events).length < 2 ^ 32) :
    InOrder boot events := by
  intro past before after earlier step
  obtain ⟨first, event, _, _, _, rfl, run, -⟩ := step.charges
  obtain ⟨ticks, count, passed, last⟩ := run_clocks zero run
  have counted : (ticked first).length ≤ (ticked events).length :=
    (((List.prefix_append first [event]).trans earlier).filterMap Event.ticked).length_le
  rw [ticks, last, UInt32.le_iff_toNat_le, UInt32.toNat_ofNat_of_lt' (by unfold UInt32.size; omega),
    UInt32.toNat_ofNat_of_lt' (by unfold UInt32.size; omega)]
  exact passed

/-- The events before a switch step are a run in order when those up to it are. -/
theorem SwitchStep.balanced_before (zero : boot.ticks = 0)
    (step : SwitchStep boot events before after)
    (ordered : ∀ past event, events = past ++ [event] → InOrder boot past) :
    ∀ past event, events = past ++ [event] → Balanced boot past before := by
  obtain ⟨first, last, _, _, _, shape, run, _⟩ := step.charges
  intro past event same
  have earlier := (List.append_inj' (shape.symm.trans same) rfl).1
  subst earlier
  exact run_balanced zero run (ordered first event same)

/-- From `ticks = last_time = 0`, times are exact after every switch of a run exactly
when no switch is made with the tick counter behind the time of the previous one. -/
theorem conserves_iff_inOrder (zero : boot.ticks = 0) (events : List Event) :
    Conserves boot events ↔ InOrder boot events := by
  constructor
  · intro conserves
    induction events using List.reverseRecOn with
    | nil =>
        intro past before after earlier step
        obtain ⟨first, last, _, _, _, shape, _⟩ := step.charges
        rw [List.prefix_nil.mp earlier] at shape
        simp at shape
    | append_singleton events event ih =>
        have kept := ih (conserves.of_prefix (List.prefix_append _ _))
        intro past before after earlier step
        rcases List.prefix_concat_iff.mp earlier with whole | shorter
        · refine (step.exact_iff (step.balanced_before zero ?_)).mp
            (conserves past before after earlier step)
          intro first last same
          rw [whole] at same
          rwa [← (List.append_inj' same rfl).1]
        · exact kept past before after shorter step
  · intro ordered past before after earlier step
    refine (step.exact_iff (step.balanced_before zero ?_)).mpr
      (ordered past before after earlier step)
    intro first last same
    refine ordered.of_prefix (List.IsPrefix.trans ?_ earlier)
    rw [same]
    exact List.prefix_append _ _

end Switches

/-- Two turns of the kernel task and one of another, with interrupts in each. -/
def turnsWithTicks : List Event :=
  [.create 0x0F001000 "task1", .enqueue 0x0F001000, .tick 0x0F000000, .tick 0x0F000000,
    .schedule 0x0F000000, .tick 0x0F001000, .schedule 0x0F001000, .tick 0x0F000000,
    .schedule 0x0F000000]

theorem conserves_iff_inOrder_turns_with_ticks :
    ∃ before after, SwitchStep Boot.sample turnsWithTicks before after ∧
      TimesExact Boot.sample turnsWithTicks after ∧
      (after.process 0x0F000000).timeUsed = 3 ∧ (after.process 0x0F001000).timeUsed = 1 := by
  have started : Run Boot.sample (turnsWithTicks.take 0) _ := .start rfl
  have made : Run Boot.sample (turnsWithTicks.take 1) _ :=
    started.step ⟨by decide, by decide⟩ rfl
  have queued : Run Boot.sample (turnsWithTicks.take 2) _ :=
    made.step ⟨by decide, by decide⟩ rfl
  have ticked : Run Boot.sample (turnsWithTicks.take 3) _ := queued.step rfl rfl
  have tickedAgain : Run Boot.sample (turnsWithTicks.take 4) _ := ticked.step rfl rfl
  have yielded : Run Boot.sample (turnsWithTicks.take 5) _ := tickedAgain.step rfl rfl
  have tickedOther : Run Boot.sample (turnsWithTicks.take 6) _ := yielded.step rfl rfl
  have returned : Run Boot.sample (turnsWithTicks.take 7) _ := tickedOther.step rfl rfl
  have tickedLast : Run Boot.sample (turnsWithTicks.take 8) _ := returned.step rfl rfl
  have step : SwitchStep Boot.sample turnsWithTicks _ _ :=
    .yields tickedLast rfl (Option.some_ne_none _) rfl
  have inOrder : InOrder Boot.sample turnsWithTicks := inOrder_of_few rfl (by decide)
  have conserves := (conserves_iff_inOrder rfl turnsWithTicks).mpr inOrder
  have exactTimes := conserves _ _ _ List.prefix_rfl step
  exact ⟨_, _, step, exactTimes, exactTimes.each _ (by decide), exactTimes.each _ (by decide)⟩

/-! ## A run across the wrap of the counter -/

section Wrap

variable {boot : Boot} {events : List Event} {s : Scheduler} {current : TaskRef}

/-- Timer interrupts only advance the clock. -/
theorem run_ticks (run : Run boot events s) (balanced : Balanced boot events s)
    (running : s.currentTask = some current) (count : Nat) :
    ∃ messages, Run boot (events ++ List.replicate count (.tick current))
        { s with ticks := s.ticks + UInt32.ofNat count, messages := messages } ∧
      Balanced boot (events ++ List.replicate count (.tick current))
        { s with ticks := s.ticks + UInt32.ofNat count, messages := messages } := by
  induction count with
  | zero =>
      refine ⟨s.messages, ?_⟩
      simp only [List.replicate_zero, List.append_nil]
      have same : s.ticks + UInt32.ofNat 0 = s.ticks := UInt32.add_zero _
      rw [same]
      exact ⟨run, balanced⟩
  | succ count ih =>
      obtain ⟨messages, ticking, balance⟩ := ih
      rw [List.replicate_succ', ← List.append_assoc, UInt32.ofNat_add, ← UInt32.add_assoc]
      exact ⟨_, ticking.step running rfl, balance.tick running rfl⟩

/-- Whenever enough interrupts come in a row to carry the counter past its wrap and
below the time of the last switch, the next switch charges one too few. -/
theorem times_not_exact_of_wrap (run : Run boot events s) (balanced : Balanced boot events s)
    (running : s.currentTask = some current) (followed : s.next current ≠ none) (count : Nat)
    (wraps : s.ticks + UInt32.ofNat count < s.lastTime) :
    ∃ before after, SwitchStep boot
        (events ++ List.replicate count (.tick current) ++ [.schedule current]) before after ∧
      ¬ TimesExact boot
        (events ++ List.replicate count (.tick current) ++ [.schedule current]) after := by
  obtain ⟨messages, ticking, balance⟩ := run_ticks run balanced running count
  have scheduled := run_scheduled ticking
  obtain ⟨after, returned, _⟩ := scheduled.represents.schedule scheduled.ready_ne_nil
  have step := SwitchStep.yields ticking running followed returned
  refine ⟨_, after, step, fun times => ?_⟩
  have ordered := (step.exact_iff fun past event same => by
    rwa [← (List.append_inj' same rfl).1]).mp times
  exact absurd wraps (UInt32.not_lt.mpr ordered)

end Wrap

/-- The kernel task yields after one interrupt. -/
def oneYield : List Event :=
  [.create 0x0F001000 "task1", .enqueue 0x0F001000, .tick 0x0F000000, .schedule 0x0F000000]

theorem oneYield_runs : ∃ s, Run Boot.sample oneYield s ∧ Balanced Boot.sample oneYield s ∧
    s.currentTask = some 0x0F001000 ∧ s.next 0x0F001000 ≠ none ∧ s.ticks = 1 ∧
      s.lastTime = 1 := by
  have started : Run Boot.sample [] _ := .start rfl
  have made : Run Boot.sample [.create 0x0F001000 "task1"] _ :=
    started.step ⟨by decide, by decide⟩ rfl
  have queued : Run Boot.sample [.create 0x0F001000 "task1", .enqueue 0x0F001000] _ :=
    made.step ⟨by decide, by decide⟩ rfl
  have interrupted : Run Boot.sample [.create 0x0F001000 "task1", .enqueue 0x0F001000,
      .tick 0x0F000000] _ := queued.step rfl rfl
  have yielded : Run Boot.sample oneYield _ := interrupted.step rfl rfl
  have inOrder : InOrder Boot.sample oneYield := inOrder_of_few rfl (by decide)
  exact ⟨_, yielded, run_balanced rfl yielded inOrder, rfl, Option.some_ne_none _, rfl, rfl⟩

/-- The task it yields to keeps running until the counter has wrapped to 0. -/
theorem times_not_exact_after_wrap :
    ∃ before after, SwitchStep Boot.sample
        (oneYield ++ List.replicate (2 ^ 32 - 1) (.tick 0x0F001000) ++ [.schedule 0x0F001000])
        before after ∧
      ¬ TimesExact Boot.sample
        (oneYield ++ List.replicate (2 ^ 32 - 1) (.tick 0x0F001000) ++ [.schedule 0x0F001000])
        after := by
  obtain ⟨s, yielded, balanced, running, followed, ticks, last⟩ := oneYield_runs
  refine times_not_exact_of_wrap yielded balanced running followed (2 ^ 32 - 1) ?_
  rw [ticks, last]
  decide

end TorchOS.Tasking
