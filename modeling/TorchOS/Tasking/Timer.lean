import TorchOS.Tasking.Accounting
import TorchOS.Base.Run

/-!
# One message per second

`timer_callback` counts its interrupts in 32 bits and prints a message whenever the count
is a multiple of `TIMER_FREQUENCY`. A run of the timer is any interleaving of its
interrupts with code that leaves the timer alone. The frequency does not divide 2^32, so
the messages keep their second up to the wrap of the counter and no further.
-/

namespace TorchOS.Tasking

open Base Base.Program

/-- What happens to the timer: an interrupt, with the messages it printed, or code that
leaves the timer alone. -/
inductive TimerEvent where
  | interrupt (printed : List UInt32)
  | elsewhere

/-- The messages an event printed, if it is an interrupt. -/
def TimerEvent.printed? : TimerEvent → Option (List UInt32)
  | .interrupt printed => some printed
  | .elsewhere => none

/-- One event of a run. -/
inductive TimerStep : Scheduler → TimerEvent → Scheduler → Prop where
  | interrupt {s after : Scheduler} {printed : List UInt32}
      (returned : timerCallback s = .ok () after)
      (prints : after.messages = s.messages ++ printed) : TimerStep s (.interrupt printed) after
  | elsewhere {s after : Scheduler} (ticks : after.ticks = s.ticks)
      (messages : after.messages = s.messages) : TimerStep s .elsewhere after

/-- What each interrupt of a run printed, in order. -/
def interrupts (events : List TimerEvent) : List (List UInt32) :=
  events.filterMap TimerEvent.printed?

/-- The interrupt of an index printed something. -/
def PrintsAt (events : List TimerEvent) (index : Nat) : Prop :=
  ∃ printed, (interrupts events)[index]? = some printed ∧ printed ≠ []

/-- The messages of a run come once a second. -/
structure OneMessagePerSecond (events : List TimerEvent) : Prop where
  /-- An interrupt prints one message if its ordinal, which is one more than its index, is a
  multiple of the frequency, and nothing otherwise. -/
  prints : ∀ {index printed}, (interrupts events)[index]? = some printed →
    printed.length = if timerFrequency.toNat ∣ index + 1 then 1 else 0
  /-- Two messages without one in between are as many interrupts apart as the frequency says. -/
  apart : ∀ {first last}, first < last → PrintsAt events first → PrintsAt events last →
    (∀ index, first < index → index < last → ¬ PrintsAt events index) →
    last - first = timerFrequency.toNat

section Runs

variable {boot s after : Scheduler} {events : List TimerEvent} {event : TimerEvent}

theorem interrupts_snoc : interrupts (events ++ [event]) =
    interrupts events ++ event.printed?.toList := by
  cases event <;> simp [interrupts, TimerEvent.printed?]

/-- What `timer_callback` prints when it counts up to some ticks. -/
def messageAt (ticks : UInt32) : List UInt32 := if ticks % timerFrequency = 0 then [ticks] else []

/-- `timer_callback` counts one tick, and prints what belongs to the new count. -/
theorem timerCallback_ok (returned : timerCallback s = .ok () after) :
    after.ticks = s.ticks + 1 ∧ after.messages = s.messages ++ messageAt (s.ticks + 1) := by
  cases returned
  refine ⟨rfl, ?_⟩
  unfold messageAt
  by_cases due : (s.ticks + 1) % timerFrequency = 0
  · simp [due]
  · simp [due]

theorem interrupt_step {printed : List UInt32} (step : TimerStep s (.interrupt printed) after) :
    after.ticks = s.ticks + 1 ∧ printed = messageAt (s.ticks + 1) := by
  cases step with
  | interrupt returned prints =>
      obtain ⟨counted, now⟩ := timerCallback_ok returned
      exact ⟨counted, List.append_cancel_left (prints.symm.trans now)⟩

/-- In a run from boot the count is the number of interrupts modulo 2^32, and each
interrupt has printed what belongs to its count. -/
theorem timer_run (run : Reaches TimerStep boot events s) (fromBoot : boot.ticks = 0) :
    s.ticks = UInt32.ofNat (interrupts events).length ∧
      ∀ {index printed}, (interrupts events)[index]? = some printed →
        printed = messageAt (UInt32.ofNat (index + 1)) := by
  induction run with
  | refl => exact ⟨fromBoot, fun none => by simp [interrupts] at none⟩
  | @snoc events s after event run step ih =>
      obtain ⟨ticks, prints⟩ := ih
      rw [interrupts_snoc]
      cases event with
      | interrupt printed =>
          obtain ⟨counted, now⟩ := interrupt_step step
          have next : s.ticks + 1 = UInt32.ofNat ((interrupts events).length + 1) := by
            rw [ticks, UInt32.ofNat_add]
            rfl
          simp only [TimerEvent.printed?, Option.toList_some, List.length_append,
            List.length_singleton]
          refine ⟨counted.trans next, fun {index other} found => ?_⟩
          by_cases earlier : index < (interrupts events).length
          · rw [List.getElem?_append_left earlier] at found
            exact prints found
          · have last : index = (interrupts events).length := by
              have bound := (List.getElem?_eq_some_iff.mp found).1
              rw [List.length_append, List.length_singleton] at bound
              omega
            rw [last, List.getElem?_concat_length, Option.some.injEq] at found
            rw [← found, now, next, last]
      | elsewhere =>
          cases step with
          | elsewhere sameTicks _ =>
              simp only [TimerEvent.printed?, Option.toList_none, List.append_nil]
              exact ⟨sameTicks.trans ticks, prints⟩

/-- Before the counter wraps, a message belongs to the multiples of the frequency. -/
theorem messageAt_of_lt {ordinal : Nat} (small : ordinal < 2 ^ 32) :
    (messageAt (UInt32.ofNat ordinal)).length =
      if timerFrequency.toNat ∣ ordinal then 1 else 0 := by
  have position : (UInt32.ofNat ordinal).toNat = ordinal := UInt32.toNat_ofNat_of_lt' small
  have due : UInt32.ofNat ordinal % timerFrequency = 0 ↔ timerFrequency.toNat ∣ ordinal := by
    rw [← UInt32.toNat_inj, UInt32.toNat_mod, position, Nat.dvd_iff_mod_eq_zero]
    rfl
  unfold messageAt
  by_cases divides : timerFrequency.toNat ∣ ordinal
  · rw [if_pos (due.mpr divides), if_pos divides]
    rfl
  · rw [if_neg (due.not.mpr divides), if_neg divides]
    rfl

/-- Where the messages belong to the multiples of the frequency, two of them in a row are
one frequency apart. -/
theorem apart_of_prints {first last : Nat}
    (prints : ∀ {index printed}, (interrupts events)[index]? = some printed →
      printed.length = if timerFrequency.toNat ∣ index + 1 then 1 else 0)
    (before : first < last) (printsFirst : PrintsAt events first)
    (printsLast : PrintsAt events last)
    (between : ∀ index, first < index → index < last → ¬ PrintsAt events index) :
    last - first = timerFrequency.toNat := by
  have frequency : timerFrequency.toNat = 1000 := rfl
  rw [frequency] at prints ⊢
  have due : ∀ {index}, PrintsAt events index → 1000 ∣ index + 1 := by
    rintro index ⟨printed, found, some⟩
    by_contra not
    have length := prints found
    rw [if_neg not] at length
    exact some (List.length_eq_zero_iff.mp length)
  obtain ⟨rounds, atFirst⟩ := due printsFirst
  obtain ⟨more, atLast⟩ := due printsLast
  by_contra different
  -- The interrupt one frequency after the first lies in between and prints.
  have inside : first + 1000 < (interrupts events).length := by
    obtain ⟨printed, found, _⟩ := printsLast
    have bound := (List.getElem?_eq_some_iff.mp found).1
    omega
  refine between (first + 1000) (by omega) (by omega)
    ⟨(interrupts events)[first + 1000], List.getElem?_eq_getElem inside, fun none => ?_⟩
  have length := prints (List.getElem?_eq_getElem inside)
  rw [none, if_pos (by omega)] at length
  cases length

/-- The interrupt with which the count wraps prints, though its ordinal is no multiple of
the frequency. -/
theorem not_once_of_wrap (run : Reaches TimerStep boot events s) (fromBoot : boot.ticks = 0)
    (wraps : 2 ^ 32 ≤ (interrupts events).length) : ¬ OneMessagePerSecond events := by
  intro once
  have inside : 2 ^ 32 - 1 < (interrupts events).length := by omega
  have found := List.getElem?_eq_getElem inside
  have length := once.prints found
  rw [(timer_run run fromBoot).2 found] at length
  revert length
  decide

/-- The messages of a run from boot come once a second exactly as long as the interrupts
are fewer than the counter can tell apart. -/
theorem oneMessagePerSecond_iff (run : Reaches TimerStep boot events s)
    (fromBoot : boot.ticks = 0) :
    OneMessagePerSecond events ↔ (interrupts events).length < 2 ^ 32 := by
  obtain ⟨_, printed⟩ := timer_run run fromBoot
  constructor
  · intro once
    by_contra wraps
    exact not_once_of_wrap run fromBoot (Nat.not_lt.mp wraps) once
  · intro short
    have prints : ∀ {index printed}, (interrupts events)[index]? = some printed →
        printed.length = if timerFrequency.toNat ∣ index + 1 then 1 else 0 := by
      intro index messages found
      have bound := (List.getElem?_eq_some_iff.mp found).1
      rw [printed found]
      exact messageAt_of_lt (by omega)
    exact ⟨prints, fun before first last between =>
      apart_of_prints prints before first last between⟩

end Runs

/-! ## The scheduler leaves the timer alone -/

/-- The timer is as it was. -/
def SameTimer (before after : Scheduler) : Prop :=
  after.ticks = before.ticks ∧ after.messages = before.messages

section Scheduling

theorem SameTimer.trans (a b c : Scheduler) (first : SameTimer a b) (second : SameTimer b c) :
    SameTimer a c :=
  ⟨second.1.trans first.1, second.2.trans first.2⟩

/-- A step that leaves the timer alone, and what comes after it. -/
theorem SameTimer.next {α β : Type} {program : Code α} {rest : α → Code β}
    (later : ∀ value, Respects SameTimer (rest value))
    (first : Respects SameTimer program := by exact fun _ => ⟨rfl, rfl⟩) :
    Respects SameTimer (program >>= rest) :=
  .bind SameTimer.trans first later

theorem deref_sameTimer (pointer : Option TaskRef) (offset : UInt32) :
    Respects SameTimer (deref pointer offset) := by
  cases pointer <;> exact fun _ => ⟨rfl, rfl⟩

theorem enqueueTask_sameTimer (queue : Queue) (proc : TaskRef) :
    Respects SameTimer (enqueueTask queue proc) := by
  refine SameTimer.next fun list => ?_
  split
  · exact fun _ => ⟨rfl, rfl⟩
  · refine SameTimer.next (fun tail => ?_) (deref_sameTimer _ _)
    exact SameTimer.next fun _ => SameTimer.next fun _ _ => ⟨rfl, rfl⟩

theorem switchToTask_sameTimer (other : Option TaskRef) :
    Respects SameTimer (switchToTask other) := by
  have updates : Respects SameTimer updateTime := by
    refine SameTimer.next fun _ => SameTimer.next fun _ => SameTimer.next fun _ =>
      SameTimer.next fun _ => ?_
    exact SameTimer.next (fun _ _ => ⟨rfl, rfl⟩) (deref_sameTimer _ _)
  refine SameTimer.next (fun _ => SameTimer.next fun _ => ?_) updates
  exact SameTimer.next (fun _ _ => ⟨rfl, rfl⟩) (deref_sameTimer _ _)

/-- A task is appended to a queue and another one switched to. -/
theorem requeue_sameTimer (queue : Queue) (proc : TaskRef) (other : Option TaskRef) :
    Respects SameTimer (do enqueueTask queue proc; switchToTask other) :=
  SameTimer.next (fun _ => switchToTask_sameTimer other) (enqueueTask_sameTimer queue proc)

theorem schedule_sameTimer : Respects SameTimer schedule := by
  refine SameTimer.next fun _ => SameTimer.next (fun current => ?_) (deref_sameTimer _ _)
  refine SameTimer.next fun next => ?_
  cases next with
  | none => exact fun _ => ⟨rfl, rfl⟩
  | some next =>
      exact SameTimer.next fun _ => SameTimer.next fun _ => SameTimer.next fun _ =>
        requeue_sameTimer _ _ _

theorem terminateTask_sameTimer : Respects SameTimer terminateTask := by
  refine SameTimer.next fun _ => SameTimer.next (fun current => ?_) (deref_sameTimer _ _)
  refine SameTimer.next fun kernel => SameTimer.next (fun _ => ?_) ?_
  · exact SameTimer.next fun _ => SameTimer.next fun _ => SameTimer.next fun _ =>
      SameTimer.next fun _ => requeue_sameTimer _ _ _
  · cases decide (kernel = 0) <;> exact fun _ => ⟨rfl, rfl⟩

/-- A run of the scheduler is a run of the timer with the same interrupts. -/
theorem Run.timed {start : Boot} {events : List Event} {s : Scheduler} (run : Run start events s) :
    ∃ timing, Reaches TimerStep start.scheduler timing s ∧
      (interrupts timing).length = (ticked events).length := by
  induction run with
  | start started =>
      cases started
      exact ⟨_, Reaches.refl.snoc (.elsewhere rfl rfl), rfl⟩
  | @step events s after event run enabled returned ih =>
      obtain ⟨timing, timed, same⟩ := ih
      have quiet : SameTimer s after → event.ticked = none → ∃ timing,
          Reaches TimerStep start.scheduler timing after ∧
            (interrupts timing).length = (ticked (events ++ [event])).length := by
        intro kept noTick
        refine ⟨_, timed.snoc (.elsewhere kept.1 kept.2), ?_⟩
        rw [interrupts_snoc, ticked_snoc, noTick]
        simpa [TimerEvent.printed?] using same
      cases event with
      | tick current =>
          refine ⟨_, timed.snoc (.interrupt returned (timerCallback_ok returned).2), ?_⟩
          rw [interrupts_snoc, ticked_snoc]
          simpa [TimerEvent.printed?, Event.ticked] using same
      | create task name =>
          cases (Event.create_run task name s).symm.trans returned
          exact quiet ⟨rfl, rfl⟩ rfl
      | enqueue task => exact quiet ((enqueueTask_sameTimer _ _).of_ok returned) rfl
      | schedule current => exact quiet (schedule_sameTimer.of_ok returned) rfl
      | terminate current => exact quiet (terminateTask_sameTimer.of_ok returned) rfl

end Scheduling

/-! ## Interrupts alone -/

/-- So many interrupts after boot, and nothing else. -/
def interruptsOnly (count : Nat) : List TimerEvent :=
  (List.range count).map fun index => .interrupt (messageAt (UInt32.ofNat (index + 1)))

theorem length_interruptsOnly (count : Nat) :
    (interrupts (interruptsOnly count)).length = count := by
  have printed : TimerEvent.printed? ∘ (fun index : Nat =>
      .interrupt (messageAt (UInt32.ofNat (index + 1)))) =
      some ∘ fun index => messageAt (UInt32.ofNat (index + 1)) := rfl
  rw [interrupts, interruptsOnly, List.filterMap_map, printed, List.filterMap_eq_map,
    List.length_map, List.length_range]

/-- Interrupts can be delivered without end. -/
theorem interruptsOnly_run {boot : Scheduler} (fromBoot : boot.ticks = 0) (count : Nat) :
    ∃ s, Reaches TimerStep boot (interruptsOnly count) s := by
  induction count with
  | zero => exact ⟨boot, .refl⟩
  | succ count ih =>
      obtain ⟨s, run⟩ := ih
      have ticks := (timer_run run fromBoot).1
      rw [length_interruptsOnly] at ticks
      have next : s.ticks + 1 = UInt32.ofNat (count + 1) := by
        rw [ticks, UInt32.ofNat_add]
        rfl
      obtain ⟨after, returned⟩ : ∃ after, timerCallback s = .ok () after := ⟨_, rfl⟩
      have prints := (timerCallback_ok returned).2
      rw [next] at prints
      refine ⟨after, ?_⟩
      rw [interruptsOnly, List.range_succ, List.map_append]
      exact run.snoc (.interrupt returned prints)

/-- The thousandth interrupt prints, here in a run of the scheduler that makes a task and
switches to it. -/
theorem oneMessagePerSecond_iff_first_message : ∃ timing s,
    Reaches TimerStep Boot.sample.scheduler timing s ∧ (interrupts timing).length = 1000 ∧
      OneMessagePerSecond timing ∧ PrintsAt timing 999 := by
  obtain ⟨s, yielded, balanced, running, -⟩ := oneYield_runs
  obtain ⟨messages, ticking, -⟩ := run_ticks yielded balanced running 999
  obtain ⟨timing, timed, same⟩ := ticking.timed
  have ticks : ticked (oneYield ++ List.replicate 999 (.tick 0x0F001000)) =
      0x0F000000 :: List.replicate 999 0x0F001000 := by
    rw [ticked, List.filterMap_append, List.filterMap_replicate]
    rfl
  rw [ticks, List.length_cons, List.length_replicate] at same
  have once := (oneMessagePerSecond_iff timed rfl).mpr (by omega)
  refine ⟨timing, _, timed, same, once, (interrupts timing)[999], List.getElem?_eq_getElem _, ?_⟩
  intro none
  have printed :=
    once.prints (List.getElem?_eq_getElem (by omega : 999 < (interrupts timing).length))
  rw [none] at printed
  revert printed
  decide

/-- After 2^32 interrupts the messages have not come once a second. -/
theorem message_at_wrap : ∃ s, Reaches TimerStep Boot.sample.scheduler (interruptsOnly (2 ^ 32)) s ∧
    ¬ OneMessagePerSecond (interruptsOnly (2 ^ 32)) := by
  obtain ⟨s, run⟩ := interruptsOnly_run (rfl : Boot.sample.scheduler.ticks = 0) (2 ^ 32)
  refine ⟨s, run, not_once_of_wrap run rfl ?_⟩
  rw [length_interruptsOnly]

end TorchOS.Tasking
