import TorchOS.Tasking.Threads
import Mathlib.Data.List.Range

/-!
# What `init_tasking` and its two tasks print

The kernel task logs two lines and gives way, `task1` prints ten times and ends, and
`task2` logs for ever. With the timer interrupting them anywhere they take turns: ten
rounds of all three, and then the kernel task and `task2` alone.
-/

namespace TorchOS.Tasking

open Base Threads

/-! ## The three loops -/

/-- Where a task stands in the loop of `init_tasking`, in `task1`, whose counter is `x`,
or in `task2`. -/
inductive Place where
  | kernelLoop
  | kernelTicks
  | kernelSchedule
  | task1Loop (x : Int32)
  | task1Schedule (x : Int32)
  | task2Loop
  | task2Schedule
  deriving DecidableEq

/-- The lines the three tasks print. -/
inductive Line where
  | running0
  | ticks
  | running1
  | running2
  deriving DecidableEq

/-- The loop of `init_tasking`, `task1` and `task2`. -/
def demonstration : Place → Act Place Line
  | .kernelLoop => .print .running0 .kernelTicks
  | .kernelTicks => .print .ticks .kernelSchedule
  | .kernelSchedule => .giveWay .kernelLoop
  | .task1Loop x => if x > 0 then .print .running1 (.task1Schedule (x - 1)) else .finish
  | .task1Schedule x => .giveWay (.task1Loop x)
  | .task2Loop => .print .running2 .task2Schedule
  | .task2Schedule => .giveWay .task2Loop

/-- The text of a line; `Ticks` is followed by the running task's `time_used`. -/
def Line.format : Line → String
  | .running0 => "Running task 0\n"
  | .ticks => "Ticks: %u\n"
  | .running1 => "Running task 1\n"
  | .running2 => "Running task 2\n"

/-- Whether a line goes to the terminal, by `terminal_print`, or to the log, by `logf`. -/
def Line.onTerminal : Line → Bool
  | .running1 => true
  | _ => false

/-- What reaches the terminal. -/
def terminalLines (lines : List Line) : List String :=
  (lines.filter Line.onTerminal).map Line.format

/-- Where each task starts. -/
def firstPlace (task1 task2 task : TaskRef) : Place :=
  if task = task1 then .task1Loop 10 else if task = task2 then .task2Loop else .kernelLoop

/-! ## Rounds -/

/-- What a round prints: `task1` takes part in the first ten. -/
def round (index : Nat) : List Line :=
  if index < 10 then [.running0, .ticks, .running1, .running2] else [.running0, .ticks, .running2]

/-- What the first rounds print. -/
def transcript (rounds : Nat) : List Line := (List.range rounds).flatMap round

theorem transcript_succ (rounds : Nat) :
    transcript (rounds + 1) = transcript rounds ++ round rounds := by
  simp [transcript, List.range_succ]

theorem terminalLines_append (lines more : List Line) :
    terminalLines (lines ++ more) = terminalLines lines ++ terminalLines more := by
  simp [terminalLines]

/-- The terminal gets one line in each of the first ten rounds. -/
theorem terminalLines_transcript (rounds : Nat) :
    terminalLines (transcript rounds) = List.replicate (min rounds 10) "Running task 1\n" := by
  induction rounds with
  | zero => rfl
  | succ rounds ih =>
      rw [transcript_succ, terminalLines_append, ih]
      by_cases early : rounds < 10
      · have soFar : min rounds 10 = rounds := by omega
        have next : min (rounds + 1) 10 = rounds + 1 := by omega
        rw [soFar, next, List.replicate_succ', round, if_pos early]
        rfl
      · have soFar : min rounds 10 = 10 := by omega
        have next : min (rounds + 1) 10 = 10 := by omega
        rw [soFar, next, round, if_neg early]
        simp [terminalLines, Line.onTerminal]

section Rounds

variable (kernel task1 task2 : TaskRef)

/-- The queue before a round. `task1` gets an eleventh turn, in which it ends. -/
def queueBefore (index : Nat) : List (TaskRef × Place) :=
  if index ≤ 10 then
    [(kernel, .kernelLoop), (task1, .task1Loop (10 - Int32.ofNat index)), (task2, .task2Loop)]
  else [(kernel, .kernelLoop), (task2, .task2Loop)]

theorem kernel_takes :
    Takes demonstration .kernelLoop [.running0, .ticks] (some .kernelLoop) :=
  .prints rfl (.prints rfl (.gives rfl))

theorem task2_takes : Takes demonstration .task2Loop [.running2] (some .task2Loop) :=
  .prints rfl (.gives rfl)

/-- Each of ten turns of `task1` prints a line. -/
theorem task1_takes {x : Int32} (more : x > 0) :
    Takes demonstration (.task1Loop x) [.running1] (some (.task1Loop (x - 1))) :=
  .prints (if_pos more) (.gives rfl)

theorem task1_ends : Takes demonstration (.task1Loop 0) [] none := .ends rfl

/-- The counter of `task1` before each of its ten turns. -/
theorem counter_pos : ∀ index < 10, (10 - Int32.ofNat index : Int32) > 0 := by decide

theorem counter_next : ∀ index < 10,
    (10 - Int32.ofNat index - 1 : Int32) = 10 - Int32.ofNat (index + 1) := by decide

/-- A round, as the turns of its tasks make it up. -/
theorem round_of_turns {index : Nat} (turns : List (Round TaskRef Place Line))
    (takes : ∀ turn ∈ turns, Takes demonstration turn.place turn.outputs turn.after)
    (before : Round.before turns = queueBefore kernel task1 task2 index)
    (remaining : Round.remaining turns = queueBefore kernel task1 task2 (index + 1))
    (outputs : Round.printed turns = round index) (printed : List Line) :
    (Rotation.step demonstration)^[Round.steps turns]
        ⟨queueBefore kernel task1 task2 index, printed⟩ =
      ⟨queueBefore kernel task1 task2 (index + 1), printed ++ round index⟩ := by
  have run : (Rotation.step demonstration)^[Round.steps turns]
      ⟨Round.before turns ++ [], printed⟩ =
        ⟨[] ++ Round.remaining turns, printed ++ Round.printed turns⟩ :=
    Rotation.iterate_round takes
  rwa [List.append_nil, List.nil_append, before, remaining, outputs] at run

/-- A round takes between five and seven steps. -/
theorem round_run (index : Nat) (printed : List Line) :
    ∃ count, 5 ≤ count ∧ count ≤ 7 ∧
      (Rotation.step demonstration)^[count] ⟨queueBefore kernel task1 task2 index, printed⟩ =
        ⟨queueBefore kernel task1 task2 (index + 1), printed ++ round index⟩ := by
  rcases Nat.lt_trichotomy index 10 with early | rfl | late
  · -- all three tasks print
    refine ⟨7, by decide, by decide, round_of_turns kernel task1 task2
      [⟨kernel, .kernelLoop, [.running0, .ticks], some .kernelLoop⟩,
        ⟨task1, .task1Loop (10 - Int32.ofNat index), [.running1],
          some (.task1Loop (10 - Int32.ofNat index - 1))⟩,
        ⟨task2, .task2Loop, [.running2], some .task2Loop⟩] ?_ ?_ ?_ ?_ printed⟩
    · simpa using ⟨kernel_takes, task1_takes (counter_pos index early), task2_takes⟩
    · simp [Round.before, queueBefore, early.le]
    · simp [Round.remaining, Round.left, queueBefore, Nat.succ_le_of_lt early,
        counter_next index early]
    · simp [Round.printed, round, early]
  · -- `task1` ends
    refine ⟨6, by decide, by decide, round_of_turns kernel task1 task2
      [⟨kernel, .kernelLoop, [.running0, .ticks], some .kernelLoop⟩,
        ⟨task1, .task1Loop 0, [], none⟩,
        ⟨task2, .task2Loop, [.running2], some .task2Loop⟩] ?_ ?_ ?_ ?_ printed⟩
    · simpa using ⟨kernel_takes, task1_ends, task2_takes⟩
    · simp [Round.before, queueBefore]
    · rfl
    · simp [Round.printed, round]
  · -- the kernel task and `task2` are left
    refine ⟨5, by decide, by decide, round_of_turns kernel task1 task2
      [⟨kernel, .kernelLoop, [.running0, .ticks], some .kernelLoop⟩,
        ⟨task2, .task2Loop, [.running2], some .task2Loop⟩] ?_ ?_ ?_ ?_ printed⟩
    · simpa using ⟨kernel_takes, task2_takes⟩
    · simp [Round.before, queueBefore, Nat.not_le.mpr late]
    · simp [Round.remaining, Round.left, queueBefore]
      omega
    · simp [Round.printed, round, Nat.not_lt.mpr late.le]

/-- The first rounds. -/
theorem rounds_run (rounds : Nat) :
    ∃ count, rounds ≤ count ∧ count ≤ 7 * rounds ∧
      (Rotation.step demonstration)^[count] ⟨queueBefore kernel task1 task2 0, []⟩ =
        ⟨queueBefore kernel task1 task2 rounds, transcript rounds⟩ := by
  induction rounds with
  | zero => exact ⟨0, by simp [transcript]⟩
  | succ rounds ih =>
      obtain ⟨count, least, most, soFar⟩ := ih
      obtain ⟨more, few, many, next⟩ := round_run kernel task1 task2 rounds (transcript rounds)
      refine ⟨more + count, by omega, by omega, ?_⟩
      rw [Function.iterate_add_apply, soFar, next, transcript_succ]

end Rounds

/-! ## Every run -/

section Runs

variable {boot : Boot} {task1 task2 : TaskRef} {s : Scheduler} {beats : List Beat}
  {t : Threads Place Line}

/-- The tasks `init_tasking` makes, with the names it asks for. -/
def demonstrationTasks (task1 task2 : TaskRef) : List (TaskRef × String) :=
  [(task1, "task1"), (task2, "task2")]

theorem startRotation_eq (prepared : Prepared boot (demonstrationTasks task1 task2) s) :
    (startRotation boot (demonstrationTasks task1 task2) (firstPlace task1 task2) :
        Rotation TaskRef Place Line) =
      ⟨queueBefore boot.kernel task1 task2 0, []⟩ := by
  have once := prepared.nodup
  simp [demonstrationTasks] at once
  simp [startRotation, demonstrationTasks, firstPlace, queueBefore, once, Ne.symm once.2]

/-- Whether a place is in the loop of `init_tasking`. -/
def Place.inKernel : Place → Bool
  | .kernelLoop => true
  | .kernelTicks => true
  | .kernelSchedule => true
  | _ => false

/-- A task on the queue is one of the three, and the kernel task stays in its loop. -/
def AtHome (boot : Boot) (task1 task2 task : TaskRef) (place : Place) : Prop :=
  (task = boot.kernel ∧ place.inKernel) ∨ task = task1 ∨ task = task2

theorem atHome_next (task : TaskRef) (place next : Place) (home : AtHome boot task1 task2 task place)
    (on : (demonstration place).next = some next) : AtHome boot task1 task2 task next := by
  refine home.imp_left fun kernel => ⟨kernel.1, ?_⟩
  cases place with
  | kernelLoop => cases on; rfl
  | kernelTicks => cases on; rfl
  | kernelSchedule => cases on; rfl
  | _ => simp [Place.inKernel] at kernel

theorem startsHome (boot : Boot) (task1 task2 : TaskRef) :
    ∀ entry ∈ queueBefore boot.kernel task1 task2 0, AtHome boot task1 task2 entry.1 entry.2 := by
  simp [queueBefore, AtHome, Place.inKernel]

/-- The kernel task never ends, and the other two may. -/
theorem finishes_user (prepared : Prepared boot (demonstrationTasks task1 task2) s) {task : TaskRef}
    {place : Place} (home : AtHome boot task1 task2 task place)
    (finishes : demonstration place = .finish) : (s.process task).pid ≠ 0 := by
  rcases home with ⟨_, inKernel⟩ | rfl | rfl
  · cases place <;> simp [demonstration, Place.inKernel] at finishes inKernel
  · have second : (boot.kernel :: (demonstrationTasks task task2).map Prod.fst)[1]? = some task :=
      rfl
    rw [prepared.pid second]
    decide
  · have third : (boot.kernel :: (demonstrationTasks task1 task).map Prod.fst)[2]? = some task :=
      rfl
    rw [prepared.pid third]
    decide

/-- A task can always go on. -/
theorem demonstration_acts (prepared : Prepared boot (demonstrationTasks task1 task2) s)
    (run : Reaches (Beats demonstration) (start s (firstPlace task1 task2)) beats t) :
    ∃ after, Beats demonstration t .act after := by
  have follows := (prepared.follows (firstPlace task1 task2)).beats run
  rw [startRotation_eq prepared] at follows
  rw [follows.act_returns_iff]
  intro task running finishes
  obtain ⟨first, place, rest, queue, current, here, _⟩ := follows.queue_cons
  cases current.symm.trans running
  have starts : ∀ entry ∈ (⟨queueBefore boot.kernel task1 task2 0, []⟩ :
      Rotation TaskRef Place Line).queue, AtHome boot task1 task2 entry.1 entry.2 :=
    startsHome boot task1 task2
  have home := Rotation.iterate_invariant atHome_next starts (acts beats) (task, place)
    (by simp [queue])
  rw [(beats_samePids run).pid]
  exact finishes_user prepared home (by rwa [← here])

/-- Whenever the timer interrupts, `init_tasking` and its tasks never stop, print nothing
but the rounds in order, and have printed the first rounds after seven actions for
each. The terminal gets ten lines. -/
theorem demonstration_prints (prepared : Prepared boot (demonstrationTasks task1 task2) s)
    (run : Reaches (Beats demonstration) (start s (firstPlace task1 task2)) beats t) :
    (∃ after, Beats demonstration t .act after) ∧
      t.printed.map Prod.fst <+: transcript (acts beats) ∧
      (∀ rounds, 7 * rounds ≤ acts beats → transcript rounds <+: t.printed.map Prod.fst) ∧
      terminalLines (t.printed.map Prod.fst) <+: List.replicate 10 "Running task 1\n" := by
  have follows := (prepared.follows (firstPlace task1 task2)).beats run
  rw [startRotation_eq prepared] at follows
  have safe : t.printed.map Prod.fst <+: transcript (acts beats) := by
    obtain ⟨count, least, _, later⟩ := rounds_run boot.kernel task1 task2 (acts beats)
    have prints := congrArg Rotation.printed later
    change _ = transcript (acts beats) at prints
    rw [follows.printed, ← prints]
    exact Rotation.iterate_prefix_of_le _ least
  refine ⟨demonstration_acts prepared run, safe, ?_, ?_⟩
  · intro rounds enough
    obtain ⟨count, _, most, earlier⟩ := rounds_run boot.kernel task1 task2 rounds
    have prints := congrArg Rotation.printed earlier
    change _ = transcript rounds at prints
    rw [follows.printed, ← prints]
    exact Rotation.iterate_prefix_of_le _ (most.trans enough)
  · have terminal := (safe.filter Line.onTerminal).map Line.format
    change terminalLines _ <+: terminalLines _ at terminal
    rw [terminalLines_transcript] at terminal
    refine terminal.trans ⟨List.replicate (10 - min (acts beats) 10) "Running task 1\n", ?_⟩
    rw [← List.replicate_add, Nat.add_sub_cancel' (Nat.min_le_right _ _)]

/-- The three tasks made without an interruption. -/
theorem sample_prepared :
    ∃ s, Prepared Boot.sample (demonstrationTasks 0x0F001000 0x0F002000) s := by
  have started : Run Boot.sample [] _ := .start rfl
  have made : Run Boot.sample [.create 0x0F001000 "task1"] _ :=
    started.step ⟨by decide, by decide⟩ rfl
  have queued : Run Boot.sample [.create 0x0F001000 "task1", .enqueue 0x0F001000] _ :=
    made.step ⟨by decide, by decide⟩ rfl
  have madeBoth : Run Boot.sample [.create 0x0F001000 "task1", .enqueue 0x0F001000,
      .create 0x0F002000 "task2"] _ := queued.step ⟨by decide, by decide⟩ rfl
  have queuedBoth : Run Boot.sample [.create 0x0F001000 "task1", .enqueue 0x0F001000,
      .create 0x0F002000 "task2", .enqueue 0x0F002000] _ :=
    madeBoth.step ⟨by decide, by decide⟩ rfl
  exact ⟨_, _, queuedBoth, rfl⟩

/-- Beats can come in any order. -/
theorem demonstration_runs (prepared : Prepared boot (demonstrationTasks task1 task2) s)
    (beats : List Beat) :
    ∃ t, Reaches (Beats demonstration) (start s (firstPlace task1 task2)) beats t := by
  induction beats using List.reverseRecOn with
  | nil => exact ⟨_, .refl⟩
  | append_singleton beats beat ih =>
      obtain ⟨t, run⟩ := ih
      cases beat with
      | tick => exact ⟨_, run.snoc rfl⟩
      | act =>
          obtain ⟨after, acts⟩ := demonstration_acts prepared run
          exact ⟨after, run.snoc acts⟩

/-- Fourteen actions with a timer interrupt after each. -/
def interruptedActs : List Beat := (List.replicate 14 [Beat.act, .tick]).flatten

theorem threads_rotate_interrupted :
    ∃ s t, Prepared Boot.sample (demonstrationTasks 0x0F001000 0x0F002000) s ∧
      Reaches (Beats demonstration) (start s (firstPlace 0x0F001000 0x0F002000))
        interruptedActs t ∧
      Mirrors t ((Rotation.step demonstration)^[14]
        (startRotation Boot.sample (demonstrationTasks 0x0F001000 0x0F002000)
          (firstPlace 0x0F001000 0x0F002000))) := by
  obtain ⟨s, prepared⟩ := sample_prepared
  obtain ⟨t, run⟩ := demonstration_runs prepared interruptedActs
  exact ⟨s, t, prepared, run, (threads_rotate prepared run).1⟩

/-- They are enough for two rounds. -/
theorem demonstration_prints_interrupted :
    ∃ s t, Reaches (Beats demonstration) (start s (firstPlace 0x0F001000 0x0F002000))
        interruptedActs t ∧
      [.running0, .ticks, .running1, .running2, .running0, .ticks, .running1, .running2] <+:
        t.printed.map Prod.fst := by
  obtain ⟨s, prepared⟩ := sample_prepared
  obtain ⟨t, run⟩ := demonstration_runs prepared interruptedActs
  exact ⟨s, t, run, (demonstration_prints prepared run).2.2.1 2 (by decide)⟩

end Runs

end TorchOS.Tasking
