import Mathlib.Logic.Function.Iterate
import Mathlib.Data.List.Basic

/-!
# Routines that take turns

Several routines share one processor. The first of a queue runs until it gives way,
which sends it to the back, or ends, which takes it off the queue. `Takes` is one turn
of one routine; `Round.run` adds the turns of a whole round together.
-/

namespace Base

variable {ι ρ ω : Type}

/-- What a routine does next, and where it goes on afterwards. -/
inductive Act (ρ ω : Type) where
  | print (output : ω) (next : ρ)
  | giveWay (next : ρ)
  | finish

/-- Where a routine goes on without ending. -/
def Act.next : Act ρ ω → Option ρ
  | .print _ next => some next
  | .giveWay next => some next
  | .finish => none

/-- The routines that have not ended, the running one first, each with the place it
goes on from, and what all of them have printed. -/
@[ext] structure Rotation (ι ρ ω : Type) where
  queue : List (ι × ρ)
  printed : List ω

/-- From `place` a routine prints `outputs` and then gives way, to go on from a new
place, or ends. -/
inductive Takes (program : ρ → Act ρ ω) : ρ → List ω → Option ρ → Prop where
  | gives {place next : ρ} (acts : program place = .giveWay next) :
      Takes program place [] (some next)
  | ends {place : ρ} (acts : program place = .finish) : Takes program place [] none
  | prints {place next : ρ} {output : ω} {outputs : List ω} {after : Option ρ}
      (acts : program place = .print output next) (later : Takes program next outputs after) :
      Takes program place (output :: outputs) after

/-- A routine and the turn it takes in a round. -/
structure Round (ι ρ ω : Type) where
  routine : ι
  place : ρ
  outputs : List ω
  after : Option ρ

namespace Round

variable (program : ρ → Act ρ ω) (turn : Round ι ρ ω) (turns : List (Round ι ρ ω))

/-- How many steps the turns of a round take. -/
def steps : List (Round ι ρ ω) → Nat
  | [] => 0
  | turn :: turns => turn.outputs.length + 1 + steps turns

/-- The queue in which the turns of a round are taken. -/
def before : List (ι × ρ) := turns.map fun turn => (turn.routine, turn.place)

/-- The routine at the back of the queue after its turn, unless it has ended. -/
def left : Option (ι × ρ) := turn.after.map fun next => (turn.routine, next)

/-- The queue after a round. -/
def remaining : List (ι × ρ) := turns.filterMap left

/-- What a round prints. -/
def printed : List ω := turns.flatMap Round.outputs

end Round

namespace Rotation

variable (program : ρ → Act ρ ω) {task : ι} {place next : ρ} {rest : List (ι × ρ)}
  {printed outputs : List ω} {output : ω} {after : Option ρ}

/-- The first routine acts. -/
def step (r : Rotation ι ρ ω) : Rotation ι ρ ω :=
  match r.queue with
  | [] => r
  | (task, place) :: rest =>
      match program place with
      | .print output next => ⟨(task, next) :: rest, r.printed ++ [output]⟩
      | .giveWay next => ⟨rest ++ [(task, next)], r.printed⟩
      | .finish => ⟨rest, r.printed⟩

variable {program}

theorem step_print (acts : program place = .print output next) :
    step program ⟨(task, place) :: rest, printed⟩ =
      ⟨(task, next) :: rest, printed ++ [output]⟩ := by
  simp [step, acts]

theorem step_giveWay (acts : program place = .giveWay next) :
    step program ⟨(task, place) :: rest, printed⟩ = ⟨rest ++ [(task, next)], printed⟩ := by
  simp [step, acts]

theorem step_finish (acts : program place = .finish) :
    step program ⟨(task, place) :: rest, printed⟩ = ⟨rest, printed⟩ := by
  simp [step, acts]

/-- What has been printed stays printed. -/
theorem printed_le_step (r : Rotation ι ρ ω) : r.printed <+: (step program r).printed := by
  obtain ⟨queue, printed⟩ := r
  cases queue with
  | nil => simp [step]
  | cons entry rest =>
      cases acts : program entry.2 with
      | print output next => simp [step, acts]
      | giveWay next => simp [step, acts]
      | finish => simp [step, acts]

theorem iterate_prefix (r : Rotation ι ρ ω) (count : Nat) :
    r.printed <+: ((step program)^[count] r).printed := by
  induction count with
  | zero => simp
  | succ count ih =>
      rw [Function.iterate_succ_apply']
      exact ih.trans (printed_le_step _)

/-- More steps print more. -/
theorem iterate_prefix_of_le (r : Rotation ι ρ ω) {fewer more : Nat} (ordered : fewer ≤ more) :
    ((step program)^[fewer] r).printed <+: ((step program)^[more] r).printed := by
  obtain ⟨others, rfl⟩ := Nat.exists_eq_add_of_le ordered
  rw [Nat.add_comm, Function.iterate_add_apply]
  exact iterate_prefix _ others

/-- What every routine's place keeps from one action to the next holds of the whole
queue. -/
theorem step_invariant {I : ι → ρ → Prop} {r : Rotation ι ρ ω}
    (kept : ∀ task place next, I task place → (program place).next = some next → I task next)
    (holds : ∀ entry ∈ r.queue, I entry.1 entry.2) :
    ∀ entry ∈ (step program r).queue, I entry.1 entry.2 := by
  obtain ⟨queue, printed⟩ := r
  cases queue with
  | nil => exact holds
  | cons first rest =>
      obtain ⟨here, others⟩ := List.forall_mem_cons.mp holds
      have on := kept first.1 first.2
      cases acts : program first.2 with
      | print output next =>
          rw [acts] at on
          rw [step_print acts]
          exact List.forall_mem_cons.mpr ⟨on next here rfl, others⟩
      | giveWay next =>
          rw [acts] at on
          rw [step_giveWay acts]
          intro entry member
          rcases List.mem_append.mp member with waits | last
          · exact others entry waits
          · rw [List.mem_singleton.mp last]
            exact on next here rfl
      | finish =>
          rw [step_finish acts]
          exact others

theorem iterate_invariant {I : ι → ρ → Prop} {r : Rotation ι ρ ω}
    (kept : ∀ task place next, I task place → (program place).next = some next → I task next)
    (holds : ∀ entry ∈ r.queue, I entry.1 entry.2) (count : Nat) :
    ∀ entry ∈ ((step program)^[count] r).queue, I entry.1 entry.2 := by
  induction count with
  | zero => exact holds
  | succ count ih =>
      rw [Function.iterate_succ_apply']
      exact step_invariant kept ih

/-- One turn: the outputs one by one, then the queue without its first routine, which
is at the back unless it has ended. -/
theorem iterate_turn (takes : Takes program place outputs after) :
    (step program)^[outputs.length + 1] ⟨(task, place) :: rest, printed⟩ =
      ⟨rest ++ (after.map fun next => (task, next)).toList, printed ++ outputs⟩ := by
  induction takes generalizing printed with
  | gives acts => simp [step_giveWay acts]
  | ends acts => simp [step_finish acts]
  | prints acts later ih =>
      rw [List.length_cons, Function.iterate_succ_apply, step_print acts, ih]
      simp

/-- A round: every routine of the queue takes its turn, those behind it wait. -/
theorem iterate_round {turns : List (Round ι ρ ω)} {waiting : List (ι × ρ)}
    (takes : ∀ turn ∈ turns, Takes program turn.place turn.outputs turn.after) :
    (step program)^[Round.steps turns] ⟨Round.before turns ++ waiting, printed⟩ =
      ⟨waiting ++ Round.remaining turns, printed ++ Round.printed turns⟩ := by
  induction turns generalizing waiting printed with
  | nil => simp [Round.steps, Round.before, Round.remaining, Round.printed]
  | cons turn turns ih =>
      obtain ⟨first, others⟩ := List.forall_mem_cons.mp takes
      have apart : Round.remaining (turn :: turns) =
          turn.left.toList ++ Round.remaining turns := by
        cases left : turn.left <;> simp [Round.remaining, left]
      have turned : (step program)^[turn.outputs.length + 1]
            ⟨Round.before (turn :: turns) ++ waiting, printed⟩ =
          ⟨Round.before turns ++ (waiting ++ turn.left.toList), printed ++ turn.outputs⟩ := by
        rw [← List.append_assoc]
        exact iterate_turn first
      rw [Round.steps, Nat.add_comm, Function.iterate_add_apply, turned, ih others, apart]
      simp [Round.printed]

end Rotation

end Base
