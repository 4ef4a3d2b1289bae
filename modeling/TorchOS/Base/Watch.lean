import TorchOS.Base.Program
import Mathlib.Data.List.Infix

/-!
# Watching a program

A watched program runs over a state and a trace of what was observed on the way.
`Watches` says that watching changes nothing: forgetting the trace gives the plain
program back. A trace only grows, so what was observed once stays observed.
-/

namespace Base

variable {ε σ τ α β : Type}

/-- A state with what was observed so far, oldest first. -/
structure Watched (σ τ : Type) where
  state : σ
  trace : List τ

namespace Program

/-- Run a plain program and observe nothing. -/
def unwatched (program : Program ε σ α) : Program ε (Watched σ τ) α := fun w =>
  match program w.state with
  | .ok value state => .ok value ⟨state, w.trace⟩
  | .error reason state => .error reason ⟨state, w.trace⟩

/-- Observe something of the state. -/
def watch (view : σ → List τ) : Program ε (Watched σ τ) Unit :=
  update fun w => ⟨w.state, w.trace ++ view w.state⟩

/-- The result without the trace. -/
def forget : EStateM.Result ε (Watched σ τ) α → EStateM.Result ε σ α
  | .ok value w => .ok value w.state
  | .error reason w => .error reason w.state

/-- Watching changes nothing. -/
def Watches (watched : Program ε (Watched σ τ) α) (plain : Program ε σ α) : Prop :=
  ∀ w, forget (watched w) = plain w.state

/-- A loop guard that does not look at the trace. -/
def onState (guard : α → σ → Bool) (value : α) (w : Watched σ τ) : Bool := guard value w.state

/-- Running one program after another unwatched is running each unwatched. -/
theorem unwatched_bind (first : Program ε σ α) (rest : α → Program ε σ β) :
    (unwatched (first >>= rest) : Program ε (Watched σ τ) β) =
      unwatched first >>= fun value => unwatched (rest value) := by
  funext w
  cases run : first w.state with
  | ok value state =>
      have unseen :
          (unwatched first : Program ε (Watched σ τ) α) w = .ok value ⟨state, w.trace⟩ := by
        simp only [unwatched, run]
      rw [bind_of_ok unseen]
      simp only [unwatched, bind_of_ok run]
  | error reason state =>
      have unseen : (unwatched first : Program ε (Watched σ τ) α) w =
          .error reason ⟨state, w.trace⟩ := by
        simp only [unwatched, run]
      rw [bind_of_error unseen]
      simp only [unwatched, bind_of_error run]

/-- A loop that runs unwatched is a loop of rounds that do. -/
theorem unwatched_loop (guard : α → σ → Bool) (body : α → Program ε σ α) (endless : ε)
    (fuel : Nat) (value : α) :
    (unwatched (loop guard body endless fuel value) : Program ε (Watched σ τ) α) =
      loop (onState guard) (fun value => unwatched (body value)) endless fuel value := by
  induction fuel generalizing value with
  | zero => rfl
  | succ fuel ih =>
      funext w
      cases again : guard value w.state with
      | true =>
          have unseen : onState guard value w = true := again
          rw [loop_again unseen, ← funext ih, ← unwatched_bind]
          simp only [unwatched, loop_again again]
      | false =>
          have unseen : onState guard value w = false := again
          rw [loop_done unseen]
          simp only [unwatched, loop_done again]

/-- What was observed is still in the trace. -/
def Grows (before after : Watched σ τ) : Prop := before.trace <+: after.trace

theorem Grows.refl (w : Watched σ τ) : Grows w w := List.prefix_refl _

theorem Grows.trans (first middle last : Watched σ τ) (left : Grows first middle)
    (right : Grows middle last) : Grows first last :=
  List.IsPrefix.trans left right

theorem unwatched_ok {program : Program ε σ α} {w : Watched σ τ} {value : α} {after : σ}
    (returned : program w.state = .ok value after) :
    unwatched program w = .ok value ⟨after, w.trace⟩ := by
  simp only [unwatched, returned]

theorem unwatched_error {program : Program ε σ α} {w : Watched σ τ} {reason : ε} {after : σ}
    (halted : program w.state = .error reason after) :
    unwatched program w = .error reason ⟨after, w.trace⟩ := by
  simp only [unwatched, halted]

/-- What a plain program that returned did, it did without its trace. -/
theorem unwatched_returned {program : Program ε σ α} {w after : Watched σ τ} {value : α}
    (returned : unwatched program w = .ok value after) :
    ∃ state, program w.state = .ok value state ∧ after = ⟨state, w.trace⟩ := by
  unfold unwatched at returned
  cases run : program w.state with
  | ok result state =>
      simp only [run] at returned
      cases returned
      exact ⟨state, rfl, rfl⟩
  | error reason state =>
      simp only [run] at returned
      cases returned

theorem watch_run (view : σ → List τ) (w : Watched σ τ) :
    (watch view : Program ε _ _) w = .ok () ⟨w.state, w.trace ++ view w.state⟩ := rfl

/-- A plain program leaves the trace as it is. -/
theorem unwatched_trace (program : Program ε σ α) (w : Watched σ τ) :
    (final (unwatched program w)).trace = w.trace := by
  unfold unwatched
  cases program w.state <;> rfl

theorem unwatched_grows (program : Program ε σ α) :
    Respects Grows (unwatched program : Program ε (Watched σ τ) α) := by
  intro w
  rw [Grows, unwatched_trace]

theorem watch_grows (view : σ → List τ) :
    Respects Grows (watch view : Program ε (Watched σ τ) Unit) :=
  fun _ => List.prefix_append _ _

/-- The code observes nothing. -/
def SameTrace (before after : Watched σ τ) : Prop := after.trace = before.trace

theorem SameTrace.trans (first middle last : Watched σ τ) (left : SameTrace first middle)
    (right : SameTrace middle last) : SameTrace first last :=
  Eq.trans right left

theorem unwatched_sameTrace (program : Program ε σ α) :
    Respects SameTrace (unwatched program : Program ε (Watched σ τ) α) :=
  fun w => unwatched_trace program w

/-- What follows and observes nothing leaves the trace of a program as it is. -/
theorem trace_bind {first : Program ε (Watched σ τ) α} {rest : α → Program ε (Watched σ τ) β}
    (same : ∀ value, Respects SameTrace (rest value)) (w : Watched σ τ) :
    (final ((first >>= rest) w)).trace = (final (first w)).trace := by
  cases run : first w with
  | ok value middle =>
      rw [bind_of_ok run]
      exact same value middle
  | error reason middle =>
      rw [bind_of_error run]
      rfl

namespace Watches

variable {plain : Program ε σ α} {rest : α → Program ε σ β}
  {watched : Program ε (Watched σ τ) α} {watchedRest : α → Program ε (Watched σ τ) β}

theorem unwatched (program : Program ε σ α) :
    Watches (Program.unwatched program : Program ε (Watched σ τ) α) program := by
  intro w
  unfold Program.unwatched
  cases program w.state <;> rfl

theorem bind (first : Watches watched plain)
    (watchesRest : ∀ value, Watches (watchedRest value) (rest value)) :
    Watches (watched >>= watchedRest) (plain >>= rest) := by
  intro w
  have same := first w
  cases run : watched w with
  | ok value after =>
      rw [run] at same
      rw [bind_of_ok run, bind_of_ok same.symm]
      exact watchesRest value after
  | error reason after =>
      rw [run] at same
      rw [bind_of_error run, bind_of_error same.symm]
      rfl

/-- A watched program returns where the plain one does. -/
theorem returned (watches : Watches watched plain) {w : Watched σ τ} {value : α} {after : σ}
    (run : plain w.state = .ok value after) :
    watched w = .ok value ⟨after, (final (watched w)).trace⟩ := by
  have same := watches w
  rw [run] at same
  cases outcome : watched w with
  | ok result last =>
      rw [outcome] at same
      cases same
      rfl
  | error reason last =>
      rw [outcome] at same
      cases same

/-- A watched program that returns did what the plain one does. -/
theorem of_ok (watches : Watches watched plain) {w after : Watched σ τ} {value : α}
    (returned : watched w = .ok value after) : plain w.state = .ok value after.state := by
  have same := watches w
  rw [returned] at same
  exact same.symm

/-- A counted loop is watched round by round. -/
theorem times {body : Nat → Program ε σ Unit} {watchedBody : Nat → Program ε (Watched σ τ) Unit}
    (rounds : ∀ index, Watches (watchedBody index) (body index)) (count : Nat) :
    Watches (Program.times watchedBody count) (Program.times body count) := by
  induction count with
  | zero => exact fun _ => rfl
  | succ count ih => exact Watches.bind ih fun _ => rounds count

/-- An observation before a program is no part of it. -/
theorem after_watch (view : σ → List τ) (watches : Watches watched plain) :
    Watches (watch view >>= fun _ => watched) plain := by
  intro w
  rw [bind_of_ok (watch_run view w)]
  exact watches ⟨w.state, w.trace ++ view w.state⟩

/-- A loop is watched round by round. -/
theorem loop {guard : α → σ → Bool} {body : α → Program ε σ α}
    {watchedBody : α → Program ε (Watched σ τ) α} {endless : ε}
    (rounds : ∀ value, Watches (watchedBody value) (body value)) (fuel : Nat) (value : α) :
    Watches (Program.loop (onState guard) watchedBody endless fuel value)
      (Program.loop guard body endless fuel value) := by
  induction fuel generalizing value with
  | zero => exact fun _ => rfl
  | succ fuel ih =>
      intro w
      cases again : guard value w.state with
      | true =>
          have watchedAgain : onState guard value w = true := again
          refine Eq.trans ?_ (loop_again again).symm
          rw [loop_again watchedAgain]
          exact Watches.bind (rounds value) ih w
      | false =>
          have watchedDone : onState guard value w = false := again
          refine Eq.trans ?_ (loop_done again).symm
          rw [loop_done watchedDone]
          rfl

end Watches

end Program

end Base
