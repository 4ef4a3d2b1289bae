import Mathlib.Tactic.Common

/-!
# Finite runs of a step relation

`Reaches step start events state` is a run that took `events`, oldest first: what
holds at the start and is kept by every step holds wherever a run leads. A `Path`
names the states in between as well, and `Each` says something of all its steps,
so that it can be said exactly which paths a property survives.
-/

namespace Base

variable {σ α : Type} {step step' : σ → α → σ → Prop} {start middle state : σ}
  {events more : List α}

/-- A finite run from `start`, with the events it took. -/
inductive Reaches (step : σ → α → σ → Prop) (start : σ) : List α → σ → Prop where
  | refl : Reaches step start [] start
  | snoc {events : List α} {state after : σ} {event : α} (run : Reaches step start events state)
      (taken : step state event after) : Reaches step start (events ++ [event]) after

namespace Reaches

/-- An invariant holds at the end of every run. -/
theorem invariant {I : σ → Prop} (run : Reaches step start events state) (holds : I start)
    (kept : ∀ {state event after}, I state → step state event after → I after) : I state := by
  induction run with
  | refl => exact holds
  | snoc _ taken ih => exact kept ih taken

/-- A run of steps is a run of any relation that allows those steps. -/
theorem mono (run : Reaches step start events state)
    (allows : ∀ {state event after}, step state event after → step' state event after) :
    Reaches step' start events state := by
  induction run with
  | refl => exact .refl
  | snoc _ taken ih => exact ih.snoc (allows taken)

/-- One run after another. -/
theorem trans (first : Reaches step start events middle) (second : Reaches step middle more state) :
    Reaches step start (events ++ more) state := by
  induction second with
  | refl => simpa using first
  | snoc _ taken ih =>
      rw [← List.append_assoc]
      exact ih.snoc taken

/-- A run takes each of its events somewhere. -/
theorem split {before rest : List α} {event : α}
    (run : Reaches step start (before ++ event :: rest) state) :
    ∃ middle after, Reaches step start before middle ∧ step middle event after ∧
      Reaches step after rest state := by
  generalize all : before ++ event :: rest = events at run
  induction run generalizing rest with
  | refl => simp at all
  | @snoc events state' after last run taken ih =>
      rcases List.eq_nil_or_concat rest with rfl | ⟨rest, last', rfl⟩
      · obtain ⟨rfl, same⟩ := List.append_inj' all rfl
        cases same
        exact ⟨state', after, run, taken, .refl⟩
      · have regrouped : (before ++ event :: rest) ++ [last'] = events ++ [last] := by
          rw [← all]
          simp
        obtain ⟨rfl, same⟩ := List.append_inj' regrouped rfl
        cases same
        obtain ⟨middle, next, first, here, later⟩ := ih rfl
        rw [List.concat_eq_append]
        exact ⟨middle, next, first, here, later.snoc taken⟩

end Reaches

/-! ## Paths with their states -/

/-- A path from a state: each event with the state it leads to. -/
def Path (step : σ → α → σ → Prop) : σ → List (α × σ) → Prop
  | _, [] => True
  | state, (event, after) :: rest => step state event after ∧ Path step after rest

/-- Each step of a path is as `C` says of the state before it and the event. -/
def Each (C : σ → α → Prop) : σ → List (α × σ) → Prop
  | _, [] => True
  | state, (event, after) :: rest => C state event ∧ Each C after rest

/-- The state a path leads to. -/
def finish : σ → List (α × σ) → σ
  | state, [] => state
  | _, (_, after) :: rest => finish after rest

namespace Path

variable {C Q : σ → α → Prop} {I P : σ → Prop} {path : List (α × σ)}

/-- An invariant that the steps meeting a condition keep holds at the end of a path
of such steps. -/
theorem invariant (whole : Path step start path) (each : Each C start path) (holds : I start)
    (kept : ∀ {state event after}, I state → C state event → step state event after → I after) :
    I (finish start path) := by
  induction path generalizing start with
  | nil => exact holds
  | cons head rest ih =>
      obtain ⟨taken, whole⟩ := whole
      obtain ⟨meets, each⟩ := each
      exact ih whole each (kept holds meets taken)

/-- A property that each step preserves exactly when it meets a condition holds all
along a path exactly when all steps meet it. -/
theorem always_iff (whole : Path step start path) (invariant : I start) (holds : P start)
    (kept : ∀ {state event after}, I state → step state event after → I after)
    (exact : ∀ {state event after}, I state → P state → step state event after →
      (P after ↔ C state event)) :
    (∀ reached ∈ path, P reached.2) ↔ Each C start path := by
  induction path generalizing start with
  | nil => simp [Each]
  | cons head rest ih =>
      obtain ⟨taken, whole⟩ := whole
      have decided := exact invariant holds taken
      have next := kept invariant taken
      constructor
      · intro always
        have here : P head.2 := always head List.mem_cons_self
        exact ⟨decided.mp here, (ih whole next here).mp fun reached member =>
          always reached (List.mem_cons_of_mem _ member)⟩
      · rintro ⟨meets, each⟩ reached member
        have here : P head.2 := decided.mpr meets
        rcases List.mem_cons.mp member with rfl | later
        · exact here
        · exact (ih whole next here).mpr each reached later

end Path

end Base
