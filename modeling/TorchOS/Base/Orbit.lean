import Mathlib.Data.Finset.Card
import Mathlib.Order.Interval.Finset.Nat
import Mathlib.Logic.Function.Iterate

/-!
# Walks of one function

A walk applies a function to a value again and again, as long as the value is live.
A walk that stops comes to no value twice, so among so many values it stops within that
many steps.
-/

namespace Base.Orbit

variable {α : Type} {step : α → α} {live : α → Prop} {start : α} {count : Nat}

/-- The walk stops after `count` steps, live at each before. -/
def StopsAt (step : α → α) (live : α → Prop) (start : α) (count : Nat) : Prop :=
  (∀ index < count, live (step^[index] start)) ∧ ¬ live (step^[count] start)

theorem stopsAt_zero (stopped : ¬ live start) : StopsAt step live start 0 :=
  ⟨fun _ below => absurd below (Nat.not_lt_zero _), stopped⟩

/-- A walk from a live value stops one step later than the walk from the next. -/
theorem stopsAt_succ :
    StopsAt step live start (count + 1) ↔ live start ∧ StopsAt step live (step start) count := by
  simp only [StopsAt, Function.iterate_succ_apply]
  constructor
  · rintro ⟨before, stopped⟩
    exact ⟨before 0 (by omega), fun index below => before (index + 1) (by omega), stopped⟩
  · rintro ⟨here, before, stopped⟩
    refine ⟨fun index below => ?_, stopped⟩
    cases index with
    | zero => exact here
    | succ index => exact before index (by omega)

/-- A walk that stops comes to no value twice: it would go round for ever. -/
theorem StopsAt.ne {first second : Nat} (stops : StopsAt step live start count)
    (before : first < second) (within : second < count) :
    step^[first] start ≠ step^[second] start := by
  intro same
  have round : step^[count - second + first] start = step^[count] start := by
    rw [Function.iterate_add_apply, same, ← Function.iterate_add_apply,
      Nat.sub_add_cancel within.le]
  have earlier : count - second + first < count := by omega
  exact stops.2 (round ▸ stops.1 _ earlier)

/-- Among `bound` values a walk that stops does so within `bound` steps. -/
theorem StopsAt.count_le {rank : α → Nat} {bound : Nat} (stops : StopsAt step live start count)
    (injective : Function.Injective rank) (bounded : ∀ value, rank value < bound) :
    count ≤ bound := by
  by_contra many
  have more : (Finset.range bound).card < (Finset.range count).card := by simpa using many
  obtain ⟨first, inFirst, second, inSecond, apart, same⟩ :=
    Finset.exists_ne_map_eq_of_card_lt_of_maps_to more
      (f := fun index => rank (step^[index] start))
      fun index _ => by simpa using bounded _
  rw [Finset.mem_range] at inFirst inSecond
  have meets : step^[first] start = step^[second] start := injective same
  rcases Nat.lt_or_gt_of_ne apart with before | after
  · exact stops.ne before inSecond meets
  · exact stops.ne after inFirst meets.symm

end Base.Orbit
