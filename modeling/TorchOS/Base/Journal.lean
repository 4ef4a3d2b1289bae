import Mathlib.Logic.Function.Basic
import Mathlib.Tactic.Common

/-!
# Replaying a journal of writes

A journal is a list of writes of a value under a key. Replaying it over a map
leaves at every key the value last written there, and elsewhere what was there
before.
-/

namespace Base.Journal

variable {κ υ : Type} [DecidableEq κ]

/-- The map after the writes, oldest first. -/
def replay (map : κ → υ) (writes : List (κ × υ)) : κ → υ :=
  writes.foldl (fun current write => Function.update current write.1 write.2) map

/-- The value last written under a key, if any was. -/
def lastWrite (key : κ) (writes : List (κ × υ)) : Option υ :=
  (writes.reverse.find? fun write => write.1 = key).map Prod.snd

@[simp] theorem replay_nil (map : κ → υ) : replay map [] = map := rfl

@[simp] theorem replay_cons (map : κ → υ) (write : κ × υ) (rest : List (κ × υ)) :
    replay map (write :: rest) = replay (Function.update map write.1 write.2) rest := rfl

/-- A replay gives every key the value last written under it. -/
theorem replay_apply (map : κ → υ) (writes : List (κ × υ)) (key : κ) :
    replay map writes key = (lastWrite key writes).getD (map key) := by
  induction writes generalizing map with
  | nil => rfl
  | cons write rest ih =>
      rw [replay_cons, ih]
      cases later : rest.reverse.find? fun write => write.1 = key with
      | some found => simp [lastWrite, later]
      | none =>
          by_cases here : write.1 = key
          · subst here
            simp [lastWrite, later]
          · simp [lastWrite, later, here, Function.update_of_ne (Ne.symm here)]

theorem lastWrite_isSome_iff {key : κ} {writes : List (κ × υ)} :
    (lastWrite key writes).isSome ↔ ∃ write ∈ writes, write.1 = key := by
  simp [lastWrite, List.find?_isSome]

/-- Under a key both maps agree on, a replay over either gives the same value. -/
theorem replay_congr {map map' : κ → υ} {key : κ} (agree : map key = map' key)
    (writes : List (κ × υ)) : replay map writes key = replay map' writes key := by
  rw [replay_apply, replay_apply, agree]

end Base.Journal
