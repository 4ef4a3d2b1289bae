import Mathlib.Data.List.Nodup
import Mathlib.Logic.Function.Basic
import Mathlib.Tactic.Common

/-!
# Singly linked lists

A list of cells threaded through a `next` pointer, which is `none` where C has
`NULL`. `Chain next head cells` says that following `next` from `head` visits
`cells` in order and ends; such a list repeats no cell.
-/

namespace Base

variable {α : Type}

/-- Following `next` from `head` visits `cells` in order and then stops. -/
def Chain (next : α → Option α) : Option α → List α → Prop
  | head, [] => head = none
  | head, cell :: rest => head = some cell ∧ Chain next (next cell) rest

namespace Chain

variable {next next' : α → Option α} {head : Option α} {cell : α} {cells rest : List α}

@[simp] theorem nil_iff : Chain next head [] ↔ head = none := Iff.rfl

@[simp] theorem cons_iff :
    Chain next head (cell :: rest) ↔ head = some cell ∧ Chain next (next cell) rest := Iff.rfl

/-- A chain starts at its first cell. -/
theorem head_eq (chain : Chain next head cells) : head = cells.head? := by
  cases cells with
  | nil => exact chain
  | cons cell rest => exact chain.1

/-- Only one list is threaded from a given start. -/
theorem unique (left : Chain next head cells) (right : Chain next head rest) : cells = rest := by
  induction cells generalizing head rest with
  | nil =>
      cases rest with
      | nil => rfl
      | cons cell rest => rw [nil_iff.mp left] at right; cases right.1
  | cons cell cells ih =>
      cases rest with
      | nil => rw [nil_iff.mp right] at left; cases left.1
      | cons other rest =>
          obtain ⟨rfl, leftTail⟩ := left
          obtain ⟨same, rightTail⟩ := right
          cases same
          rw [ih leftTail rightTail]

/-- Every suffix of a chain that starts with a cell is the chain from that cell. -/
theorem of_append_cons {before : List α} (chain : Chain next head (before ++ cell :: rest)) :
    Chain next (next cell) rest := by
  induction before generalizing head with
  | nil => exact chain.2
  | cons first before ih => exact ih chain.2

/-- A list that ends visits no cell twice: from a cell on, the rest is determined. -/
theorem nodup (chain : Chain next head cells) : cells.Nodup := by
  induction cells generalizing head with
  | nil => exact List.nodup_nil
  | cons cell rest ih =>
      refine List.nodup_cons.mpr ⟨fun again => ?_, ih chain.2⟩
      obtain ⟨before, after, rfl⟩ := List.append_of_mem again
      have shorter := unique chain.2 chain.2.of_append_cons
      have lengths := congrArg List.length shorter
      simp only [List.length_append, List.length_cons] at lengths
      omega

/-- Pointers of other cells do not matter. -/
theorem congr (chain : Chain next head cells) (same : ∀ cell ∈ cells, next' cell = next cell) :
    Chain next' head cells := by
  induction cells generalizing head with
  | nil => exact chain
  | cons cell rest ih =>
      refine ⟨chain.1, ?_⟩
      rw [same cell List.mem_cons_self]
      exact ih chain.2 fun other member => same other (List.mem_cons_of_mem _ member)

/-- Linking a new last cell behind the old last one appends it. -/
theorem snoc [DecidableEq α] {last : α} (chain : Chain next head (cells ++ [last]))
    (fresh : cell ∉ cells ++ [last]) :
    Chain (Function.update (Function.update next last (some cell)) cell none) head
      (cells ++ [last] ++ [cell]) := by
  induction cells generalizing head with
  | nil =>
      have other : last ≠ cell := fun same => fresh (by simp [same])
      refine ⟨chain.1, ?_⟩
      rw [Function.update_of_ne other, Function.update_self]
      exact ⟨rfl, Function.update_self ..⟩
  | cons first rest ih =>
      have once := nodup chain
      have notLast : first ≠ last := by
        rintro rfl
        simp at once
      have notCell : first ≠ cell := fun same => fresh (by simp [same])
      refine ⟨chain.1, ?_⟩
      rw [Function.update_of_ne notCell, Function.update_of_ne notLast]
      exact ih chain.2 fun member => fresh (List.mem_cons_of_mem _ member)

/-- Linking behind the last cell, where the new pointers are known one by one. -/
theorem append_one {last : α} (chain : Chain next head (cells ++ [last]))
    (fresh : cell ∉ cells ++ [last]) (same : ∀ other ∈ cells, next' other = next other)
    (linked : next' last = some cell) (ends : next' cell = none) :
    Chain next' head (cells ++ [last] ++ [cell]) := by
  classical
  have once := nodup chain
  refine (snoc chain fresh).congr fun other member => ?_
  by_cases isCell : other = cell
  · rw [isCell, ends, Function.update_self]
  · rw [Function.update_of_ne isCell]
    by_cases isLast : other = last
    · rw [isLast, linked, Function.update_self]
    · rw [Function.update_of_ne isLast]
      apply same
      simpa [isCell, isLast] using member

end Chain

end Base
