import Mathlib.Tactic.Common

/-!
# Arrays laid end to end

An `Arena` is a list of arrays that are independent of each other: one can be added, filled
with a value, and an element of one can be read or replaced. `offset` is where an array starts
when all of them lie end to end; no two elements then lie at the same place.
-/

namespace Base

variable {α : Type}

/-- Arrays, the oldest first. -/
abbrev Arena (α : Type) := List (List α)

namespace Arena

/-- The number of elements. -/
def total : Arena α → Nat
  | [] => 0
  | elements :: rest => elements.length + total rest

variable (arena : Arena α) (array index : Nat) (value : α)

/-- The number of elements before an array. -/
def offset : Nat := total (arena.take array)

/-- An element, where there is one. -/
def get : Option α := arena[array]? >>= fun elements => elements[index]?

/-- Replace an element. -/
def put : Arena α := arena.modify array fun elements => elements.set index value

/-- One more array, with one value throughout. -/
def grow (size : Nat) (value : α) (arena : Arena α) : Arena α :=
  arena ++ [List.replicate size value]

variable {arena array index value}

theorem total_append (left right : Arena α) :
    total (left ++ right) = total left + total right := by
  induction left with
  | nil => simp [total]
  | cons elements rest ih => simp [total, ih, Nat.add_assoc]

theorem length_grow {size : Nat} : (grow size value arena).length = arena.length + 1 := by
  simp [grow]

theorem total_grow {size : Nat} : total (grow size value arena) = total arena + size := by
  simp [grow, total_append, total]

/-- The arrays stay where they are when one more is laid behind them. -/
theorem offset_grow {size : Nat} (inside : array ≤ arena.length) :
    offset (grow size value arena) array = offset arena array := by
  rw [offset, offset, grow, List.take_append_of_le_length inside]

/-- The new array starts behind the others. -/
theorem offset_grow_last {size : Nat} :
    offset (grow size value arena) arena.length = total arena := by
  rw [offset_grow (Nat.le_refl _), offset, List.take_length]

theorem get_grow_old {size : Nat} (inside : array < arena.length) :
    get (grow size value arena) array index = get arena array index := by
  rw [get, get, grow, List.getElem?_append_left inside]

theorem get_grow_new {size : Nat} :
    get (grow size value arena) arena.length index = if index < size then some value else none := by
  simp [get, grow, List.getElem?_replicate]

theorem length_put : (put arena array index value).length = arena.length := by
  simp [put]

theorem total_put : total (put arena array index value) = total arena := by
  induction arena generalizing array with
  | nil => simp [put]
  | cons elements rest ih =>
      cases array with
      | zero => simp [put, total]
      | succ array =>
          have same : total (List.modify rest array _) = total rest := ih
          simp [put, total, same]

/-- Replacing an element moves nothing. -/
theorem offset_put {other : Nat} :
    offset (put arena array index value) other = offset arena other := by
  induction arena generalizing array other with
  | nil => simp [put]
  | cons elements rest ih =>
      cases other with
      | zero => rfl
      | succ other =>
          cases array with
          | zero => simp [put, offset, total]
          | succ array =>
              have same : total ((List.modify rest array _).take other) =
                  total (rest.take other) := ih
              simp [put, offset, total, same]

/-- Replacing an element replaces that element. -/
theorem get_put_same {old : α} (present : get arena array index = some old) :
    get (put arena array index value) array index = some value := by
  obtain ⟨elements, found, inside⟩ := Option.bind_eq_some_iff.mp present
  obtain ⟨bound, -⟩ := List.getElem?_eq_some_iff.mp inside
  simp [get, put, found, bound]

/-- And no other. -/
theorem get_put_other {array' index' : Nat} (other : ¬ (array' = array ∧ index' = index)) :
    get (put arena array index value) array' index' = get arena array' index' := by
  simp only [get, put, List.getElem?_modify]
  by_cases same : array = array'
  · subst same
    have apart : index ≠ index' := fun same => other ⟨rfl, same.symm⟩
    cases arena[array]? with
    | none => simp
    | some elements => simp [List.getElem?_set_ne apart]
  · simp [same]

/-- Where an array ends. -/
theorem offset_succ {elements : List α} (found : arena[array]? = some elements) :
    offset arena (array + 1) = offset arena array + elements.length := by
  rw [offset, offset, List.take_add_one, found, total_append]
  simp [total]

theorem offset_mono {left right : Nat} (ordered : left ≤ right) :
    offset arena left ≤ offset arena right := by
  have split : arena.take right = arena.take left ++ (arena.take right).drop left := by
    have whole := List.take_append_drop left (arena.take right)
    rw [List.take_take, Nat.min_eq_left ordered] at whole
    exact whole.symm
  rw [offset, offset, split, total_append]
  omega

theorem offset_le_total : offset arena array ≤ total arena := by
  have split := total_append (arena.take array) (arena.drop array)
  rw [List.take_append_drop] at split
  rw [offset, split]
  omega

/-- An element lies before the arrays behind its own. -/
theorem offset_add_lt {later : Nat} (present : get arena array index = some value)
    (behind : array < later) : offset arena array + index < offset arena later := by
  obtain ⟨elements, found, inside⟩ := Option.bind_eq_some_iff.mp present
  obtain ⟨bound, -⟩ := List.getElem?_eq_some_iff.mp inside
  have ends := offset_succ found
  have ordered : offset arena (array + 1) ≤ offset arena later := offset_mono behind
  omega

theorem lt_length (present : get arena array index = some value) : array < arena.length := by
  obtain ⟨elements, found, -⟩ := Option.bind_eq_some_iff.mp present
  exact (List.getElem?_eq_some_iff.mp found).1

theorem place_lt_total (present : get arena array index = some value) :
    offset arena array + index < total arena :=
  Nat.lt_of_lt_of_le (offset_add_lt present (Nat.lt_succ_self array)) offset_le_total

/-- No two elements lie at the same place. -/
theorem place_injective {array' index' : Nat} {value' : α}
    (left : get arena array index = some value) (right : get arena array' index' = some value')
    (same : offset arena array + index = offset arena array' + index') :
    array = array' ∧ index = index' := by
  rcases Nat.lt_trichotomy array array' with before | here | behind
  · have bound := offset_add_lt left before
    omega
  · subst here
    exact ⟨rfl, by omega⟩
  · have bound := offset_add_lt right behind
    omega

end Arena

end Base
