import Mathlib.Data.List.Basic
import Mathlib.Data.List.Infix

/-!
# Text laid out on a sheet

Characters go to cells, row by row: some of them only begin a new row, and a text that
fills the last row of the sheet goes on in the first. A cell keeps the last character
that came to it. Rows begun past the last one are rows like any other, so lines that
each fit a row are found one below the other for ever.
-/

namespace Base

variable {α : Type}

/-- A place on a sheet. -/
@[ext] structure Cursor where
  row : Nat
  column : Nat
  deriving DecidableEq

/-- The shape of a sheet and the characters that begin a new row. -/
structure Sheet (α : Type) where
  width : Nat
  height : Nat
  breaks : α → Bool

/-- The last entry at a place. -/
def latest : List (Nat × α) → Nat → Option α
  | [], _ => none
  | entry :: rest, cell => (latest rest cell).or (if entry.1 = cell then some entry.2 else none)

@[simp] theorem latest_nil (cell : Nat) : latest ([] : List (Nat × α)) cell = none := rfl

theorem latest_append (first second : List (Nat × α)) (cell : Nat) :
    latest (first ++ second) cell = (latest second cell).or (latest first cell) := by
  induction first with
  | nil => simp
  | cons entry rest ih => simp [latest, ih, Option.or_assoc]

theorem latest_snoc (entries : List (Nat × α)) (place cell : Nat) (c : α) :
    latest (entries ++ [(place, c)]) cell =
      if place = cell then some c else latest entries cell := by
  rw [latest_append]
  by_cases here : place = cell <;> simp [latest, here]

/-- Entries at consecutive places. -/
theorem latest_zipIdx (row : List α) (start cell : Nat) :
    latest ((row.zipIdx start).map Prod.swap) cell =
      if start ≤ cell then row[cell - start]? else none := by
  induction row generalizing start with
  | nil => simp
  | cons c rest ih =>
      simp only [List.zipIdx_cons, List.map_cons, latest, ih, Prod.swap_prod_mk]
      rcases Nat.lt_trichotomy start cell with below | rfl | above
      · obtain ⟨offset, rfl⟩ : ∃ offset, cell = start + 1 + offset :=
          ⟨cell - (start + 1), by omega⟩
        have index : start + 1 + offset - start = offset + 1 := by omega
        have different : start ≠ start + 1 + offset := by omega
        simp [index, different]
        omega
      · have later : ¬ start + 1 ≤ start := by omega
        rw [if_neg later]
        simp
      · have different : start ≠ cell := by omega
        have early : ¬ start + 1 ≤ cell := by omega
        simp [different, early, Nat.not_le.mpr above]

namespace Sheet

variable (sheet : Sheet α)

/-- The number of a cell, counting row by row. -/
def index (place : Cursor) : Nat := place.row * sheet.width + place.column

/-- Where the cursor goes when a character is written. -/
def advance (place : Cursor) (c : α) : Cursor :=
  if sheet.breaks c then ⟨place.row + 1, 0⟩
  else if place.column + 1 = sheet.width then
    ⟨if place.row + 1 = sheet.height then 0 else place.row + 1, 0⟩
  else ⟨place.row, place.column + 1⟩

/-- Where a text takes the cursor. -/
def cursorFrom (place : Cursor) (text : List α) : Cursor := text.foldl sheet.advance place

/-- The cells that a text is written to, in order. -/
def placedFrom : Cursor → List α → List (Nat × α)
  | _, [] => []
  | place, c :: rest =>
      if sheet.breaks c then placedFrom (sheet.advance place c) rest
      else (sheet.index place, c) :: placedFrom (sheet.advance place c) rest

/-- The cursor after a text on an empty sheet. -/
def cursor (text : List α) : Cursor := sheet.cursorFrom ⟨0, 0⟩ text

/-- The cells of a text on an empty sheet. -/
def placed (text : List α) : List (Nat × α) := sheet.placedFrom ⟨0, 0⟩ text

/-- What a cell shows after a text. -/
def shown (text : List α) (cell : Nat) : Option α := latest (sheet.placed text) cell

/-! ## Text after text -/

variable {sheet} {place : Cursor} {c : α} {text first second : List α}

@[simp] theorem cursorFrom_nil : sheet.cursorFrom place [] = place := rfl

theorem cursorFrom_append :
    sheet.cursorFrom place (first ++ second) =
      sheet.cursorFrom (sheet.cursorFrom place first) second := by
  simp [cursorFrom]

theorem placedFrom_append :
    sheet.placedFrom place (first ++ second) =
      sheet.placedFrom place first ++
        sheet.placedFrom (sheet.cursorFrom place first) second := by
  induction first generalizing place with
  | nil => simp [placedFrom]
  | cons c rest ih =>
      by_cases isBreak : sheet.breaks c
      · simp [placedFrom, isBreak, ih, cursorFrom]
      · simp [placedFrom, isBreak, ih, cursorFrom]

@[simp] theorem cursor_nil : sheet.cursor [] = ⟨0, 0⟩ := rfl

@[simp] theorem placed_nil : sheet.placed [] = [] := rfl

theorem cursor_snoc : sheet.cursor (text ++ [c]) = sheet.advance (sheet.cursor text) c := by
  simp [cursor, cursorFrom]

theorem placed_break (isBreak : sheet.breaks c = true) :
    sheet.placed (text ++ [c]) = sheet.placed text := by
  simp [placed, placedFrom_append, placedFrom, isBreak]

theorem placed_ordinary (ordinary : sheet.breaks c = false) :
    sheet.placed (text ++ [c]) = sheet.placed text ++ [(sheet.index (sheet.cursor text), c)] := by
  simp [placed, placedFrom_append, placedFrom, ordinary, cursor]

theorem placed_prefix (before : first <+: second) : sheet.placed first <+: sheet.placed second := by
  obtain ⟨rest, rfl⟩ := before
  rw [placed, placed, placedFrom_append]
  exact List.prefix_append _ _

theorem shown_break (isBreak : sheet.breaks c = true) (cell : Nat) :
    sheet.shown (text ++ [c]) cell = sheet.shown text cell := by
  rw [shown, placed_break isBreak, shown]

theorem shown_ordinary (ordinary : sheet.breaks c = false) (cell : Nat) :
    sheet.shown (text ++ [c]) cell =
      if sheet.index (sheet.cursor text) = cell then some c else sheet.shown text cell := by
  rw [shown, placed_ordinary ordinary, latest_snoc, shown]

/-- The cursor never stands past the end of a row. -/
theorem column_lt (wide : 0 < sheet.width) : (sheet.cursor text).column < sheet.width := by
  induction text using List.reverseRecOn with
  | nil => exact wide
  | append_singleton text c ih =>
      rw [cursor_snoc, advance]
      split
      · exact wide
      · split
        · exact wide
        · change (sheet.cursor text).column + 1 < sheet.width
          omega

/-- A character begins at most one row. -/
theorem row_le : (sheet.cursor text).row ≤ text.length := by
  induction text using List.reverseRecOn with
  | nil => exact Nat.le_refl _
  | append_singleton text c ih =>
      rw [cursor_snoc, advance, List.length_append, List.length_singleton]
      split
      · exact Nat.succ_le_succ ih
      · split
        · dsimp only
          split
          · omega
          · omega
        · exact Nat.le_succ_of_le ih

/-! ## Lines -/

/-- Lines, each ended by a break. -/
def unlines (newline : α) (lines : List (List α)) : List α :=
  lines.flatMap fun line => line ++ [newline]

/-- A line that fits a row. -/
structure Fits (sheet : Sheet α) (line : List α) : Prop where
  short : line.length < sheet.width
  ordinary : ∀ c ∈ line, sheet.breaks c = false

variable {newline : α} {line : List α} {lines : List (List α)}

theorem cursorFrom_line (ordinary : ∀ c ∈ line, sheet.breaks c = false)
    (short : place.column + line.length < sheet.width) :
    sheet.cursorFrom place line = ⟨place.row, place.column + line.length⟩ := by
  induction line generalizing place with
  | nil => rfl
  | cons c rest ih =>
      obtain ⟨here, later⟩ := List.forall_mem_cons.mp ordinary
      rw [List.length_cons] at short
      have notLast : place.column + 1 ≠ sheet.width := by omega
      have next : sheet.advance place c = ⟨place.row, place.column + 1⟩ := by
        simp [advance, here, notLast]
      change sheet.cursorFrom (sheet.advance place c) rest = _
      rw [next, ih later (by dsimp only; omega)]
      simp only [List.length_cons, Cursor.mk.injEq, true_and]
      omega

theorem placedFrom_line (ordinary : ∀ c ∈ line, sheet.breaks c = false)
    (short : place.column + line.length < sheet.width) :
    sheet.placedFrom place line = (line.zipIdx (sheet.index place)).map Prod.swap := by
  induction line generalizing place with
  | nil => rfl
  | cons c rest ih =>
      obtain ⟨here, later⟩ := List.forall_mem_cons.mp ordinary
      rw [List.length_cons] at short
      have notLast : place.column + 1 ≠ sheet.width := by omega
      have next : sheet.advance place c = ⟨place.row, place.column + 1⟩ := by
        simp [advance, here, notLast]
      have number : sheet.index ⟨place.row, place.column + 1⟩ = sheet.index place + 1 := by
        simp [index, Nat.add_assoc]
      rw [placedFrom, if_neg (by simp [here]), next, ih later (by dsimp only; omega), number,
        List.zipIdx_cons, List.map_cons]
      rfl

/-- A line and its break begin the next row. -/
theorem cursorFrom_cons (isBreak : sheet.breaks newline = true) (fits : Fits sheet line)
    (row : Nat) :
    sheet.cursorFrom ⟨row, 0⟩ (line ++ [newline]) = ⟨row + 1, 0⟩ := by
  have short : 0 + line.length < sheet.width := by
    rw [Nat.zero_add]
    exact fits.short
  rw [cursorFrom_append, cursorFrom_line fits.ordinary short]
  simp [cursorFrom, advance, isBreak]

theorem placedFrom_unlines_cons (isBreak : sheet.breaks newline = true) (fits : Fits sheet line)
    (row : Nat) :
    sheet.placedFrom ⟨row, 0⟩ (unlines newline (line :: lines)) =
      (line.zipIdx (row * sheet.width)).map Prod.swap ++
        sheet.placedFrom ⟨row + 1, 0⟩ (unlines newline lines) := by
  have short : 0 + line.length < sheet.width := by
    rw [Nat.zero_add]
    exact fits.short
  have split : unlines newline (line :: lines) = (line ++ [newline]) ++ unlines newline lines := rfl
  rw [split, placedFrom_append, cursorFrom_cons isBreak fits, placedFrom_append,
    placedFrom_line fits.ordinary short]
  simp [placedFrom, isBreak, index]

theorem cursorFrom_unlines (isBreak : sheet.breaks newline = true)
    (fits : ∀ line ∈ lines, Fits sheet line) (row : Nat) :
    sheet.cursorFrom ⟨row, 0⟩ (unlines newline lines) = ⟨row + lines.length, 0⟩ := by
  induction lines generalizing row with
  | nil => rfl
  | cons line lines ih =>
      obtain ⟨here, later⟩ := List.forall_mem_cons.mp fits
      have split : unlines newline (line :: lines) = (line ++ [newline]) ++ unlines newline lines :=
        rfl
      rw [split, cursorFrom_append, cursorFrom_cons isBreak here, ih later]
      simp only [List.length_cons, Cursor.mk.injEq, and_true]
      omega

/-- The lines lie one below the other. -/
theorem latest_unlines (isBreak : sheet.breaks newline = true)
    (fits : ∀ line ∈ lines, Fits sheet line) (first row : Nat) {column : Nat}
    (inside : column < sheet.width) :
    latest (sheet.placedFrom ⟨first, 0⟩ (unlines newline lines)) (row * sheet.width + column) =
      if first ≤ row then lines[row - first]?.bind (·[column]?) else none := by
  induction lines generalizing first with
  | nil => simp [unlines, placedFrom]
  | cons text lines ih =>
      obtain ⟨here, later⟩ := List.forall_mem_cons.mp fits
      have short := here.short
      rw [placedFrom_unlines_cons isBreak here, latest_append, ih later, latest_zipIdx]
      rcases Nat.lt_trichotomy first row with below | rfl | above
      · obtain ⟨offset, rfl⟩ : ∃ offset, row = first + 1 + offset :=
          ⟨row - (first + 1), by omega⟩
        have rowStart : (first + 1 + offset) * sheet.width + column - first * sheet.width =
            sheet.width + (offset * sheet.width + column) := by
          rw [Nat.add_mul, Nat.add_mul]
          omega
        have beyond : text[sheet.width + (offset * sheet.width + column)]? = none :=
          List.getElem?_eq_none (by omega)
        have number : first + 1 + offset - first = offset + 1 := by omega
        have reached : first ≤ first + 1 + offset := by omega
        simp [rowStart, beyond, number, reached]
      · have early : ¬ first + 1 ≤ first := by omega
        simp [early]
      · have early : ¬ first + 1 ≤ row := by omega
        have before : ¬ first * sheet.width ≤ row * sheet.width + column := by
          have rows := Nat.mul_le_mul_right sheet.width above
          rw [Nat.succ_mul] at rows
          omega
        simp [early, before, Nat.not_le.mpr above]

/-- How far a line reaches. -/
theorem forall_zipIdx_lt {start limit : Nat} :
    (∀ entry ∈ (line.zipIdx start).map Prod.swap, entry.1 < limit) ↔
      (line ≠ [] → start + line.length ≤ limit) := by
  induction line generalizing start with
  | nil => simp
  | cons c rest ih =>
      rw [List.zipIdx_cons, List.map_cons, List.forall_mem_cons, ih]
      cases rest with
      | nil =>
          simp only [Prod.fst_swap, List.length_cons, List.length_nil, ne_eq, reduceCtorEq,
            not_false_eq_true, forall_const]
          omega
      | cons next rest =>
          simp only [Prod.fst_swap, List.length_cons, ne_eq, reduceCtorEq, not_false_eq_true,
            forall_const]
          omega

/-- How far some lines reach. -/
theorem forall_placed_unlines (isBreak : sheet.breaks newline = true)
    (fits : ∀ line ∈ lines, Fits sheet line) (first limit : Nat) :
    (∀ entry ∈ sheet.placedFrom ⟨first, 0⟩ (unlines newline lines), entry.1 < limit) ↔
      ∀ row line, lines[row]? = some line → line ≠ [] →
        (first + row) * sheet.width + line.length ≤ limit := by
  induction lines generalizing first with
  | nil => simp [unlines, placedFrom]
  | cons line lines ih =>
      obtain ⟨here, later⟩ := List.forall_mem_cons.mp fits
      rw [placedFrom_unlines_cons isBreak here, List.forall_mem_append, forall_zipIdx_lt, ih later]
      constructor
      · rintro ⟨front, others⟩ row other found nonempty
        cases row with
        | zero =>
            cases found
            exact front nonempty
        | succ row =>
            have reach := others row other found nonempty
            rwa [Nat.add_assoc, Nat.add_comm 1] at reach
      · intro all
        refine ⟨fun nonempty => all 0 line rfl nonempty, fun row other found nonempty => ?_⟩
        rw [Nat.add_assoc, Nat.add_comm 1]
        exact all (row + 1) other found nonempty

/-- Lines take up no more than their rows. -/
theorem length_unlines_le (fits : ∀ line ∈ lines, Fits sheet line) :
    (unlines newline lines).length ≤ lines.length * sheet.width := by
  induction lines with
  | nil => simp [unlines]
  | cons line lines ih =>
      obtain ⟨here, later⟩ := List.forall_mem_cons.mp fits
      have short := here.short
      have others := ih later
      have split : unlines newline (line :: lines) = (line ++ [newline]) ++ unlines newline lines :=
        rfl
      rw [split, List.length_append, List.length_append, List.length_singleton, List.length_cons,
        Nat.succ_mul]
      omega

/-- What the sheet shows after some lines. -/
theorem shown_unlines (isBreak : sheet.breaks newline = true)
    (fits : ∀ line ∈ lines, Fits sheet line) (row : Nat) {column : Nat}
    (inside : column < sheet.width) :
    sheet.shown (unlines newline lines) (row * sheet.width + column) =
      lines[row]?.bind (·[column]?) := by
  rw [shown, placed, latest_unlines isBreak fits 0 row inside]
  simp

end Sheet

end Base
